import QuantumNode.Message.Control
import QuantumNode.Node.Execution
import QuantumNode.Node.Pairing

/-! The dispatcher at work: it takes messages of the host one at a time, registers and stops applications, and
answers every subroutine before it looks at the next message. -/
namespace QuantumNode

inductive DispatchStage where
  | idle
  /-- The next subroutine of an application is to be taken. -/
  | serving (app : Int)
  | running (app : Int) (e : Execution)

namespace Dispatch

open Node

variable {n m : Nat}

/-- What a step of the dispatcher comes to; it never ends. -/
abbrev Step (m : Nat) := Flow m DispatchStage Empty

private def log (level : LogLevel) (text : String) : NodeWork n m Unit := Node.log level "Handler" text

def modifyDispatcher (f : Dispatcher → Dispatcher) : NodeWork n m Unit :=
  Work.modifyPart fun node => { node with dispatcher := f node.dispatcher }

/-- Registers an application and gives it the next id. -/
def initApp (maxQubits : Nat) : NodeWork n m Int := do
  let app : Int := (← Work.part).dispatcher.nextApp
  modifyDispatcher fun d => { d with nextApp := d.nextApp + 1 }
  addApp app
  modifyDispatcher fun d => { d with apps := d.apps.insert app ⟨maxQubits, []⟩ }
  let count := (← Work.part).pool.size
  if count < maxQubits then log .warning s!"app {app} asks for {maxQubits} qubits, the node has {count}"
  log .debug s!"registered app with ID {app}"
  return app

def isRunning (node : Node n m) (app : Int) : Bool := node.dispatcher.apps.contains app

def openSocket (app socket remote : Int) : NodeWork n m Unit := do
  if isRunning (← Work.part) app then Pairing.openSocket app socket remote
  else Work.fail (.socketForUnknownApp app)

def addSubroutine (app : Int) (s : Subroutine) : NodeWork n m Unit := do
  if isRunning (← Work.part) app then
    modifyDispatcher fun d =>
      { d with apps := d.apps.modify app fun a => { a with pending := a.pending ++ [s] } }
  else Work.fail (.subroutineForUnknownApp app)

/-- Frees every qubit of an application, and drops its memory if asked to. -/
def clearApp (app : Int) (remove : Bool) : NodeWork n m Unit := do
  if (← Work.part).hasApp app then
    let mem ← memory app
    setMemory app mem.unmapAll
    mem.mapped.forM freeQubit
    if remove then removeApp app

def stopApp (app : Int) : NodeWork n m Unit := do
  log .debug s!"stopping application with ID {app}"
  if (← Work.part).dispatcher.clearOnStop then
    log .debug s!"clearing qubits for application with ID {app}"
    clearApp app true
  else log .info s!"NOT clearing qubits for application with ID {app}"
  Pairing.removeApp app
  modifyDispatcher fun d => { d with apps := d.apps.erase app }

def reply (message : NodeMessage) : NodeWork n m Unit := do
  Work.emit (.send (.toHost (← Work.part).id) message.encode)

/-- Does what a message of the host asks for. -/
def apply (message : HostMessage) : NodeWork n m Unit := do
  match message with
  | .initNewApp maxQubits => reply (.appId (← initApp maxQubits))
  | .openSocket app socket remote =>
    log .debug s!"opening EPR socket ({socket}, {remote})"
    openSocket app socket remote
  | .subroutine text =>
    match Subroutine.parse text with
    | .ok s => addSubroutine s.appId s
    | .error e =>
      let f := Fault.undecodableSubroutine e
      log .error f.text
      Work.fail f
  | .stopApp app => stopApp app

/-- The first application that has a subroutine to be executed. -/
def firstPending? (d : Dispatcher) : Option Int :=
  (d.apps.entries.find? fun e => !e.2.pending.isEmpty).map Prod.fst

def takeMessage (text : String) : NodeWork n m (Step m) := do
  match HostMessage.decode text with
  | .error e =>
    log .error e.message
    Work.fail (.undecodableMessage e.message)
  | .ok message =>
    apply message
    match firstPending? (← Work.part).dispatcher with
    | some app => return .go (.serving app)
    | none => return .go .idle

/-- The oldest message, or a wait for one. -/
def awaitMessage (p : ProcessId) : NodeWork n m (Step m) := do
  let node ← Work.part
  let (text, inbox) := node.inbox.receive p
  Work.setPart { node with inbox := inbox }
  match text with
  | some text => takeMessage text
  | none => return .rest .idle

/-- Takes the next subroutine of an application, until none is left. -/
def serve (app : Int) : NodeWork n m (Step m) := do
  match (← Work.part).dispatcher.apps.get? app with
  | some ⟨maxQubits, s :: pending⟩ =>
    modifyDispatcher fun d => { d with apps := d.apps.insert app ⟨maxQubits, pending⟩ }
    return .go (.running app (.new s))
  | _ => return .go .idle

/-- Answers a subroutine. An aborted one leaves its application no qubits. -/
def answer (app : Int) (status : ExecutionStatus) : NodeWork n m (Step m) := do
  modifyDispatcher fun d => { d with subroutinesRun := d.subroutinesRun + 1 }
  match status with
  | .ok => reply (.memory (← memory app).snapshot)
  | .aborted =>
    clearApp app false
    reply (.abort s!"entanglement request of app {app} failed")
  return .go (.serving app)

/-- A step of the dispatcher. -/
def step (p : ProcessId) (stage : DispatchStage) (wake : Wake) : NodeWork n m (Step m) :=
  match stage, wake with
  | .idle, .text t => takeMessage t
  | .idle, _ => awaitMessage p
  | .serving app, _ => serve app
  | .running app e, _ => do
    match ← Execution.step p e with
    | .go e => return .go (.running app e)
    | .rest e => return .rest (.running app e)
    | .call e l s c => return .call (.running app e) l s c
    | .finished status => answer app status

end Dispatch

end QuantumNode
