import QuantumNode.Device.State
import QuantumNode.Entanglement.Service
import QuantumNode.Memory.Pool
import QuantumNode.Memory.Snapshot
import QuantumNode.Node.Work

/-! A node: its device, its qubits, the memories of its applications, and the state of what runs on it. -/
namespace QuantumNode

/-- An application that has been registered and not yet stopped. -/
structure RunningApp where
  maxQubits : Nat
  /-- Subroutines that wait to be executed. -/
  pending : List Subroutine
  deriving DecidableEq, Repr

/-- Registers applications and runs their subroutines. -/
structure Dispatcher where
  nextApp : Nat
  apps : SortedMap Int RunningApp
  /-- Whether the memory of an application goes when it is stopped. -/
  clearOnStop : Bool
  subroutinesRun : Nat

def Dispatcher.new : Dispatcher := ⟨0, .empty, true, 0⟩

/-- The links that end at a node, by the remote node; of two links to one node the later counts. -/
structure LinkPorts (m : Nat) where
  links : SortedMap Int (Fin m × LinkEnd)
  creates : Nat
  receives : Nat
  /-- Whether creates are reported. -/
  observed : Bool

def LinkPorts.new {m : Nat} : LinkPorts m := ⟨.empty, 0, 0, false⟩

structure Node (n m : Nat) where
  id : Fin n
  name : String
  device : Device
  pool : QubitPool
  apps : SortedMap Int AppMemory
  memoryFreed : Signal ProcessId
  arrayWritten : Signal ProcessId
  /-- Texts from the host. -/
  inbox : Channel String ProcessId
  ports : LinkPorts m
  service : PairService n ProcessId
  dispatcher : Dispatcher
  /-- How many instructions have been executed. -/
  executed : Nat
  relocations : Nat

abbrev NodeWork (n m : Nat) := Work (Node n m) n m

namespace Node

variable {n m : Nat} {α : Type}

/-- The name under which a component of the node logs. -/
def component (node : Node n m) (kind : String) : String := s!"{kind}({node.name})"

def log (level : LogLevel) (kind text : String) : NodeWork n m Unit := do
  let node ← Work.part
  Work.log level (node.component kind) text

def modifyService (f : PairService n ProcessId → PairService n ProcessId) : NodeWork n m Unit :=
  Work.modifyPart fun node => { node with service := f node.service }

def notifyMemoryFreed : NodeWork n m Unit := do
  let node ← Work.part
  let (woken, s) := node.memoryFreed.notify
  Work.setPart { node with memoryFreed := s }
  Work.wakeAll woken

def notifyArrayWritten : NodeWork n m Unit := do
  let node ← Work.part
  let (woken, s) := node.arrayWritten.notify
  Work.setPart { node with arrayWritten := s }
  Work.wakeAll woken

def notifyNews : NodeWork n m Unit := do
  let node ← Work.part
  let (woken, s) := node.service.news.notify
  Work.setPart { node with service := { node.service with news := s } }
  Work.wakeAll woken

/-! Application memories. -/

def hasApp (node : Node n m) (app : Int) : Bool := node.apps.contains app

def memory (app : Int) : NodeWork n m AppMemory := do
  let node ← Work.part
  match node.apps.get? app with
  | some mem => return mem
  | none => Work.fail (.applicationMissing app node.name)

def setMemory (app : Int) (mem : AppMemory) : NodeWork n m Unit :=
  Work.modifyPart fun node => { node with apps := node.apps.insert app mem }

def updateMemory (app : Int) (f : AppMemory → Except Fault AppMemory) : NodeWork n m Unit := do
  setMemory app (← Work.ofExcept (f (← memory app)))

/-- A memory has room for as many virtual qubits as the node has qubits. -/
def addApp (app : Int) : NodeWork n m Unit := do
  let node ← Work.part
  if node.hasApp app then Work.fail (.applicationExists app node.name)
  else setMemory app (.new app node.pool.size)

def removeApp (app : Int) : NodeWork n m Unit :=
  Work.modifyPart fun node => { node with apps := node.apps.erase app }

/-! Qubits. -/

def ownerIn (phys : Nat) : List (Int × AppMemory) → Option (Int × Int)
  | [] => none
  | (app, mem) :: r =>
    match mem.virtualFor? phys with
    | some virt => some (app, virt)
    | none => ownerIn phys r

/-- The application and the virtual id that a physical qubit is mapped by. -/
def owner? (node : Node n m) (phys : Nat) : Option (Int × Int) := ownerIn phys node.apps.entries

/-- Maps a virtual id of an application to a physical qubit that no other application uses. -/
def mapQubit (app virt : Int) (phys : Nat) : NodeWork n m Unit := do
  match (← Work.part).owner? phys with
  | some (other, v) =>
    if other ≠ app then
      log .error "Qnos" s!"physical qubit {phys} is already used by app {other}"
      Work.fail (.physicalUsedByApp phys v other)
    else updateMemory app (·.mapQubit virt phys)
  | none => updateMemory app (·.mapQubit virt phys)

def setPool (pool : QubitPool) : NodeWork n m Unit :=
  Work.modifyPart fun node => { node with pool := pool }

def allocate : NodeWork n m Nat := do
  let (id, pool) ← Work.ofExcept (← Work.part).pool.allocate
  setPool pool
  return id

def allocateCommunication : NodeWork n m Nat := do
  let (id, pool) ← Work.ofExcept (← Work.part).pool.allocateCommunication
  setPool pool
  return id

/-- Returns a slot without telling anybody. -/
def releaseSlot (phys : Nat) : NodeWork n m Unit := do
  setPool (← Work.ofExcept ((← Work.part).pool.free phys))

/-- Returns a slot to the pool. -/
def freeQubit (phys : Nat) : NodeWork n m Unit := do
  releaseSlot phys
  log .debug "Qnos" s!"freed physical qubit {phys}"
  notifyMemoryFreed

/-! Device operations. -/

/-- Begins a call; the process goes on when its time has passed. -/
def startCall (p : ProcessId) (c : DeviceCall) : NodeWork n m Unit := do
  Work.sleep p (← Work.ofExcept ((← Work.part).device.duration c))

/-- Begins a gate, which may neither initialise nor measure. -/
def startGate (p : ProcessId) (c : DeviceCall) : NodeWork n m Unit := do
  Work.sleep p (← Work.ofExcept ((← Work.part).device.gateDuration c))

def callText (c : DeviceCall) (outcome : Option Nat) : String :=
  let start := " ".intercalate (c.op.name :: c.positions.map toString)
  match c.op, outcome with
  | .init, _ => start
  | _, some bit => s!"{start} -> {bit}"
  | _, none => s!"{start} angle=" ++ Number.shortText c.angle

/-- The effect of a call, with the outcome of a measurement. -/
def finishCall (c : DeviceCall) : NodeWork n m (Option Nat) := do
  let node ← Work.part
  let outcome ← Work.withQuantum (node.device.effect c)
  Work.setPart { node with device := node.device.record c }
  log .debug "QDevice" (callText c outcome)
  return outcome

/-! Links. -/

/-- What the node asks the link to a remote node: the link, the node's end of it and the call. A create is
counted and reported before its position is looked at. -/
def linkCall (role : PairRole) (remote : Int) (request : PairRequest) (position : Nat) :
    NodeWork n m (Fin m × LinkEnd × LinkCall) := do
  let node ← Work.part
  match node.ports.links.get? remote with
  | none => Work.fail (.noLink node.name remote)
  | some (l, e) =>
    match role with
    | .create =>
      Work.setPart { node with ports := { node.ports with creates := node.ports.creates + 1 } }
      if node.ports.observed then Work.emit (.observed remote request)
      return (l, e, .create request (← Work.ofExcept (node.device.globalIndex position)))
    | .receive =>
      Work.setPart { node with ports := { node.ports with receives := node.ports.receives + 1 } }
      return (l, e, .receive (← Work.ofExcept (node.device.globalIndex position)))

/-- Gives up on the link to a remote node, if there is one. -/
def abortLink (remote : Int) : NodeWork n m Unit := do
  match (← Work.part).ports.links.get? remote with
  | some (l, e) => Work.emit (.abortLink l e)
  | none => return

/-- Submits a request to the pair service. -/
def submit (r : EntanglementRequest) : NodeWork n m Unit := do
  let node ← Work.part
  let s := node.service.addPending r.app
  match s.requests.countSent.arrive r with
  | (some p, c) =>
    Work.setPart { node with service := { s with requests := c } }
    Work.resume p (.request r)
  | (none, c) => Work.setPart { node with service := { s with requests := c } }

end Node

end QuantumNode
