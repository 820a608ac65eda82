import QuantumNode.Execution.Arithmetic
import QuantumNode.Execution.State
import QuantumNode.Node.Basic

/-! Executing subroutines on a node. A step fetches an instruction and does it; instructions that use the
device, and those that wait for pairs, go on in later steps. -/
namespace QuantumNode.Execution

open Node

variable {n m : Nat}

/-- What a step of an execution comes to. -/
abbrev Step (m : Nat) := Flow m Execution ExecutionStatus

private def log (level : LogLevel) (text : String) : NodeWork n m Unit := Node.log level "Processor" text

def resolve (app : Int) (v : Value) : NodeWork n m Int := do
  Work.ofExcept ((← memory app).resolve v)

def resolveRegister (app : Int) (r : Register) : NodeWork n m Int := resolve app (.register r)

def setRegister (app : Int) (r : Register) (v : Option Int) : NodeWork n m Unit :=
  updateMemory app (·.setRegister r v)

/-- The physical position of the virtual qubit that a register names. -/
def position (app : Int) (r : Register) : NodeWork n m Nat := do
  let virt ← resolveRegister app r
  match ← Work.ofExcept ((← memory app).physicalFor virt) with
  | some phys => return phys
  | none =>
    log .error s!"virtual qubit {virt} of app {app} is not allocated"
    Work.fail (.qubitUnallocated virt)

def unsupported (i : Instruction) : NodeWork n m (Step m) := do
  log .error s!"instruction '{i.text}' is not supported on this device"
  Work.fail (.unsupported i.opcode (← Work.part).name)

/-! Branches. -/

/-- The target of a branch that is taken. -/
def branchTarget? (app : Int) : Instruction → NodeWork n m (Option Int)
  | .jump target => return some target
  | .branchZero zero test target => do
    let v ← resolveRegister app test
    return if decide (v = 0) = zero then some target else none
  | .branch test left right target => do
    let a ← resolve app left
    let b ← resolve app right
    return if test.holds a b then some target else none
  | _ => return none

/-- Goes to a line, or past the last one. -/
def goTo (app : Int) (size : Nat) (target : Int) : NodeWork n m Unit := do
  if target < 0 ∨ (size : Int) < target then
    log .error s!"branch target {target} outside subroutine of {size} instruction(s)"
    Work.fail (.branchOutOfRange target)
  else
    log .debug s!"branching to line {target}"
    updateMemory app fun mem => .ok { mem with pc := target.toNat }

def advance (app : Int) : NodeWork n m Unit := updateMemory app fun mem => .ok mem.incrementPc

def branch (app : Int) (size : Nat) (i : Instruction) : NodeWork n m Unit := do
  match ← branchTarget? app i with
  | some target => goTo app size target
  | none => advance app

/-! Arithmetic. -/

/-- The modulus is looked at before the operands. -/
def modular (app : Int) (i : Instruction) (op : ArithmeticOp) (left right modulus : Value) :
    NodeWork n m Int := do
  let md ← resolve app modulus
  if md < 1 then
    log .error s!"modulus {md} in '{i.text}'"
    Work.fail (.modulusTooSmall md)
  else
    let a ← resolve app left
    let b ← resolve app right
    return (Words.wrapping.modular op a b md).run

def arithmetic (app : Int) (i : Instruction) (op : ArithmeticOp) (left right : Value) : NodeWork n m Int := do
  let a ← resolve app left
  let b ← resolve app right
  match (Words.wrapping.total op a b).run with
  | some r => return r
  | none =>
    log .error s!"64-bit overflow in '{i.text}'"
    Work.fail (.overflow i)

/-! Qubits. -/

def allocateFor (app virt : Int) : NodeWork n m Nat := do
  match ← Work.attempt allocate with
  | .ok phys => return phys
  | .error f =>
    log .error s!"no physical qubit left for virtual qubit {virt} of app {app}"
    Work.fail f

/-- A slot that cannot be mapped is returned at once. -/
def qalloc (app : Int) (r : Register) : NodeWork n m Unit := do
  let virt ← resolveRegister app r
  let phys ← allocateFor app virt
  match ← Work.attempt (mapQubit app virt phys) with
  | .ok _ => log .debug s!"allocated physical qubit {phys} for virtual qubit {virt}"
  | .error f =>
    releaseSlot phys
    Work.fail f

def qfree (app : Int) (r : Register) : NodeWork n m Unit := do
  let virt ← resolveRegister app r
  let phys ← position app r
  updateMemory app (·.unmapQubit virt)
  freeQubit phys

/-! Entanglement requests. -/

/-- Node and socket ids are kept in 32 bits. -/
def requestPairs (r : EntanglementRequest) : NodeWork n m Unit := do
  log .debug (s!"{r.role.name} EPR with node {r.remote} on socket {r.socket}, results to @{r.resultArray}")
  submit r

def createPairs (app : Int) (remote socket qubits arguments results : Value) : NodeWork n m Unit := do
  let remote ← resolve app remote
  let socket ← resolve app socket
  let qubits ← resolve app qubits
  let arguments ← resolve app arguments
  let results ← resolve app results
  requestPairs ⟨.create, app, Word.signed32 remote, Word.signed32 socket, qubits, arguments, results⟩

def receivePairs (app : Int) (remote socket qubits results : Value) : NodeWork n m Unit := do
  let remote ← resolve app remote
  let socket ← resolve app socket
  let qubits ← resolve app qubits
  let results ← resolve app results
  requestPairs ⟨.receive, app, Word.signed32 remote, Word.signed32 socket, qubits, -1, results⟩

/-! Breakpoints. -/

def logProbabilities : NodeWork n m Unit := do
  let w ← get
  let node := w.part
  ((List.range node.pool.size).filter node.pool.isAllocated).forM fun p => do
    let probability := w.quantum.probabilityOne (← Work.ofExcept (node.device.globalIndex p))
    log .info s!"physical qubit {p}: P(1) = {Number.shortText probability}"

def breakpoint (app action role : Int) : NodeWork n m Unit := do
  match action with
  | 0 => log .info "BREAKPOINT: no action taken"
  | 1 =>
    log .info (s!"BREAKPOINT: dumping local state of app {app}:\n" ++ (← memory app).snapshot.text)
    logProbabilities
  | 2 => log .warning s!"BREAKPOINT: global state dump is not supported, role {role}"
  | _ =>
    log .error s!"unknown breakpoint action {action}"
    Work.fail (.unknownBreakpoint action)

/-! Waiting for pairs. -/

/-- The pair service has no more to say about the requests of an application that was aborted. -/
def abandoned (service : PairService n ProcessId) (app : Int) : Bool :=
  service.isAborted app && service.pendingRequests app = 0

def waitForWrite (p : ProcessId) : NodeWork n m Unit :=
  Work.modifyPart fun node => { node with arrayWritten := node.arrayWritten.wait p }

/-- Looks at a range that is waited for: the subroutine is aborted after a failure, goes on when every entry is
set or no more will be, and waits otherwise. -/
def checkRange (p : ProcessId) (e : Execution) (a : AwaitedRange) : NodeWork n m (Step m) := do
  let (failed, service) := (← Work.part).service.takeFailure e.app
  modifyService fun _ => service
  if failed then
    let pc := (← memory e.app).pc
    log .warning s!"entanglement request of app {e.app} failed, aborting subroutine at line {pc}"
    return .finished .aborted
  else
    let values ← Work.ofExcept ((← memory e.app).arrayValues a.address a.start a.stop)
    if values.all Option.isSome then
      advance e.app
      return .go { e with stage := .fetch }
    else if abandoned service e.app then
      log .info s!"requests of app {e.app} were aborted, continuing with partial results"
      advance e.app
      return .go { e with stage := .fetch }
    else
      waitForWrite p
      return .rest { e with stage := .waiting a }

def waitAll (p : ProcessId) (e : Execution) (s : ArraySlice) : NodeWork n m (Step m) := do
  let start ← resolve e.app s.start
  let stop ← resolve e.app s.stop
  log .debug s!"waiting for @{s.address}[{start}:{stop}] of app {e.app}"
  checkRange p e ⟨s.address, start, stop⟩

/-! Instructions. -/

/-- Instructions that take no time and are followed by the next one. -/
def classical (app : Int) (i : Instruction) : NodeWork n m Unit :=
  match i with
  | .set dest v => setRegister app dest (some v)
  | .qalloc q => qalloc app q
  | .qfree q => qfree app q
  | .store r entry => updateMemory app fun mem => do mem.setEntry entry (← mem.register r)
  | .load dest entry => updateMemory app fun mem => do mem.setRegister dest (← mem.entryValue entry)
  | .undef entry => updateMemory app (·.setEntry entry none)
  | .lea dest a => setRegister app dest (some a)
  | .array length a => do
    let length ← resolve app length
    if length < 0 then Work.fail (.negativeLength length a)
    else
      log .debug s!"initializing array @{a} of length {length}"
      updateMemory app fun mem => .ok (mem.initArray a length.toNat)
  | .arithmetic op dest left right => do
    setRegister app dest (some (← arithmetic app i op left right))
  | .modular op dest left right modulus => do
    setRegister app dest (some (← modular app i op left right modulus))
  | .createPairs remote socket qubits arguments results =>
    createPairs app remote socket qubits arguments results
  | .receivePairs remote socket qubits results => receivePairs app remote socket qubits results
  | .breakpoint action role => breakpoint app action role
  | _ => return

/-- Begins a call of the device; the subroutine goes on when it is done. -/
def operate (p : ProcessId) (e : Execution) (c : DeviceCall) : NodeWork n m (Step m) := do
  startCall p c
  return .rest { e with stage := .operating c }

/-- Begins a readout: a qubit that is not at the electron is brought there. -/
def beginReadout (e : Execution) (virt : Int) (dest : Register) : NodeWork n m (Step m) := do
  match ← Work.ofExcept ((← memory e.app).physicalFor virt) with
  | none => Work.fail (.qubitUnallocated virt)
  | some target =>
    let steps := relocationPlan target ((← Work.part).pool.isAllocated 0)
    return .go { e with stage := .relocating ⟨virt, dest, target, 0⟩ steps }

/-- Instructions that use the device. A generic device has every gate and measures in place; an NV device has
rotations, and reads out at the electron. -/
def quantum (p : ProcessId) (e : Execution) (i : Instruction) : NodeWork n m (Step m) := do
  let isNV := (← Work.part).device.config.isNV
  match i with
  | .init q => operate p e (.init (← position e.app q))
  | .gate g q =>
    if isNV then unsupported i
    else operate p e ⟨g.operation, [← position e.app q], 0.0⟩
  | .rotate axis q k d =>
    operate p e ⟨axis.operation, [← position e.app q], angleOfFraction k d⟩
  | .pairGate g control target =>
    if isNV then unsupported i
    else
      let a ← position e.app control
      let b ← position e.app target
      operate p e ⟨g.operation, [a, b], 0.0⟩
  | .directed axis control target k d =>
    if isNV then
      let a ← position e.app control
      let b ← position e.app target
      operate p e ⟨axis.operation, [a, b], angleOfFraction k d⟩
    else unsupported i
  | .measure q dest =>
    if isNV then beginReadout e (← resolveRegister e.app q) dest
    else
      let c := DeviceCall.measure (← position e.app q)
      startCall p c
      return .rest { e with stage := .reading c dest }
  | _ => unsupported i

def perform (p : ProcessId) (e : Execution) (i : Instruction) : NodeWork n m (Step m) := do
  match i with
  | .jump .. | .branchZero .. | .branch .. =>
    branch e.app e.subroutine.size i
    return .go { e with stage := .fetch }
  | .waitAll s => waitAll p e s
  | .init .. | .gate .. | .rotate .. | .pairGate .. | .directed .. | .measure .. => quantum p e i
  | _ =>
    classical e.app i
    advance e.app
    return .go { e with stage := .fetch }

def fetch (p : ProcessId) (e : Execution) : NodeWork n m (Step m) := do
  let pc := (← memory e.app).pc
  match e.subroutine.instructions[pc]? with
  | none => return .finished .ok
  | some i =>
    log .debug s!"app {e.app} line {pc}: {i.text}"
    Work.modifyPart fun node => { node with executed := node.executed + 1 }
    perform p e i

/-! Readout on an NV device. -/

/-- Begins a move, given by its calls. -/
def beginMove (p : ProcessId) (e : Execution) (r : Readout) (owner : Option (Int × Int))
    (steps : List RelocationStep) (calls : List DeviceCall) : NodeWork n m (Step m) := do
  match calls with
  | [] => return .go { e with stage := .relocating r steps }
  | c :: calls =>
    startCall p c
    return .rest { e with stage := .moving r owner c calls steps }

/-- The virtual id moves to the electron. -/
def claimElectron (app virt : Int) : NodeWork n m Unit := do
  updateMemory app (·.unmapQubit virt)
  mapQubit app virt 0

def allocateSpare (r : Readout) : NodeWork n m Nat := do
  match ← Work.attempt allocate with
  | .ok spare => return spare
  | .error f =>
    log .error (s!"measuring virtual qubit {r.virt} on carbon {r.target}"
      ++ " requires the electron, which is in use, and no carbon is free to park it")
    Work.fail f

/-- An electron that holds no application's qubit cannot be parked. -/
def electronOwner (r : Readout) : NodeWork n m (Int × Int) := do
  match (← Work.part).owner? 0 with
  | some owner => return owner
  | none =>
    releaseSlot r.spare
    log .error "electron is allocated but holds no application qubit"
    Work.fail .electronBusy

/-- The qubit that was at the electron is now at the spare carbon, and the electron is the measured qubit's. -/
def exchangeOwners (e : Execution) (r : Readout) (owner : Int × Int) : NodeWork n m Unit := do
  log .warning s!"moving virtual qubit {owner.2} of app {owner.1} from physical qubit 0 to {r.spare}"
  updateMemory owner.1 (·.unmapQubit owner.2)
  mapQubit owner.1 owner.2 r.spare
  claimElectron e.app r.virt
  Work.modifyPart fun node => { node with relocations := node.relocations + 1 }

def relocate (p : ProcessId) (e : Execution) (r : Readout) (step : RelocationStep)
    (steps : List RelocationStep) : NodeWork n m (Step m) := do
  log .debug s!"measure of virtual qubit {r.virt}: {step.name}"
  let next := fun (r : Readout) => Flow.go { e with stage := .relocating r steps }
  match step with
  | .allocateElectron =>
    let _ ← allocateCommunication
    claimElectron e.app r.virt
    return next r
  | .allocateFreeCarbon => return next { r with spare := ← allocateSpare r }
  | .moveElectronToCarbon =>
    let owner ← electronOwner r
    beginMove p e r (some owner) steps ((Relocation.toCarbon r.spare).map moveCall)
  | .moveCarbonToElectron => beginMove p e r none steps ((Relocation.toElectron r.target).map moveCall)
  | .freeCarbon =>
    freeQubit r.target
    return next r
  | .measureElectron =>
    let c := DeviceCall.measure 0
    startCall p c
    return .rest { e with stage := .reading c r.dest }

/-- A step of an execution. -/
def step (p : ProcessId) (e : Execution) : NodeWork n m (Step m) := do
  match e.stage with
  | .start =>
    updateMemory e.app fun mem => .ok { mem with pc := 0 }
    log .debug s!"executing subroutine of {e.subroutine.size} instruction(s) for app {e.app}"
    return .go { e with stage := .fetch }
  | .fetch => fetch p e
  | .operating c =>
    let _ ← finishCall c
    advance e.app
    return .go { e with stage := .fetch }
  | .reading c dest =>
    let outcome ← finishCall c
    setRegister e.app dest (outcome.map Int.ofNat)
    advance e.app
    return .go { e with stage := .fetch }
  | .relocating _ [] => return .go { e with stage := .fetch }
  | .relocating r (s :: steps) => relocate p e r s steps
  | .moving r owner c [] steps =>
    let _ ← finishCall c
    owner.forM (exchangeOwners e r)
    return .go { e with stage := .relocating r steps }
  | .moving r owner c calls steps =>
    let _ ← finishCall c
    beginMove p e r owner steps calls
  | .waiting a =>
    log .debug "netstack wrote something"
    checkRange p e a

end QuantumNode.Execution
