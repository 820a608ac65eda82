import QuantumNode.Host.Basic
import QuantumNode.Message.Control

/-! The run of a program as one application of a node, step by step. -/
namespace QuantumNode

/-- Why a list of steps is being run. -/
inductive BlockKind where
  | once
  | repeated (left : Nat) (steps : List PlanStep)
  | guarded (as : String)

/-- Steps that are being run: those that are left. -/
structure Block where
  kind : BlockKind
  steps : List PlanStep

inductive SessionStage where
  | ready
  /-- A subroutine has been sent to the node; what it returns is collected if asked for. -/
  | replying (collect : Option Subroutine)
  | receiving (form : MessageForm) (peer as : String)
  | sleeping
  | raising (f : Fault)

structure Session where
  app : Int
  info : ProgramMeta
  /-- Socket id and node of each peer with which there is a pair socket. -/
  pairSockets : SortedMap String (Int × Int)
  assembler : Assembler
  /-- The memory that came back last. -/
  memory : MemorySnapshot
  flushes : Nat
  integers : SortedMap String Int
  futures : SortedMap String Future
  result : ProgramResult
  /-- Innermost block first. -/
  blocks : List Block
  stage : SessionStage

namespace Session

variable {n m : Nat}

/-- What a step of a session comes to. -/
abbrev Step (m : Nat) := Flow m Session ProgramResult

def new (app : Int) (p : Program) (pairSockets : SortedMap String (Int × Int)) : Session where
  app := app
  info := p.info
  pairSockets := pairSockets
  assembler := .new app p.info.maxQubits
  memory := .empty app
  flushes := 0
  integers := .empty
  futures := .empty
  result := .empty
  blocks := [⟨.once, p.steps⟩]
  stage := .ready

/-- A variable without a value counts as zero. -/
def value (s : Session) : Quantity → Int
  | .literal v => v
  | .variable name => (s.integers.get? name).getD 0

def count (s : Session) (q : Quantity) : Nat := Word.unsigned64 (s.value q)

def future (s : Session) (name : String) : Future := (s.futures.get? name).getD ⟨0, 0⟩

def setVariable (s : Session) (name : String) (v : Int) : Session :=
  { s with integers := s.integers.insert name v }

def setFuture (s : Session) (name : String) (f : Future) : Session :=
  { s with futures := s.futures.insert name f }

def setResult (s : Session) (name : String) (v : ProgramValue) : Session :=
  { s with result := s.result.insert name v }

/-- A number goes into the integers and into the result. -/
def setNumber (s : Session) (name : String) (v : Int) : Session :=
  (s.setVariable name v).setResult name (.integer v)

def options (s : Session) (o : PairQuantities) : PairOptions :=
  ⟨Word.signed32 (s.value o.minFidelity), s.count o.maxTime,
    .ofCode (s.value o.localBasis), .ofCode (s.value o.remoteBasis)⟩

def pairSocket (s : Session) (peer : String) : Except Fault (Int × Int) :=
  match s.pairSockets.get? peer with
  | some p => .ok p
  | none => .error (.noPairSocketTo peer)

/-! Assembling. -/

/-- Names the parts of kept pairs: qubits as integers, Bell index and sequence number as futures. -/
def nameKept (s : Session) (as : String) (k : KeptPairs) : Session :=
  k.qubits.zipIdx.foldl (fun s (v, i) =>
    ((s.setVariable s!"{as}.q{i}" v).setFuture s!"{as}.bell{i}" (k.bellIndex i)).setFuture
      s!"{as}.seq{i}" (k.sequence i)) s

def nameMeasured (s : Session) (as : String) (k : MeasuredPairs) : Session :=
  (List.range k.count).foldl (fun s i =>
    ((s.setFuture s!"{as}.out{i}" (k.outcome i)).setFuture s!"{as}.basis{i}" (k.basis i)).setFuture
      s!"{as}.bell{i}" (k.bellIndex i)) s

def keepPairs (s : Session) (role : PairRole) (peer : String) (count : Nat) (o : PairOptions)
    (as : String) : Except Fault Session := do
  let (socket, remote) ← s.pairSocket peer
  let (k, a) ← match role with
    | .create => s.assembler.createKeep remote socket count o
    | .receive => s.assembler.receiveKeep remote socket count
  return { s with assembler := a }.nameKept as k

def measurePairs (s : Session) (role : PairRole) (peer : String) (count : Nat) (o : PairOptions)
    (as : String) : Except Fault Session := do
  let (socket, remote) ← s.pairSocket peer
  let (k, a) := match role with
    | .create => s.assembler.createMeasure remote socket count o
    | .receive => s.assembler.receiveMeasure remote socket count
  return { s with assembler := a }.nameMeasured as k

/-- A step that only adds to what is being assembled, if it is one. -/
def assemble? (s : Session) : PlanStep → Option (Except Fault Session)
  | .alloc as => some do
    let (v, a) ← s.assembler.alloc
    return { s with assembler := a }.setVariable as v
  | .free q => emit (s.assembler.free (s.value q))
  | .init q => emit (s.assembler.init (s.value q))
  | .gate g q => emit (s.assembler.gate g (s.value q))
  | .rotate axis q k d => emit (s.assembler.rotate axis (s.value q) (s.value k) (s.value d))
  | .pairGate g c t => emit (s.assembler.pairGate g (s.value c) (s.value t))
  | .directed axis c t k d =>
    emit (s.assembler.directed axis (s.value c) (s.value t) (s.value k) (s.value d))
  | .measure q as =>
    let (f, a) := s.assembler.measure (s.value q)
    some (.ok ({ s with assembler := a }.setFuture as f))
  | .breakpoint action role => emit (s.assembler.breakpoint (s.value action) (s.value role))
  | .keepPairs role peer count o as => some (s.keepPairs role peer (s.count count) (s.options o) as)
  | .measurePairs role peer count o as => some (s.measurePairs role peer (s.count count) (s.options o) as)
  | _ => none
where
  emit (a : Assembler) : Option (Except Fault Session) := some (.ok { s with assembler := a })

/-! Subroutines. -/

/-- Sends a subroutine to the node, under the id of this application. -/
def submit (s : Session) (subroutine : Subroutine) (collect : Bool) : HostWork n m (Step m) := do
  Host.log .debug s!"flushing subroutine of {subroutine.size} instruction(s)"
  Host.tellNode (.subroutine { subroutine with appId := s.app }.text)
  return .go { s with stage := .replying (if collect then some subroutine else none) }

/-- A program with nothing assembled has nothing to run. -/
def flush (s : Session) : HostWork n m (Step m) :=
  if s.assembler.isEmpty then return .go s
  else
    let (subroutine, a) := s.assembler.take
    submit { s with assembler := a } subroutine false

def execute (s : Session) (text : String) : HostWork n m (Step m) :=
  match Subroutine.parse text with
  | .ok subroutine => submit s subroutine false
  | .error e => Work.fail (.undecodableMessage e.message)

def runScripted (s : Session) (index : Nat) (body : String) : HostWork n m (Step m) := do
  let h ← Work.part
  let node := fun word => (h.node? word).map Fin.val
  let text ← Work.ofExcept (Script.instantiate s.info.name s.app node body)
  match Subroutine.parse text with
  | .ok subroutine => submit s subroutine true
  | .error e => Work.fail (.scriptSubroutine index s.info.name e.message)

/-- The node has answered a subroutine. After an abort it holds no qubits for the application. -/
def takeReply (s : Session) (collect : Option Subroutine) (text : String) : HostWork n m (Step m) := do
  let s := { s with flushes := s.flushes + 1 }
  let raising := fun (s : Session) (f : Fault) => Flow.go { s with stage := .raising f }
  match NodeMessage.decode text with
  | .error e => return raising s (.badSubroutineReply e.message)
  | .ok (.appId _) => return raising s .unexpectedReply
  | .ok (.abort reason) =>
    Host.log .warning s!"subroutine aborted: {reason}"
    return raising { s with assembler := s.assembler.resetQubits } (.aborted reason)
  | .ok (.memory mem) =>
    let returned := match collect with
      | some subroutine => subroutine.returned mem
      | none => []
    let result := returned.foldl (fun r (name, v) => r.insert name (.integer v)) s.result
    return .go { s with memory := mem, result := result, stage := .ready }

/-! Reading what came back. -/

def readFuture (s : Session) (f : Future) : Except Fault Int := do
  match ← s.memory.arrayValue f.address f.index with
  | some v => .ok v
  | none => .error (.futureUnset f.address f.index)

def read (s : Session) (f : Future) (as : String) : Except Fault Session := do
  return s.setNumber as (← s.readFuture f)

def tryRead (s : Session) (f : Future) (as : String) : Except Fault Session := do
  let v ← s.memory.arrayValue f.address f.index
  return s.setResult as (.text ((v.map toString).getD "unset"))

def readRegister (s : Session) (r : Register) (as : String) : Session :=
  match s.memory.register? r with
  | some v => s.setNumber as v
  | none => s

/-- Numbers of programs are signed words, so a late time may be negative. -/
def fact (s : Session) (now : Nat) : SessionFact → Int
  | .time => Word.signed64 now
  | .app => s.app
  | .flushes => s.flushes
  | .qubitsInUse => s.assembler.qubitsInUse

/-! Talking to peers. -/

/-- The host behind a classical socket of the program. -/
def classicalPeer (s : Session) (peer : String) : HostWork n m (Fin n) := do
  match (← Work.part).peer? peer with
  | some target => if peer ∈ s.info.classicalPeers then return target else Work.fail (.noClassicalSocket peer)
  | none => Work.fail (.noClassicalSocket peer)

def send (s : Session) (peer text : String) : HostWork n m (Step m) := do
  let target ← s.classicalPeer peer
  Host.log .info s!"sending message '{text}' to {peer}"
  Work.emit (.send (.between (← Work.part).id target) text)
  return .go s

/-- Stores a message under the name `as`, read in the form that is expected. -/
def store (s : Session) (form : MessageForm) (as text : String) : Except Fault Session :=
  match form with
  | .text => .ok (s.setResult as (.text text))
  | .integer => do return s.setNumber as (← decodeInteger text)
  | .real => do return s.setResult as (.real (← decodeReal text))
  | .envelope => do
    let e ← Envelope.decode text
    return (s.setResult s!"{as}.header" (.text e.header)).setResult s!"{as}.payload" (.text e.payload)

def takeMessage (s : Session) (form : MessageForm) (peer as text : String) : HostWork n m (Step m) := do
  Host.log .info s!"received message '{text}' from {peer}"
  return .go (← Work.ofExcept ({ s with stage := .ready }.store form as text))

def receive (p : ProcessId) (s : Session) (form : MessageForm) (peer as : String) : HostWork n m (Step m) := do
  let source ← s.classicalPeer peer
  match ← Host.takeMessage p source with
  | some text => s.takeMessage form peer as text
  | none => return .rest { s with stage := .receiving form peer as }

/-! The course of a session. -/

def enter (s : Session) (kind : BlockKind) (steps : List PlanStep) : Session :=
  { s with blocks := ⟨kind, steps⟩ :: s.blocks }

/-- Enters a loop, unless there is nothing to be repeated. -/
def repeatSteps (s : Session) (times : Nat) (steps : List PlanStep) : Session :=
  match times with
  | 0 => s
  | k + 1 => s.enter (.repeated k steps) steps

/-- The end of a block, given the blocks around it. -/
def leave (s : Session) (kind : BlockKind) (outer : List Block) : Session :=
  let s := { s with blocks := outer }
  match kind with
  | .once => s
  | .repeated left steps => s.repeatSteps left steps
  | .guarded as => s.setResult as (.text "none")

/-- The name under which the innermost guarded block stores a fault, and the blocks around it. -/
def unwind : List Block → Option (String × List Block)
  | [] => none
  | ⟨.guarded as, _⟩ :: outer => some (as, outer)
  | _ :: outer => unwind outer

/-- A fault ends every block up to a guarded one; without one it ends the session. -/
def recover (s : Session) (f : Fault) : HostWork n m (Step m) :=
  match unwind s.blocks with
  | some (as, outer) => return .go ({ s with blocks := outer, stage := .ready }.setResult as (.text f.report))
  | none => Work.fail f

def perform (p : ProcessId) (s : Session) (step : PlanStep) : HostWork n m (Step m) := do
  match s.assemble? step with
  | some r => return .go (← Work.ofExcept r)
  | none =>
    match step with
    | .flush => s.flush
    | .execute text => s.execute text
    | .scripted index body => s.runScripted index body
    | .read f as => return .go (← Work.ofExcept (s.read (s.future f) as))
    | .readAt address index as => return .go (← Work.ofExcept (s.read ⟨s.value address, s.value index⟩ as))
    | .tryRead f as => return .go (← Work.ofExcept (s.tryRead (s.future f) as))
    | .readRegister r as => return .go (s.readRegister r as)
    | .send peer text => s.send peer text
    | .sendInteger peer v => s.send peer (toString (s.value v))
    | .sendReal peer x => s.send peer (realText x)
    | .sendEnvelope peer e => s.send peer e.encode
    | .receive form peer as => s.receive p form peer as
    | .note f as => return .go (s.setNumber as (s.fact (← Work.now) f))
    | .sleep delay =>
      Work.sleep p (s.count delay)
      return .rest { s with stage := .sleeping }
    | .ifEqual left right steps =>
      return .go (if s.value left = s.value right then s.enter .once steps else s)
    | .repeated times steps => return .go (s.repeatSteps (s.count times) steps)
    | .guarded as steps => return .go (s.enter (.guarded as) steps)
    | _ => return .go s

/-- The next step of the innermost block, or its end. -/
def proceed (p : ProcessId) (s : Session) : HostWork n m (Step m) := do
  match s.blocks with
  | [] => return .finished s.result
  | ⟨kind, []⟩ :: outer => return .go (s.leave kind outer)
  | ⟨kind, step :: steps⟩ :: outer =>
    let s := { s with blocks := ⟨kind, steps⟩ :: outer }
    match ← Work.attempt (s.perform p step) with
    | .ok next => return next
    | .error f => s.recover f

/-- A step of a session. -/
def step (p : ProcessId) (s : Session) (wake : Wake) : HostWork n m (Step m) := do
  match s.stage, wake with
  | .ready, _ => s.proceed p
  | .sleeping, _ => return .go { s with stage := .ready }
  | .raising f, _ => s.recover f
  | .replying collect, .text t => s.takeReply collect t
  | .replying collect, _ =>
    match ← Host.takeReply p with
    | some t => s.takeReply collect t
    | none => return .rest s
  | .receiving form peer as, .text t =>
    match ← Work.attempt (s.takeMessage form peer as t) with
    | .ok next => return next
    | .error f => s.recover f
  | .receiving .., _ => return .rest s

end Session

end QuantumNode
