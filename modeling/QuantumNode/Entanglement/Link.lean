import QuantumNode.Config.Basic
import QuantumNode.Entanglement.Basic
import QuantumNode.Number.RealText
import QuantumNode.Quantum.State

/-! An entangling link between two nodes. It matches a create of one end with a receive of the other, makes a
pair after some time, and answers both. What it brings about outside of itself is a list of effects, in order. -/
namespace QuantumNode

inductive LinkEnd where
  | left | right
  deriving DecidableEq, Repr

def LinkEnd.opposite : LinkEnd → LinkEnd
  | left => right
  | right => left

/-- What an end asks for, and the qubit that is to hold its half. -/
structure LinkCall where
  role : PairRole
  request : PairRequest
  qubit : Nat
  deriving DecidableEq, Repr

namespace LinkCall

def create (request : PairRequest) (qubit : Nat) : LinkCall := ⟨.create, request, qubit⟩

def receive (qubit : Nat) : LinkCall := ⟨.receive, .standard, qubit⟩

end LinkCall

structure LinkSide where
  /-- The call that waits for an answer. -/
  waiting : Option LinkCall
  /-- The other end has given up on the call that is still to come. -/
  abortPending : Bool
  deriving DecidableEq, Repr

/-- Ends of the time of generation. A ticket that is no longer the latest belongs to a generation that was
given up. -/
inductive LinkEvent where
  | complete (ticket : Nat)
  | timeout (ticket : Nat)
  deriving DecidableEq, Repr

inductive LinkEffect where
  | answer (e : LinkEnd) (a : LinkAnswer)
  | schedule (delay : Nat) (e : LinkEvent)
  | log (level : LogLevel) (text : String)

structure Link where
  config : LinkConfig
  leftNode : Nat
  rightNode : Nat
  left : LinkSide
  right : LinkSide
  generating : Bool
  ticket : Nat
  generationTime : Nat
  /-- How many pairs have been made. -/
  generated : Nat

namespace Link

def new (config : LinkConfig) (leftNode rightNode : Nat) : Link :=
  ⟨config, leftNode, rightNode, ⟨none, false⟩, ⟨none, false⟩, false, 0, 0, 0⟩

def name (l : Link) : String := s!"MagicLink({l.config.stack1}-{l.config.stack2})"

/-- The end at a node. -/
def endAt? (l : Link) (node : Int) : Option LinkEnd :=
  if node = l.leftNode then some .left else if node = l.rightNode then some .right else none

def endAt (l : Link) (node : Int) : Except Fault LinkEnd :=
  match l.endAt? node with
  | some e => .ok e
  | none => .error (.notAnEnd node l.config.stack1 l.config.stack2)

def nodeAt (l : Link) : LinkEnd → Nat
  | .left => l.leftNode
  | .right => l.rightNode

def side (l : Link) : LinkEnd → LinkSide
  | .left => l.left
  | .right => l.right

def setSide (l : Link) (e : LinkEnd) (s : LinkSide) : Link :=
  match e with
  | .left => { l with left := s }
  | .right => { l with right := s }

/-- The call of an end has been answered. -/
def settle (l : Link) (e : LinkEnd) : Link := l.setSide e { l.side e with waiting := none }

/-- Answers an end if it waits. -/
def refuse (l : Link) (e : LinkEnd) (answer : LinkCall → LinkAnswer) : List LinkEffect × Link :=
  match (l.side e).waiting with
  | some c => ([.answer e (answer c)], l.settle e)
  | none => ([], l)

/-- Refuses whatever waits at either end. -/
def refuseBoth (l : Link) (cause : LinkRefusal) : List LinkEffect × Link :=
  let answer := fun (c : LinkCall) => LinkAnswer.refused cause c.request.kind
  let (first, l) := l.refuse .left answer
  let (second, l) := l.refuse .right answer
  (first ++ second, l)

/-- The two waiting calls with the creating one first, where exactly one of them creates. -/
def matched? (l : Link) : Option ((LinkEnd × LinkCall) × (LinkEnd × LinkCall)) :=
  match l.left.waiting, l.right.waiting with
  | some a, some b =>
    match a.role, b.role with
    | .create, .receive => some ((.left, a), (.right, b))
    | .receive, .create => some ((.right, b), (.left, a))
    | _, _ => none
  | _, _ => none

/-- Whether the fidelity of the link falls short of what is asked for, up to rounding. -/
def fidelityTooLow (l : Link) (r : PairRequest) : Bool :=
  0 < r.minFidelity && l.config.effectiveFidelity * 1000.0 + 1e-9 < Float.ofInt r.minFidelity

/-- The number of cycles until the first success. With a probability that vanishes beside one there is none,
which counts as 2^63 + 1 cycles. -/
def cyclesFrom (p u : Float) : Nat :=
  if 1.0 - p ≥ 1.0 then 0x8000000000000001
  else 1 + (Float.floor (Float.log (1.0 - u) / Float.log (1.0 - p))).toUInt64.toNat

/-- Draws the number of cycles; a link that always succeeds draws nothing. -/
def drawCycles (l : Link) (q : QuantumState) : Nat × QuantumState :=
  let p := l.config.effectiveProbSuccess
  if p < 1.0 then
    let (u, q) := q.uniform
    (cyclesFrom p u, q)
  else (1, q)

/-- Begins a generation that takes a number of cycles; one that would take too long ends in a timeout. -/
def generate (l : Link) (r : PairRequest) (cycles : Nat) : List LinkEffect × Link :=
  let time := nanoseconds (Float.ofNat cycles * l.config.effectiveCycleTime)
  let l := { l with generating := true, ticket := l.ticket + 1, generationTime := time }
  if 0 < r.maxTime ∧ r.maxTime < time then
    ([.log .info s!"generation would take {time} ns, more than the allowed {r.maxTime} ns",
      .schedule r.maxTime (.timeout l.ticket)], l)
  else
    ([.log .debug s!"generating pair in {cycles} cycle(s), {time} ns",
      .schedule time (.complete l.ticket)], l)

/-- Prepends an effect. -/
def saying (level : LogLevel) (text : String) (r : List LinkEffect × Link) : List LinkEffect × Link :=
  (.log level text :: r.1, r.2)

/-- Looks whether both ends wait, and begins a generation or refuses them. -/
def matchEnds (l : Link) (q : QuantumState) : (List LinkEffect × Link) × QuantumState :=
  match l.generating, l.left.waiting, l.right.waiting with
  | false, some a, some b =>
    if a.role = b.role then
      (saying .error s!"both ends issued a {a.role.name} request" (l.refuseBoth .rejected), q)
    else
      let r := if a.role = .create then a.request else b.request
      if l.fidelityTooLow r then
        let fidelity := Number.shortText l.config.effectiveFidelity
        (saying .info s!"rejecting request: minimum fidelity {r.minFidelity} above link fidelity {fidelity}"
          (l.refuseBoth .rejected), q)
      else
        let (cycles, q) := l.drawCycles q
        (l.generate r cycles, q)
  | _, _, _ => (([], l), q)

/-- What a call comes to at once. -/
inductive Reception where
  /-- The other end had given up; the call is answered and leaves nothing behind. -/
  | refused (a : LinkAnswer) (l : Link)
  | accepted (effects : List LinkEffect) (l : Link) (q : QuantumState)

/-- An end makes a call; it may have one at a time. -/
def request (l : Link) (e : LinkEnd) (c : LinkCall) (q : QuantumState) : Except Fault Reception :=
  let s := l.side e
  if s.waiting.isSome then .error (.requestPending (l.nodeAt e))
  else if s.abortPending then
    .ok (.refused (.refused .aborted c.request.kind) (l.setSide e { s with abortPending := false }))
  else
    let ((effects, l), q) := (l.setSide e { s with waiting := some c }).matchEnds q
    .ok (.accepted effects l q)

/-- The other end is answered if it waits. If it does not, and there was something to give up, its next call
will be. -/
def abortOther (l : Link) (o : LinkEnd) (inProgress : Bool) : List LinkEffect × Link :=
  match (l.side o).waiting with
  | some _ => l.refuse o fun _ => .refused .aborted .keep
  | none => if inProgress then ([], l.setSide o { l.side o with abortPending := true }) else ([], l)

/-- An end gives up: a generation under way is dropped, and both ends are answered. -/
def abort (l : Link) (e : LinkEnd) : List LinkEffect × Link :=
  let inProgress := (l.side e).waiting.isSome || l.generating
  let l := if l.generating then { l with generating := false, ticket := l.ticket + 1 } else l
  let node := l.nodeAt e
  let (own, l) := l.refuse e fun _ => .refused .aborted .keep
  let (other, l) := l.abortOther e.opposite inProgress
  (.log .info s!"abort requested by node {node}" :: own ++ other, l)

/-- Brings two qubits into a Bell state, with the noise of the link on the first. -/
def entangle (fidelity : Float) (bell a b : Nat) (q : QuantumState) : QuantumState :=
  let q := (((q.reset a).reset b).apply .h a).cnot a b
  let q := if bell.testBit 0 then q.apply .x a else q
  let q := if bell.testBit 1 then q.apply .z a else q
  q.werner a (QuantumState.clamp ((1.0 - fidelity) * 4.0 / 3.0))

def measureIn (b : Basis) (qubit : Nat) (q : QuantumState) : Nat × QuantumState :=
  match b with
  | .z | .other _ => q.measure qubit
  | .x => (q.apply .h qubit).measure qubit
  | .y => ((q.apply .sdg qubit).apply .h qubit).measure qubit

/-- Measures both halves, the creating side's first, where the request asks for it. -/
def readings (r : PairRequest) (a b : Nat) (q : QuantumState) :
    (Option PairReading × Option PairReading) × QuantumState :=
  if r.kind = .measure then
    let (x, q) := measureIn r.localBasis a q
    let (y, q) := measureIn r.remoteBasis b q
    ((some ⟨x, r.localBasis⟩, some ⟨y, r.remoteBasis⟩), q)
  else ((none, none), q)

/-- Makes the pair of two matched calls. -/
def deliver (l : Link) (creator receiver : LinkEnd × LinkCall) (q : QuantumState) :
    (List LinkEffect × Link) × QuantumState :=
  let fidelity := l.config.effectiveFidelity
  let request := creator.2.request
  let (bell, q) := q.below 4
  let q := entangle fidelity bell creator.2.qubit receiver.2.qubit q
  let ((own, other), q) := readings request creator.2.qubit receiver.2.qubit q
  let pair : Pair :=
    { kind := request.kind
      createId := l.generated
      sequence := l.generated
      bellIndex := bell
      duration := l.generationTime
      goodness := Number.roundToInt (fidelity * 1000.0)
      reading := own }
  let l := ({ l with generated := l.generated + 1 }.settle creator.1).settle receiver.1
  (([.log .info s!"delivered pair {pair.sequence} with Bell index {bell}",
    .answer creator.1 (.pair pair), .answer receiver.1 (.pair { pair with reading := other })], l), q)

/-- The time of a generation has passed. Nothing happens for one that was given up. -/
def fire (l : Link) (event : LinkEvent) (q : QuantumState) : (List LinkEffect × Link) × QuantumState :=
  match event with
  | .complete ticket =>
    if l.generating ∧ ticket = l.ticket then
      let l := { l with generating := false }
      match l.matched? with
      | some (creator, receiver) => l.deliver creator receiver q
      | none => (([], l), q)
    else (([], l), q)
  | .timeout ticket =>
    if l.generating ∧ ticket = l.ticket then ({ l with generating := false }.refuseBoth .timeout, q)
    else (([], l), q)

end Link

end QuantumNode
