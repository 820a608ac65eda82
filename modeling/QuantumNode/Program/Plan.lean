import QuantumNode.Memory.Snapshot
import QuantumNode.Message.Envelope
import QuantumNode.Program.Assembler
import QuantumNode.Program.Results
import QuantumNode.Program.Script

/-! Programs as lists of steps. A step assembles instructions, runs what has been assembled, reads what came back,
or talks to programs on other hosts. -/
namespace QuantumNode

/-- A number that is given, or the value of a variable. -/
inductive Quantity where
  | literal (v : Int)
  | variable (name : String)
  deriving DecidableEq, Repr

structure PairQuantities where
  minFidelity : Quantity
  maxTime : Quantity
  localBasis : Quantity
  remoteBasis : Quantity
  deriving DecidableEq, Repr

/-- What a program may ask about its own run. -/
inductive SessionFact where
  | time
  | app
  /-- How many subroutines have come back. -/
  | flushes
  | qubitsInUse
  deriving DecidableEq, Repr

/-- How a message of a peer is read. -/
inductive MessageForm where
  | text | integer | real | envelope
  deriving DecidableEq, Repr

/-- A step of a program. Its results are stored under the name `as`. -/
inductive PlanStep where
  | alloc (as : String)
  | free (q : Quantity)
  | init (q : Quantity)
  | gate (g : SingleGate) (q : Quantity)
  | rotate (axis : Axis) (q n d : Quantity)
  | pairGate (g : PairGate) (control target : Quantity)
  | directed (axis : DirectedAxis) (control target n d : Quantity)
  | measure (q : Quantity) (as : String)
  | breakpoint (action role : Quantity)
  | keepPairs (role : PairRole) (peer : String) (count : Quantity) (options : PairQuantities) (as : String)
  | measurePairs (role : PairRole) (peer : String) (count : Quantity) (options : PairQuantities) (as : String)
  /-- Runs what has been assembled. -/
  | flush
  | execute (text : String)
  | read (future as : String)
  | readAt (address index : Quantity) (as : String)
  | tryRead (future as : String)
  | readRegister (r : Register) (as : String)
  | send (peer text : String)
  | sendInteger (peer : String) (v : Quantity)
  | sendReal (peer : String) (x : Number.Binary64)
  | sendEnvelope (peer : String) (e : Envelope)
  | receive (form : MessageForm) (peer as : String)
  | note (fact : SessionFact) (as : String)
  | sleep (delay : Quantity)
  | ifEqual (left right : Quantity) (steps : List PlanStep)
  | repeated (times : Quantity) (steps : List PlanStep)
  /-- Recovers from a fault in the steps. -/
  | guarded (as : String) (steps : List PlanStep)
  /-- Instantiates and runs a subroutine of a script, and stores what it returns. -/
  | scripted (index : Nat) (body : String)

structure Program where
  info : ProgramMeta
  steps : List PlanStep

/-- A script as a program. -/
def Script.program (s : Script) : Program :=
  ⟨s.info, s.subroutines.zipIdx.map fun (body, i) => .scripted i body⟩

/-- The values that a subroutine returns: registers that have one, and the set entries of arrays. -/
def Subroutine.returned (s : Subroutine) (mem : MemorySnapshot) : List (String × Int) :=
  s.instructions.flatMap fun
    | .retReg r => ((mem.register? r).map fun v => (r.text, v)).toList
    | .retArr a =>
      ((mem.arrays.get? a).getD #[]).toList.zipIdx.filterMap fun (v, i) => v.map fun v => (s!"@{a}[{i}]", v)
    | _ => []

end QuantumNode
