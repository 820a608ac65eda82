import QuantumNode.Entanglement.Basic
import QuantumNode.Fault

/-! Assembling the next subroutine of an application from qubit operations and requests for pairs. Qubits are
named by virtual id; registers Q0, Q1, R0 and M0 are scratch. -/
namespace QuantumNode

/-- An array entry whose value is known once the subroutine has run. -/
structure Future where
  address : Int
  index : Int
  deriving DecidableEq, Repr

/-- Pairs that are kept: a virtual qubit for each, and the array of their results. -/
structure KeptPairs where
  qubits : List Int
  resultArray : Int
  deriving DecidableEq, Repr

namespace KeptPairs

def bellIndex (p : KeptPairs) (pair : Nat) : Future := ⟨p.resultArray, 10 * pair + 9⟩

def sequence (p : KeptPairs) (pair : Nat) : Future := ⟨p.resultArray, 10 * pair + 4⟩

end KeptPairs

/-- Pairs that are measured at once. -/
structure MeasuredPairs where
  count : Nat
  resultArray : Int
  deriving DecidableEq, Repr

namespace MeasuredPairs

def outcome (p : MeasuredPairs) (pair : Nat) : Future := ⟨p.resultArray, 10 * pair + 2⟩

def basis (p : MeasuredPairs) (pair : Nat) : Future := ⟨p.resultArray, 10 * pair + 3⟩

def bellIndex (p : MeasuredPairs) (pair : Nat) : Future := ⟨p.resultArray, 10 * pair + 9⟩

end MeasuredPairs

/-- What a creating side may ask of its pairs. -/
structure PairOptions where
  minFidelity : Int
  maxTime : Nat
  localBasis : Basis
  remoteBasis : Basis
  deriving DecidableEq, Repr

def PairOptions.standard : PairOptions := ⟨0, 0, .z, .z⟩

structure Assembler where
  appId : Int
  maxQubits : Nat
  /-- Virtual ids in use. -/
  used : List Int
  nextArray : Int
  instructions : List Instruction
  deriving DecidableEq, Repr

namespace Assembler

def new (appId : Int) (maxQubits : Nat) : Assembler := ⟨appId, maxQubits, [], 0, []⟩

/-- A length as a 64-bit immediate. -/
def word (n : Nat) : Int := Word.signed64 n

def q (i : Int) : Register := ⟨.Q, i⟩

def q0 : Register := q 0

def q1 : Register := q 1

def r0 : Register := ⟨.R, 0⟩

def m0 : Register := ⟨.M, 0⟩

def size (a : Assembler) : Nat := a.instructions.length

def isEmpty (a : Assembler) : Bool := a.instructions.isEmpty

def qubitsInUse (a : Assembler) : Nat := a.used.length

def emit (a : Assembler) (is : List Instruction) : Assembler :=
  { a with instructions := a.instructions ++ is }

def addUsed (a : Assembler) (vs : List Int) : Assembler := { a with used := vs ++ a.used }

/-- Virtual ids lie below the number of qubits as a signed word, so there are none if that is negative. -/
def idLimit (a : Assembler) : Nat :=
  let k := a.maxQubits % Word.size64
  if k < 0x8000000000000000 then k else 0

/-- The lowest `count` virtual ids that are not in use; fewer if there are not enough. -/
def unused (a : Assembler) (count : Nat) : List Int :=
  let bound := min a.idLimit (a.used.length + count)
  (((List.range bound).map Int.ofNat).filter (· ∉ a.used)).take count

/-- Takes the lowest unused virtual id. -/
def alloc (a : Assembler) : Except Fault (Int × Assembler) :=
  match a.unused 1 with
  | v :: _ => .ok (v, (a.addUsed [v]).emit [.set q0 v, .qalloc q0, .init q0])
  | [] => .error (.virtualExhausted a.maxQubits)

def free (a : Assembler) (v : Int) : Assembler :=
  { a with used := a.used.filter (· ≠ v) }.emit [.set q0 v, .qfree q0]

def init (a : Assembler) (v : Int) : Assembler := a.emit [.set q0 v, .init q0]

def gate (a : Assembler) (g : SingleGate) (v : Int) : Assembler := a.emit [.set q0 v, .gate g q0]

def rotate (a : Assembler) (axis : Axis) (v n d : Int) : Assembler := a.emit [.set q0 v, .rotate axis q0 n d]

def pairGate (a : Assembler) (g : PairGate) (control target : Int) : Assembler :=
  a.emit [.set q0 control, .set q1 target, .pairGate g q0 q1]

def directed (a : Assembler) (axis : DirectedAxis) (control target n d : Int) : Assembler :=
  a.emit [.set q0 control, .set q1 target, .directed axis q0 q1 n d]

/-- Declares an array at the next address. -/
def newArray (a : Assembler) (length : Nat) : Int × Assembler :=
  (a.nextArray,
    { a with nextArray := a.nextArray + 1 }.emit [.array (.literal (word length)) a.nextArray])

def storeLiteral (a : Assembler) (address index value : Int) : Assembler :=
  a.emit [.set r0 value, .store r0 ⟨address, .literal index⟩]

/-- Measures a qubit and frees it. -/
def measure (a : Assembler) (v : Int) : Future × Assembler :=
  let (address, a) := a.newArray 1
  let a := a.emit [.set q0 v, .measure q0 m0, .store m0 ⟨address, .literal 0⟩]
  (⟨address, 0⟩, a.free v)

/-- An array with the arguments of a create. -/
def arguments (a : Assembler) (kind : PairKind) (count : Nat) (o : PairOptions) : Int × Assembler :=
  let (address, a) := a.newArray rowLength
  let a := a.storeLiteral address 0 kind.code
  let a := a.storeLiteral address 1 (word count)
  let a := if 0 < o.minFidelity then a.storeLiteral address 2 o.minFidelity else a
  let a :=
    if kind = .measure then
      (a.storeLiteral address 3 o.localBasis.code).storeLiteral address 4 o.remoteBasis.code
    else a
  let a := if 0 < o.maxTime then a.storeLiteral address 9 (word o.maxTime) else a
  (address, a)

/-- Number of result entries for a number of pairs. -/
def resultLength (count : Nat) : Nat := rowLength * count % Word.size64

def wait (a : Assembler) (address : Int) (length : Nat) : Assembler :=
  a.emit [.waitAll ⟨address, .literal 0, .literal (word length)⟩]

/-- Reserves virtual qubits for kept pairs and stores their ids in an array. -/
def reserve (a : Assembler) (count : Nat) : Except Fault (List Int × Int × Assembler) :=
  let vs := a.unused count
  if vs.length < count then .error (.cannotHold count a.maxQubits)
  else
    let (address, a) := (a.addUsed vs).newArray count
    let a := vs.zipIdx.foldl (fun a p => a.storeLiteral address p.2 p.1) a
    .ok (vs, address, a)

def createKeep (a : Assembler) (remote socket : Int) (count : Nat) (o : PairOptions) :
    Except Fault (KeptPairs × Assembler) := do
  let (vs, qubits, a) ← a.reserve count
  let (args, a) := a.arguments .keep count o
  let (results, a) := a.newArray (resultLength count)
  let a := a.emit
    [.createPairs (.literal remote) (.literal socket) (.literal qubits) (.literal args) (.literal results)]
  return (⟨vs, results⟩, a.wait results (resultLength count))

def receiveKeep (a : Assembler) (remote socket : Int) (count : Nat) :
    Except Fault (KeptPairs × Assembler) := do
  let (vs, qubits, a) ← a.reserve count
  let (results, a) := a.newArray (resultLength count)
  let a := a.emit [.receivePairs (.literal remote) (.literal socket) (.literal qubits) (.literal results)]
  return (⟨vs, results⟩, a.wait results (resultLength count))

def createMeasure (a : Assembler) (remote socket : Int) (count : Nat) (o : PairOptions) :
    MeasuredPairs × Assembler :=
  let (args, a) := a.arguments .measure count o
  let (results, a) := a.newArray (resultLength count)
  let a := a.emit
    [.createPairs (.literal remote) (.literal socket) (.literal (-1)) (.literal args) (.literal results)]
  (⟨count, results⟩, a.wait results (resultLength count))

def receiveMeasure (a : Assembler) (remote socket : Int) (count : Nat) : MeasuredPairs × Assembler :=
  let (results, a) := a.newArray (resultLength count)
  let a := a.emit [.receivePairs (.literal remote) (.literal socket) (.literal (-1)) (.literal results)]
  (⟨count, results⟩, a.wait results (resultLength count))

def retReg (a : Assembler) (r : Register) : Assembler := a.emit [.retReg r]

def breakpoint (a : Assembler) (action role : Int) : Assembler := a.emit [.breakpoint action role]

/-- The assembled subroutine; the next one starts empty. -/
def take (a : Assembler) : Subroutine × Assembler :=
  (⟨a.appId, Subroutine.defaultVersion, a.instructions⟩, { a with instructions := [] })

/-- Forgets every virtual qubit. -/
def resetQubits (a : Assembler) : Assembler := { a with used := [] }

end Assembler

end QuantumNode
