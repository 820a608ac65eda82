import QuantumNode.Number.Word

/-! Requests for entangled pairs and what links answer to them. Kinds of pairs and bases have codes of 32 bits;
a code that names none is passed on as it stands (`PairKind.code_ofCode`, `Basis.code_ofCode`). -/
namespace QuantumNode

/-- What becomes of a pair: both halves are kept, both are measured at once, or the remote half is prepared in
a state. Nothing is done to a pair of another kind. -/
inductive PairKind where
  | keep | measure | prepare
  | other (code : Int)
  deriving DecidableEq, Repr

namespace PairKind

def code : PairKind → Int
  | keep => 0
  | measure => 1
  | prepare => 2
  | other c => c

def ofCode (v : Int) : PairKind :=
  match Word.signed32 v with
  | 0 => keep
  | 1 => measure
  | 2 => prepare
  | c => other c

theorem code_ofCode (v : Int) : (ofCode v).code = Word.signed32 v := by
  unfold ofCode
  split <;> simp_all [code]

end PairKind

/-- A basis to measure in. A qubit is measured as it is where the basis is none of the three. -/
inductive Basis where
  | z | x | y
  | other (code : Int)
  deriving DecidableEq, Repr

namespace Basis

def code : Basis → Int
  | z => 0
  | x => 1
  | y => 2
  | other c => c

def ofCode (v : Int) : Basis :=
  match Word.signed32 v with
  | 0 => z
  | 1 => x
  | 2 => y
  | c => other c

theorem code_ofCode (v : Int) : (ofCode v).code = Word.signed32 v := by
  unfold ofCode
  split <;> simp_all [code]

end Basis

/-- A request for one pair, made by the creating side. -/
structure PairRequest where
  kind : PairKind
  /-- In thousandths; zero or less asks for nothing. -/
  minFidelity : Int
  localBasis : Basis
  remoteBasis : Basis
  /-- Zero allows any time. -/
  maxTime : Nat
  deriving DecidableEq, Repr

def PairRequest.standard : PairRequest := ⟨.keep, 0, .z, .z, 0⟩

/-- Why a request got no pair. -/
inductive LinkRefusal where
  | aborted | timeout | rejected
  deriving DecidableEq, Repr

def LinkRefusal.name : LinkRefusal → String
  | aborted => "aborted"
  | timeout => "timeout"
  | rejected => "rejected"

/-- The outcome of measuring one half of a pair. -/
structure PairReading where
  outcome : Nat
  basis : Basis
  deriving DecidableEq, Repr

/-- A generated pair as one end sees it. -/
structure Pair where
  kind : PairKind
  createId : Nat
  sequence : Nat
  /-- Which Bell state it is: bit 0 for a flip, bit 1 for a phase. -/
  bellIndex : Nat
  duration : Nat
  /-- Fidelity in thousandths. -/
  goodness : Int
  reading : Option PairReading
  deriving DecidableEq, Repr

inductive LinkAnswer where
  | refused (cause : LinkRefusal) (kind : PairKind)
  | pair (p : Pair)
  deriving DecidableEq, Repr

/-- The two sides of a request. -/
inductive PairRole where
  | create | receive
  deriving DecidableEq, Repr

def PairRole.name : PairRole → String
  | create => "create"
  | receive => "receive"

/-- An entanglement request of a subroutine. The addresses are those of arrays of its application; only a
create has arguments. -/
structure EntanglementRequest where
  role : PairRole
  app : Int
  remote : Int
  socket : Int
  qubitArray : Int
  argumentArray : Int
  resultArray : Int
  deriving DecidableEq, Repr

/-- Length of an array of request arguments, and of a pair's row of results. -/
def rowLength : Nat := 10

/-- What the pair services of two nodes say to each other. A cancel stands in for the descriptor of an aborted
create, or for the acknowledgement of an aborted receive. -/
inductive PeerMessage where
  | descriptor (socket count : Int) (request : PairRequest)
  | cancel (socket : Int)
  | acknowledge (socket : Int)
  deriving DecidableEq, Repr

end QuantumNode
