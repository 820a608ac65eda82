import QuantumNode.Number.Word
import QuantumNode.Subroutine.Instruction

/-! Sums and differences in words of 64 bits. The routines leave open what becomes of a result that does not fit in its
word: the one that runs wraps around, and the one that checks has no such result. -/
namespace QuantumNode

/-- What becomes of results that are to be signed or unsigned words, and of divisors. -/
structure Words (m : Type → Type) where
  signed : Int → m Int
  unsigned : Int → m Int
  divisor : Int → m Unit

namespace Words

def wrapping : Words Id where
  signed v := Word.signed64 v
  unsigned v := (Word.unsigned64 v : Int)
  divisor _ := ()

def checked : Words Option where
  signed v := if Word.fitsSigned64 v then some v else none
  unsigned v := if 0 ≤ v ∧ v < Word.size64 then some v else none
  divisor d := if d = 0 then none else some ()

variable {m : Type → Type} [Monad m] (w : Words m)

/-- The remainder of a division that rounds towards zero, of which the quotient has to fit too. -/
def remainder (a d : Int) : m Int := do
  w.divisor d
  let _ ← w.signed (a.tdiv d)
  w.signed (a.tmod d)

/-- A remainder of a negative number is brought up to a residue. -/
def residue (a d : Int) : m Int := do
  let r ← w.remainder a d
  let lifted ← w.signed (r + if r < 0 then d else 0)
  w.unsigned lifted

/-- Both operands are reduced first, so that their sum is an unsigned word. -/
def modular (op : ArithmeticOp) (a b d : Int) : m Int := do
  let modulus ← w.unsigned d
  let x ← w.residue a d
  let y ← w.residue b d
  let total ← match op with
    | .add => w.unsigned (x + y)
    | .sub => do
      let opposite ← w.unsigned (modulus - y)
      w.unsigned (x + opposite)
  w.divisor modulus
  w.signed (total % modulus)

/-- Whether a result is beyond the words. The bound on the one operand is computed only on the side where the other one
leaves room for it. -/
def overflows (op : ArithmeticOp) (a b : Int) : m Bool :=
  match op with
  | .add =>
    if 0 < b then return (← w.signed (Word.greatest64 - b)) < a
    else if b < 0 then return a < (← w.signed (Word.least64 - b))
    else return false
  | .sub =>
    if b < 0 then return (← w.signed (Word.greatest64 + b)) < a
    else if 0 < b then return a < (← w.signed (Word.least64 + b))
    else return false

/-- The sum or difference, unless it is beyond the words. -/
def total (op : ArithmeticOp) (a b : Int) : m (Option Int) := do
  if ← w.overflows op a b then return none
  else return some (← w.signed (op.apply a b))

end Words

end QuantumNode
