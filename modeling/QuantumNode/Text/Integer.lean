import QuantumNode.Text.Basic
import QuantumNode.Number.Word

/-! Reading integers of 64 and 32 bits. The strict readers take a whole text; the lenient ones skip blanks,
take a sign of either kind and hand back what follows the digits. No reader ever wraps a value around,
except that a lenient unsigned number with a minus sign stands for its negative modulo 2^64. -/
namespace QuantumNode.Text

/-- Value of a run of decimal digits. -/
def natOfDigits (ds : List Char) : Nat := Nat.ofDigitChars 10 ds 0

/-- A non-empty text of digits only. -/
def allDigits (cs : List Char) : Bool := !cs.isEmpty && cs.all Char.isDigit

def signed (negative : Bool) (magnitude : Nat) : Int := if negative then -magnitude else magnitude

/-- A whole text: an optional minus sign, then digits, within 64 signed bits. -/
def int64? (cs : List Char) : Option Int :=
  let negative := cs.head? == some '-'
  let ds := if negative then cs.drop 1 else cs
  let v := signed negative (natOfDigits ds)
  if allDigits ds && Word.fitsSigned64 v then some v else none

/-- A whole text of digits, below 2^64. -/
def nat64? (cs : List Char) : Option Nat :=
  if allDigits cs && natOfDigits cs < Word.size64 then some (natOfDigits cs) else none

/-- Sign, digits and rest of a number that may follow blanks. -/
structure Numeral where
  negative : Bool
  magnitude : Nat
  rest : List Char

def numeral? (cs : List Char) : Option Numeral :=
  let cs := cs.dropWhile isBlank
  let negative := cs.head? == some '-'
  let ds := if negative || cs.head? == some '+' then cs.drop 1 else cs
  if (ds.takeWhile Char.isDigit).isEmpty then none
  else some ⟨negative, natOfDigits (ds.takeWhile Char.isDigit), ds.dropWhile Char.isDigit⟩

/-- A number at the front, within 64 signed bits, and the rest. -/
def leadingInt64? (cs : List Char) : Option (Int × List Char) := do
  let n ← numeral? cs
  let v := signed n.negative n.magnitude
  if Word.fitsSigned64 v then some (v, n.rest) else none

/-- A number at the front, within 32 signed bits, and the rest. -/
def leadingInt32? (cs : List Char) : Option (Int × List Char) := do
  let n ← numeral? cs
  let v := signed n.negative n.magnitude
  if Word.fitsSigned32 v then some (v, n.rest) else none

/-- A number at the front whose magnitude is below 2^64; a minus sign negates it modulo 2^64. -/
def leadingNat64? (cs : List Char) : Option (Nat × List Char) := do
  let n ← numeral? cs
  if n.magnitude < Word.size64 then
    some (if n.negative then (Word.size64 - n.magnitude) % Word.size64 else n.magnitude, n.rest)
  else none

end QuantumNode.Text
