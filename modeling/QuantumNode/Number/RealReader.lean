import QuantumNode.Number.Binary64
import QuantumNode.Text.Integer

/-! Reading real numbers: decimal and hexadecimal notation with an exponent, `inf`, `infinity` and `nan` in any
case. The value is the nearest double; what the notation does not use is handed back. -/
namespace QuantumNode.Number

open QuantumNode.Text

/-- A number at the front of a text, and the rest. -/
structure RealReading where
  number : Binary64
  outOfRange : Bool
  rest : List Char

namespace RealReading

/-- Drops a word from the front, whatever its case. -/
def dropWord? (word cs : List Char) : Option (List Char) :=
  if lower (cs.take word.length) = word then some (cs.drop word.length) else none

def isHexDigit (c : Char) : Bool := c.isDigit || ('a' ≤ lowerChar c && lowerChar c ≤ 'f')

def hexValue (c : Char) : Nat := if c.isDigit then c.toNat - 48 else (lowerChar c).toNat - 87

/-- Digits, then perhaps a point and more digits: all digits, the count of those after the point, the rest. -/
structure Digits where
  all : List Char
  places : Nat
  rest : List Char

def Digits.scan (isDigit : Char → Bool) (cs : List Char) : Digits :=
  let whole := cs.takeWhile isDigit
  match cs.dropWhile isDigit with
  | '.' :: r => ⟨whole ++ r.takeWhile isDigit, (r.takeWhile isDigit).length, r.dropWhile isDigit⟩
  | r => ⟨whole, 0, r⟩

/-- An exponent after its mark, zero when the mark or its digits are missing. -/
def scanExponent (mark : Char) (cs : List Char) : Int × List Char :=
  match cs with
  | c :: r =>
    if lowerChar c = mark then
      let negative := r.head? == some '-'
      let ds := if negative || r.head? == some '+' then r.drop 1 else r
      if (ds.takeWhile Char.isDigit).isEmpty then (0, cs)
      else (signed negative (natOfDigits (ds.takeWhile Char.isDigit)), ds.dropWhile Char.isDigit)
    else (0, cs)
  | [] => (0, cs)

/-- The double nearest to `m * 10^e`; magnitudes far outside the doubles are settled by size alone. -/
def ofDecimal (m : Nat) (e : Int) : Rounded :=
  let size : Int := (Nat.toDigits 10 m).length + e
  if m = 0 then .zero
  else if 400 < size then .overflow
  else if size < -400 then .vanished
  else
    let (n, d) := scaled 10 m 1 e
    .ofQuotient n d

/-- The double nearest to `m * 2^e`. -/
def ofBinary (m : Nat) (e : Int) : Rounded :=
  let size : Int := m.log2 + e
  if m = 0 then .zero
  else if 1200 < size then .overflow
  else if size < -1200 then .vanished
  else
    let (n, d) := scaled 2 m 1 e
    .ofQuotient n d

private def decimal? (cs : List Char) : Option (Rounded × List Char) :=
  let ds := Digits.scan Char.isDigit cs
  if ds.all.isEmpty then none
  else
    let (e, rest) := scanExponent 'e' ds.rest
    some (ofDecimal (natOfDigits ds.all) (e - ds.places), rest)

private def hexadecimal? (cs : List Char) : Option (Rounded × List Char) := do
  let body ← dropWord? ['0', 'x'] cs
  let ds := Digits.scan isHexDigit body
  if ds.all.isEmpty then none
  else
    let (e, rest) := scanExponent 'p' ds.rest
    some (ofBinary (ds.all.foldl (fun v c => 16 * v + hexValue c) 0) (e - 4 * ds.places), rest)

private def infinite? (cs : List Char) : Option (List Char) :=
  dropWord? ['i', 'n', 'f', 'i', 'n', 'i', 't', 'y'] cs <|> dropWord? ['i', 'n', 'f'] cs

/-- After `nan`, word characters in parentheses belong to the number. -/
private def nan? (cs : List Char) : Option (List Char) := do
  let rest ← dropWord? ['n', 'a', 'n'] cs
  match rest with
  | '(' :: r =>
    match r.dropWhile isWordChar with
    | ')' :: r' => some r'
    | _ => some rest
  | _ => some rest

/-- The longest number at the front of a text, after blanks. -/
def read? (cs : List Char) : Option RealReading :=
  let cs := cs.dropWhile isBlank
  let negative := cs.head? == some '-'
  let body := if negative || cs.head? == some '+' then cs.drop 1 else cs
  match hexadecimal? body <|> decimal? body with
  | some (r, rest) => some ⟨r.number negative, r.outOfRange, rest⟩
  | none =>
    match infinite? body with
    | some rest => some ⟨.infinite negative, false, rest⟩
    | none => (nan? body).map fun rest => ⟨.nan negative, false, rest⟩

end RealReading

end QuantumNode.Number
