import QuantumNode.Number.Binary64

/-! Writing doubles in decimal notation, by exact rounding of their value, a tie going to the even digit. -/
namespace QuantumNode.Number

namespace RealText

def digits (n : Nat) : List Char := Nat.toDigits 10 n

/-- At least `width` characters, zeros being put in front. -/
def padLeft (width : Nat) (cs : List Char) : List Char := List.replicate (width - cs.length) '0' ++ cs

def withSign (negative : Bool) (cs : List Char) : String :=
  String.ofList (if negative then '-' :: cs else cs)

/-- Drops zeros at the end of a fraction. -/
def dropZeros (cs : List Char) : List Char := (cs.reverse.dropWhile (· == '0')).reverse

/-- A point and a fraction, nothing for an empty fraction. -/
def fraction (cs : List Char) : List Char := if cs.isEmpty then [] else '.' :: cs

/-- `places` digits after the point. -/
def fixedDigits (places : Nat) (m : Nat) (e : Int) : List Char :=
  let (n, d) := scaled 2 (m * Nat.pow 10 places) 1 e
  let ds := padLeft (places + 1) (digits (roundDiv n d))
  ds.take (ds.length - places) ++ fraction (ds.drop (ds.length - places))

/-- For a positive quotient, the `x` with `10^x ≤ num / den < 10^(x+1)`; the quotient has to be above `10^-400`. -/
def decimalExponent (num den : Nat) : Int :=
  ((digits (num * Nat.pow 10 400 / den)).length : Int) - 401

/-- The `p` leading digits of a positive number and the exponent of the first of them, after rounding. -/
def leadingDigits (p : Nat) (m : Nat) (e : Int) : List Char × Int :=
  let (n, d) := scaled 2 m 1 e
  let x := decimalExponent n d
  let (n, d) := scaled 10 n d ((p : Int) - 1 - x)
  let s := roundDiv n d
  if s = Nat.pow 10 p then (digits (Nat.pow 10 (p - 1)), x + 1) else (digits s, x)

/-- Exponents have a sign and at least two digits. -/
def exponentText (x : Int) : List Char :=
  'e' :: (if x < 0 then '-' else '+') :: padLeft 2 (digits x.natAbs)

/-- `p` digits in all without zeros at the end; positional from `10^-4` up to the last digit. -/
def generalDigits (p : Nat) (m : Nat) (e : Int) : List Char :=
  if m = 0 then ['0']
  else
    let (ds, x) := leadingDigits p m e
    if x < -4 || (p : Int) ≤ x then
      ds.take 1 ++ fraction (dropZeros (ds.drop 1)) ++ exponentText x
    else if x < 0 then
      '0' :: fraction (dropZeros (List.replicate ((-x).toNat - 1) '0' ++ ds))
    else
      ds.take (x.toNat + 1) ++ fraction (dropZeros (ds.drop (x.toNat + 1)))

/-- Notation with `p` significant digits, positional where that is short. -/
def general (p : Nat) : Binary64 → String
  | .finite negative m e => withSign negative (generalDigits p m e)
  | .infinite negative => withSign negative ['i', 'n', 'f']
  | .nan negative => withSign negative ['n', 'a', 'n']

end RealText

/-- Notation with a fixed number of places after the point. -/
def fixedText (places : Nat) (x : Float) : String :=
  match Binary64.ofFloat x with
  | .finite negative m e => RealText.withSign negative (RealText.fixedDigits places m e)
  | .infinite negative => RealText.withSign negative ['i', 'n', 'f']
  | .nan _ => "nan"

def generalText (p : Nat) (x : Float) : String := RealText.general p (.ofFloat x)

/-- Six significant digits. What arithmetic leaves undefined is a NaN with a sign. -/
def shortText (x : Float) : String :=
  match Binary64.ofFloat x with
  | .nan _ => RealText.general 6 (.nan true)
  | x => RealText.general 6 x

end QuantumNode.Number
