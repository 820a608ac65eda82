/-! Doubles as exact numbers: a significand times a power of two. Rounding to the nearest double is done in
natural-number arithmetic on a quotient; run-time float operations take no part in it. -/
namespace QuantumNode.Number

/-- The number `significand * 2^exponent`, its negative, an infinity or a NaN, which has a sign as well. -/
inductive Binary64 where
  | finite (negative : Bool) (significand : Nat) (exponent : Int)
  | infinite (negative : Bool)
  | nan (negative : Bool)
  deriving DecidableEq, Repr

namespace Binary64

def fractionUnit : Nat := 0x10000000000000

/-- Exponent field of infinities and NaNs. -/
def fieldMax : Nat := 2047

/-- Exponent of the last place of the smallest doubles. -/
def exponentMin : Int := -1074

def signBit (negative : Bool) : Nat := if negative then 0x8000000000000000 else 0

def ofBits (bits : Nat) : Binary64 :=
  let negative := bits.testBit 63
  let field := bits / fractionUnit % 2048
  let fraction := bits % fractionUnit
  if field = fieldMax then (if fraction = 0 then .infinite negative else .nan negative)
  else if field = 0 then .finite negative fraction exponentMin
  else .finite negative (fractionUnit + fraction) (exponentMin + (field - 1))

/-- The sign of a NaN is not to be had from the run-time number; it counts as positive. -/
def ofFloat (x : Float) : Binary64 := ofBits x.toBits.toNat

def toBits : Binary64 → Nat
  | finite negative m e => signBit negative + (e - exponentMin).toNat * fractionUnit + m
  | infinite negative => signBit negative + fieldMax * fractionUnit
  | nan negative => signBit negative + fieldMax * fractionUnit + fractionUnit / 2

/-- Encoding a finite number gives back the word that it was decoded from. -/
theorem toBits_ofBits {bits : Nat} (h : bits < 0x10000000000000000)
    (finite : bits / fractionUnit % 2048 ≠ fieldMax) : (ofBits bits).toBits = bits := by
  have sign : signBit (bits.testBit 63) = bits / 0x8000000000000000 * 0x8000000000000000 := by
    rw [Nat.testBit_eq_decide_div_mod_eq]
    simp only [signBit, decide_eq_true_eq]
    split <;> omega
  simp only [ofBits, finite, if_false]
  split <;> simp only [toBits, sign, exponentMin, fractionUnit] at * <;> omega

def toFloat (x : Binary64) : Float := Float.ofBits (UInt64.ofNat x.toBits)

def isFinite : Binary64 → Bool
  | finite .. => true
  | _ => false

end Binary64

/-- The quotient rounded to a whole number, a tie going to the even neighbour. -/
def roundDiv (num den : Nat) : Nat :=
  let q := num / den
  let r := num % den
  if 2 * r < den || (2 * r == den && q % 2 == 0) then q else q + 1

/-- The quotient `num / den` times `base^k`, as a quotient. -/
def scaled (base num den : Nat) (k : Int) : Nat × Nat :=
  if 0 ≤ k then (num * base.pow k.toNat, den) else (num, den * base.pow (-k).toNat)

/-- For a positive quotient, the `e` with `2^e ≤ num / den < 2^(e+1)`. -/
def binaryExponent (num den : Nat) : Int :=
  let e : Int := (num.log2 : Int) - den.log2
  let (n, d) := scaled 2 num den (-e)
  if d ≤ n then e else e - 1

/-- The double nearest to a quotient, by the bits of its magnitude. The result is out of range when it is too
large for a double, or when it is below the normal doubles and had to be rounded. -/
structure Rounded where
  bits : Nat
  outOfRange : Bool

namespace Rounded

def zero : Rounded := ⟨0, false⟩

/-- A positive number too small for any double. -/
def vanished : Rounded := ⟨0, true⟩

def overflow : Rounded := ⟨Binary64.fieldMax * Binary64.fractionUnit, true⟩

/-- Whether rounding to 53 places would reach the smallest normal double from below. -/
private def roundsToNormal (num den : Nat) (e : Int) : Bool :=
  let (n, d) := scaled 2 num den (52 - e)
  e == -1023 && roundDiv n d == 2 * Binary64.fractionUnit

def ofQuotient (num den : Nat) : Rounded :=
  if num = 0 then zero
  else
    let e := binaryExponent num den
    let place := max (e - 52) Binary64.exponentMin
    let (n, d) := scaled 2 num den (-place)
    let bits := (place - Binary64.exponentMin).toNat * Binary64.fractionUnit + roundDiv n d
    if overflow.bits ≤ bits then overflow
    else ⟨bits, e < -1022 && !roundsToNormal num den e && n % d != 0⟩

def number (r : Rounded) (negative : Bool) : Binary64 := .ofBits (Binary64.signBit negative + r.bits)

end Rounded

/-- The whole number nearest to a finite double, halves going away from zero. -/
def roundToInt (x : Float) : Int :=
  match Binary64.ofFloat x with
  | .finite negative m e =>
    let (n, d) := scaled 2 m 1 e
    let magnitude : Int := (2 * n + d) / (2 * d)
    if negative then -magnitude else magnitude
  | _ => 0

end QuantumNode.Number
