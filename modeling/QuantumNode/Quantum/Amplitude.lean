/-! Complex numbers as pairs over any kind of reals, floating-point ones when programs run. -/
namespace QuantumNode

/-- The functions of a real variable that gates are made of. -/
class RealScalar (R : Type) extends Zero R, One R, Add R, Sub R, Mul R, Neg R, Div R where
  sin : R → R
  cos : R → R
  sqrt : R → R

instance : RealScalar Float where
  zero := 0.0
  one := 1.0
  sin := Float.sin
  cos := Float.cos
  sqrt := Float.sqrt

structure Amplitude (R : Type) where
  re : R
  im : R
  deriving Repr

namespace Amplitude

variable {R : Type} [RealScalar R]

instance : Zero (Amplitude R) := ⟨⟨0, 0⟩⟩

instance : One (Amplitude R) := ⟨⟨1, 0⟩⟩

@[inline] def add (a b : Amplitude R) : Amplitude R := ⟨a.re + b.re, a.im + b.im⟩

@[inline] def mul (a b : Amplitude R) : Amplitude R :=
  ⟨a.re * b.re - a.im * b.im, a.re * b.im + a.im * b.re⟩

@[inline] def neg (a : Amplitude R) : Amplitude R := ⟨-a.re, -a.im⟩

instance : Add (Amplitude R) := ⟨add⟩

instance : Mul (Amplitude R) := ⟨mul⟩

instance : Neg (Amplitude R) := ⟨neg⟩

/-- Squared modulus. -/
@[inline] def norm (a : Amplitude R) : R := a.re * a.re + a.im * a.im

@[inline] def scale (a : Amplitude R) (r : R) : Amplitude R := ⟨a.re * r, a.im * r⟩

end Amplitude

end QuantumNode
