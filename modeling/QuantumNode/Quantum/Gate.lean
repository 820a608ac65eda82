import QuantumNode.Quantum.Amplitude
import QuantumNode.Number.Word

/-! Gates on one qubit as two-by-two matrices. -/
namespace QuantumNode

structure Gate (α : Type) where
  u00 : α
  u01 : α
  u10 : α
  u11 : α
  deriving Repr

namespace Gate

variable {R : Type} [RealScalar R]

def x : Gate (Amplitude R) := ⟨0, 1, 1, 0⟩

def y : Gate (Amplitude R) := ⟨0, ⟨0, -1⟩, ⟨0, 1⟩, 0⟩

def z : Gate (Amplitude R) := ⟨1, 0, 0, ⟨-1, 0⟩⟩

def invSqrtTwo : R := 1 / RealScalar.sqrt (1 + 1)

def h : Gate (Amplitude R) :=
  let r : R := invSqrtTwo
  ⟨⟨r, 0⟩, ⟨r, 0⟩, ⟨r, 0⟩, ⟨-r, 0⟩⟩

def s : Gate (Amplitude R) := ⟨1, 0, 0, ⟨0, 1⟩⟩

/-- The inverse of `s`. -/
def sdg : Gate (Amplitude R) := ⟨1, 0, 0, ⟨0, -1⟩⟩

def t : Gate (Amplitude R) :=
  let r : R := invSqrtTwo
  ⟨1, 0, 0, ⟨r, r⟩⟩

/-- Exchanges the Z and the Y basis. -/
def k : Gate (Amplitude R) :=
  let r : R := invSqrtTwo
  ⟨⟨r, 0⟩, ⟨0, -r⟩, ⟨0, r⟩, ⟨-r, 0⟩⟩

def half (angle : R) : R := angle / (1 + 1)

def rotX (angle : R) : Gate (Amplitude R) :=
  let c := RealScalar.cos (half angle)
  let s := RealScalar.sin (half angle)
  ⟨⟨c, 0⟩, ⟨0, -s⟩, ⟨0, -s⟩, ⟨c, 0⟩⟩

def rotY (angle : R) : Gate (Amplitude R) :=
  let c := RealScalar.cos (half angle)
  let s := RealScalar.sin (half angle)
  ⟨⟨c, 0⟩, ⟨-s, 0⟩, ⟨s, 0⟩, ⟨c, 0⟩⟩

def rotZ (angle : R) : Gate (Amplitude R) :=
  let a := half angle
  ⟨⟨RealScalar.cos (-a), RealScalar.sin (-a)⟩, 0, 0, ⟨RealScalar.cos a, RealScalar.sin a⟩⟩

end Gate

/-- The double next to pi. -/
def pi : Float := 3.141592653589793

/-- The angle `n * pi / 2^d`, the exponent being kept in 32 bits. -/
def angleOfFraction (n d : Int) : Float :=
  Float.ofInt n * pi / Float.scaleB 1.0 (Word.signed32 d)

end QuantumNode
