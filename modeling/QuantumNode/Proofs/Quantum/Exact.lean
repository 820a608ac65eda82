import Mathlib.Algebra.BigOperators.Fin
import Mathlib.Analysis.SpecialFunctions.Trigonometric.Basic
import QuantumNode.Proofs.Quantum.Kernel

/-! Vectors of exact amplitudes. Over the real numbers the gates are unitary, so that a vector of length one stays one
and is never rescaled; a rotation whose direction another qubit decides is one rotation or the opposite one. -/
namespace QuantumNode

noncomputable instance : RealScalar ℝ where
  sin := Real.sin
  cos := Real.cos
  sqrt := Real.sqrt

namespace Amplitude

variable (a b : Amplitude ℝ) (r : ℝ)

@[ext] theorem ext {a b : Amplitude ℝ} (hre : a.re = b.re) (him : a.im = b.im) : a = b := by
  cases a
  cases b
  exact congrArg₂ mk hre him

@[simp] theorem zero_re : (0 : Amplitude ℝ).re = 0 := rfl

@[simp] theorem zero_im : (0 : Amplitude ℝ).im = 0 := rfl

@[simp] theorem one_re : (1 : Amplitude ℝ).re = 1 := rfl

@[simp] theorem one_im : (1 : Amplitude ℝ).im = 0 := rfl

@[simp] theorem add_re : (a + b).re = a.re + b.re := rfl

@[simp] theorem add_im : (a + b).im = a.im + b.im := rfl

@[simp] theorem mul_re : (a * b).re = a.re * b.re - a.im * b.im := rfl

@[simp] theorem mul_im : (a * b).im = a.re * b.im + a.im * b.re := rfl

@[simp] theorem scale_re : (a.scale r).re = a.re * r := rfl

@[simp] theorem scale_im : (a.scale r).im = a.im * r := rfl

theorem norm_eq : a.norm = a.re * a.re + a.im * a.im := rfl

@[simp] theorem norm_zero : (0 : Amplitude ℝ).norm = 0 := by
  simp [norm_eq]

theorem norm_mul : (a * b).norm = a.norm * b.norm := by
  simp only [norm_eq, mul_re, mul_im]
  ring

theorem scale_one : a.scale 1 = a := by
  ext <;> simp

theorem scale_zero : (0 : Amplitude ℝ).scale r = 0 := by
  ext <;> simp

@[simp] theorem mul_zero : a * 0 = 0 := by
  ext <;> simp

@[simp] theorem zero_mul : 0 * a = 0 := by
  ext <;> simp

@[simp] theorem add_zero : a + 0 = a := by
  ext <;> simp

theorem mul_scale : (a * b).scale r = a * b.scale r := by
  ext <;> simp <;> ring

end Amplitude

/-! ### Lengths -/

section Length

variable {n : Nat} (ψ : Ket n → Amplitude ℝ)

/-- The squared length of a vector given by its entries. -/
noncomputable def weight : ℝ := ∑ i, (ψ i).norm

theorem foldl_normSquared (l : List (Amplitude ℝ)) (s : ℝ) :
    l.foldl (fun (acc : ℝ × ℝ) a =>
      let y := a.norm - acc.2
      let t := acc.1 + y
      (t, (t - acc.1) - y)) (s, 0) = (s + (l.map Amplitude.norm).sum, 0) := by
  induction l generalizing s with
  | nil => simp
  | cons a l ih =>
    rw [List.foldl_cons, List.map_cons, List.sum_cons, ← add_assoc, ← ih]
    congr 1
    simp

/-- Without rounding there is nothing to carry from one addition to the next. -/
theorem normSquared_ofFn : StateVector.normSquared (.ofFn ψ) = weight ψ := by
  unfold StateVector.normSquared
  rw [← Array.foldl_toList, Array.toList_ofFn]
  refine (congrArg Prod.fst (foldl_normSquared _ 0)).trans ?_
  rw [zero_add, List.map_ofFn, List.sum_ofFn]
  rfl

theorem normalize_ofFn :
    StateVector.normalize (.ofFn ψ) = .ofFn fun i => (ψ i).scale (1 / Real.sqrt (weight ψ)) := by
  unfold StateVector.normalize
  rw [normSquared_ofFn, Array.map_ofFn]
  rfl

/-- A vector of length one stays as it is. -/
theorem normalize_of_weight (h : weight ψ = 1) : StateVector.normalize (.ofFn ψ) = .ofFn ψ := by
  rw [normalize_ofFn, h, Real.sqrt_one, div_one]
  simp only [Amplitude.scale_one]

/-- It does not matter for a sum over all basis states whether one qubit is flipped in each. -/
theorem sum_flip (f : Ket n → ℝ) (q : Fin n) : ∑ i : Ket n, f (i.flip q) = ∑ i, f i :=
  Equiv.sum_comp (Function.Involutive.toPerm (Ket.flip · q) fun i => i.flip_flip q) f

/-- Vectors are equally long if they are so on every two basis states that differ in one qubit only. -/
theorem weight_congr_of_flip {φ : Ket n → Amplitude ℝ} (q : Fin n)
    (h : ∀ i, i.bit q = false → (φ i).norm + (φ (i.flip q)).norm = (ψ i).norm + (ψ (i.flip q)).norm) :
    weight φ = weight ψ := by
  have hpair (i : Ket n) : (φ i).norm + (φ (i.flip q)).norm = (ψ i).norm + (ψ (i.flip q)).norm := by
    cases hi : i.bit q
    · exact h i hi
    · have hflip := h (i.flip q) (by simp [hi])
      rw [Ket.flip_flip] at hflip
      linarith
  have htwice (χ : Ket n → Amplitude ℝ) : ∑ i, ((χ i).norm + (χ (i.flip q)).norm) = 2 * weight χ := by
    rw [Finset.sum_add_distrib, sum_flip fun i => (χ i).norm, weight]
    ring
  have hsum := Finset.sum_congr rfl fun i (_ : i ∈ Finset.univ) => hpair i
  rw [htwice, htwice] at hsum
  linarith

end Length

/-! ### Unitary gates -/

namespace Gate

/-- Keeps the length of the two entries that it mixes. -/
def Unitary (u : Gate (Amplitude ℝ)) : Prop :=
  ∀ a b, (u.u00 * a + u.u01 * b).norm + (u.u10 * a + u.u11 * b).norm = a.norm + b.norm

theorem x_unitary : Unitary x := fun a b => by
  simp [x, Amplitude.norm_eq]
  ring

theorem half_eq (angle : ℝ) : half angle = angle / 2 := by
  rw [← one_add_one_eq_two]
  rfl

theorem rotX_eq (angle : ℝ) : rotX angle =
    ⟨⟨Real.cos (angle / 2), 0⟩, ⟨0, -Real.sin (angle / 2)⟩, ⟨0, -Real.sin (angle / 2)⟩, ⟨Real.cos (angle / 2), 0⟩⟩ := by
  rw [rotX, half_eq]
  rfl

theorem rotY_eq (angle : ℝ) : rotY angle =
    ⟨⟨Real.cos (angle / 2), 0⟩, ⟨-Real.sin (angle / 2), 0⟩, ⟨Real.sin (angle / 2), 0⟩, ⟨Real.cos (angle / 2), 0⟩⟩ := by
  rw [rotY, half_eq]
  rfl

theorem rotX_unitary (angle : ℝ) : Unitary (rotX angle) := fun a b => by
  simp only [rotX_eq, Amplitude.norm_eq, Amplitude.add_re, Amplitude.add_im, Amplitude.mul_re, Amplitude.mul_im]
  linear_combination (a.re * a.re + a.im * a.im + b.re * b.re + b.im * b.im) * Real.sin_sq_add_cos_sq (angle / 2)

theorem rotY_unitary (angle : ℝ) : Unitary (rotY angle) := fun a b => by
  simp only [rotY_eq, Amplitude.norm_eq, Amplitude.add_re, Amplitude.add_im, Amplitude.mul_re, Amplitude.mul_im]
  linear_combination (a.re * a.re + a.im * a.im + b.re * b.re + b.im * b.im) * Real.sin_sq_add_cos_sq (angle / 2)

/-- Rotations about one axis: they are unitary, and a second one adds its angle to the first. -/
structure Rotation (rotation : ℝ → Gate (Amplitude ℝ)) : Prop where
  unitary : ∀ angle, Unitary (rotation angle)
  add : ∀ (first second : ℝ) (a b : Amplitude ℝ),
    let u := rotation first
    let w := rotation second
    let both := rotation (first + second)
    w.u00 * (u.u00 * a + u.u01 * b) + w.u01 * (u.u10 * a + u.u11 * b) = both.u00 * a + both.u01 * b ∧
      w.u10 * (u.u00 * a + u.u01 * b) + w.u11 * (u.u10 * a + u.u11 * b) = both.u10 * a + both.u11 * b

theorem rotation_rotX : Rotation rotX where
  unitary := rotX_unitary
  add first second a b := by
    simp only [rotX_eq, add_div, Real.cos_add, Real.sin_add]
    constructor <;> ext <;> simp <;> ring

theorem rotation_rotY : Rotation rotY where
  unitary := rotY_unitary
  add first second a b := by
    simp only [rotY_eq, add_div, Real.cos_add, Real.sin_add]
    constructor <;> ext <;> simp <;> ring

end Gate

/-! ### Kernels on vectors of length one -/

namespace Kernel

variable {n : Nat} (ψ : Ket n → Amplitude ℝ) {u : Gate (Amplitude ℝ)} {control target : Fin n}

theorem weight_applied (hu : u.Unitary) (target : Fin n) : weight (applied u target ψ) = weight ψ := by
  refine weight_congr_of_flip ψ target fun i hi => ?_
  have hflip : (i.flip target).bit target = true := by simp [hi]
  simp only [applied, hi, hflip, Ket.flip_flip, if_true, Bool.false_eq_true, if_false]
  exact hu (ψ i) (ψ (i.flip target))

theorem weight_controlled (hu : u.Unitary) (h : control ≠ target) : weight (controlled u control target ψ) = weight ψ := by
  refine weight_congr_of_flip ψ target fun i hi => ?_
  have hflip : (i.flip target).bit target = true := by simp [hi]
  have hcontrol : (i.flip target).bit control = i.bit control := Ket.bit_flip_of_ne i target h.symm
  cases hbit : i.bit control
  · simp only [controlled, hcontrol, hbit, Bool.false_eq_true, if_false]
  · simp only [controlled, applied, hcontrol, hbit, hi, hflip, Ket.flip_flip, if_true, Bool.false_eq_true, if_false]
    exact hu (ψ i) (ψ (i.flip target))

/-- A rotation of the target by an angle, or by its negative where the control is one. -/
noncomputable def turned (rotation : ℝ → Gate (Amplitude ℝ)) (control target : Fin n) (angle : ℝ) (ψ : Ket n → Amplitude ℝ)
    (i : Ket n) : Amplitude ℝ :=
  applied (rotation (if i.bit control then -angle else angle)) target ψ i

theorem controlled_applied {rotation : ℝ → Gate (Amplitude ℝ)} (hrotation : Gate.Rotation rotation) (angle : ℝ) :
    controlled (rotation (-2 * angle)) control target (applied (rotation angle) target ψ) =
      turned rotation control target angle ψ := by
  funext i
  cases hbit : i.bit control
  · simp only [controlled, turned, hbit, Bool.false_eq_true, if_false]
  · have hsum : angle + -2 * angle = -angle := by ring
    obtain ⟨hlow, hhigh⟩ : _ ∧ _ := hrotation.add angle (-2 * angle) (ψ (i.low target)) (ψ ((i.low target).flip target))
    rw [hsum] at hlow hhigh
    cases hi : i.bit target
    · simp only [Ket.low, hi, Bool.false_eq_true, if_false] at hlow
      simp only [controlled, turned, applied, hbit, hi, Ket.bit_flip_self, Ket.flip_flip, Bool.not_false, if_true,
        Bool.false_eq_true, if_false]
      exact hlow
    · simp only [Ket.low, hi, Ket.flip_flip, if_true] at hhigh
      simp only [controlled, turned, applied, hbit, hi, Ket.bit_flip_self, Ket.flip_flip, Bool.not_true, if_true,
        Bool.false_eq_true, if_false]
      exact hhigh

theorem weight_turned {rotation : ℝ → Gate (Amplitude ℝ)} (hrotation : Gate.Rotation rotation)
    (h : control ≠ target) (angle : ℝ) : weight (turned rotation control target angle ψ) = weight ψ := by
  rw [← controlled_applied ψ hrotation, weight_controlled _ (hrotation.unitary _) h,
    weight_applied _ (hrotation.unitary _)]

end Kernel

namespace StateVector

open Kernel

variable {n : Nat} {v : StateVector ℝ} {ψ : Ket n → Amplitude ℝ} {control target : Fin n}

/-- Vectors of length one are not rescaled after a gate. -/
theorem afterGate_of_weight (v : StateVector ℝ) (h : weight ψ = 1) :
    v.afterGate (.ofFn ψ) = ⟨v.qubits, .ofFn ψ, v.applied + 1⟩ := by
  simp only [afterGate, normalize_of_weight ψ h, ite_self]

theorem apply_ofFn (hv : v.amps = .ofFn ψ) (hψ : weight ψ = 1) {u : Gate (Amplitude ℝ)} (hu : u.Unitary)
    (target : Fin n) : v.apply u target = ⟨v.qubits, .ofFn (Kernel.applied u target ψ), v.applied + 1⟩ := by
  rw [apply, hv, (apply_sweeps u target).eq, afterGate_of_weight v ((weight_applied ψ hu target).trans hψ)]

theorem directed_ofFn (hv : v.amps = .ofFn ψ) (hψ : weight ψ = 1) {rotation : ℝ → Gate (Amplitude ℝ)}
    (hrotation : Gate.Rotation rotation) (h : control ≠ target) (angle : ℝ) :
    v.directed rotation control target angle =
      ⟨v.qubits, .ofFn (turned rotation control target angle ψ), v.applied + 2⟩ := by
  have hne : control.val ≠ target.val := fun hval => h (Fin.ext hval)
  have hangle : (-(1 + 1) * angle : ℝ) = -2 * angle := by ring
  have hlength : weight (turned rotation control target angle ψ) = 1 := (weight_turned ψ hrotation h angle).trans hψ
  rw [directed, apply_ofFn hv hψ (hrotation.unitary angle), applyControlled, if_neg hne,
    (applyControlled_sweeps _ h).eq]
  refine (congrArg _ ?_).trans (afterGate_of_weight _ hlength)
  rw [← controlled_applied ψ hrotation angle, ← hangle]

theorem fold_add (p : Nat → Bool) {N : Nat} (f : Fin N → ℝ) :
    N.fold (fun i h acc => if p i then acc + f ⟨i, h⟩ else acc) 0 = ∑ i : Fin N, if p i then f i else 0 := by
  induction N with
  | zero => rfl
  | succ N ih =>
    have hfold := ih fun i => f i.castSucc
    simp only [Fin.castSucc_mk] at hfold
    rw [Nat.fold_succ, hfold, Fin.sum_univ_castSucc]
    cases hp : p N <;> simp [hp, Fin.last]

/-- A qubit is found one with the weight of the basis states in which it is. -/
theorem probabilityOne_ofFn (hv : v.amps = .ofFn ψ) (q : Fin n) :
    v.probabilityOne q = weight (projected q true ψ) := by
  obtain ⟨qubits, amps, applied⟩ := v
  subst hv
  have hsize : (Array.ofFn ψ).size = 2 ^ n := Array.size_ofFn
  refine (fold_add (·.testBit q) fun i => (Array.ofFn ψ)[i].norm).trans ?_
  rw [weight, ← Fin.sum_congr' _ hsize]
  refine Finset.sum_congr rfl fun i _ => ?_
  have hbit : Ket.bit (Fin.cast hsize i) q = i.val.testBit q := rfl
  simp only [projected, hbit]
  cases i.val.testBit q
  · simp
  · exact congrArg Amplitude.norm (Array.getElem_ofFn i.isLt)

theorem collapse_ofFn (hv : v.amps = .ofFn ψ) (q : Fin n) (one : Bool) :
    v.collapse q one = { v with amps := .ofFn fun i =>
      (projected q one ψ i).scale (1 / Real.sqrt (weight (projected q one ψ))) } := by
  rw [collapse, hv, (project_sweeps q one).eq, normalize_ofFn]

end StateVector

end QuantumNode
