import Mathlib.Analysis.SpecialFunctions.Trigonometric.Basic
import QuantumNode.Execution.State
import QuantumNode.Proofs.Quantum.Exact

/-! What the moves between electron and carbon do to the quantum state. Over exact amplitudes and without noise, a move
to a carbon leaves there what was on the electron, and a move to the electron lets the carbon be read out there. -/
namespace QuantumNode

/-! ### Two qubits of a basis state -/

namespace Ket

variable {n : Nat} (i : Ket n) (q r : Fin n)

/-- The basis state with one qubit as given. -/
def put (b : Bool) : Ket n := if i.bit q = b then i else i.flip q

@[simp] theorem bit_put_self (b : Bool) : (i.put q b).bit q = b := by
  unfold put
  split
  · next h => exact h
  · next h =>
    rw [bit_flip_self]
    exact Bool.not_eq.2 h

theorem bit_put_of_ne (b : Bool) (h : q ≠ r) : (i.put q b).bit r = i.bit r := by
  unfold put
  split
  · rfl
  · exact i.bit_flip_of_ne q h

theorem ext_bit {i j : Ket n} (h : ∀ q, i.bit q = j.bit q) : i = j := by
  apply Fin.ext
  apply Nat.eq_of_testBit_eq
  intro k
  by_cases hk : k < n
  · exact h ⟨k, hk⟩
  · have hn : 2 ^ n ≤ 2 ^ k := Nat.pow_le_pow_right (by decide) (Nat.le_of_not_lt hk)
    rw [Nat.testBit_lt_two_pow (Nat.lt_of_lt_of_le i.isLt hn), Nat.testBit_lt_two_pow (Nat.lt_of_lt_of_le j.isLt hn)]

/-- The basis state with two qubits as given. -/
def pair (x y : Bool) : Ket n := (i.put q x).put r y

variable {q r} (h : q ≠ r) (x y : Bool)

include h in
@[simp] theorem bit_pair_left : (i.pair q r x y).bit q = x := by
  rw [pair, bit_put_of_ne _ _ _ _ h.symm, bit_put_self]

@[simp] theorem bit_pair_right : (i.pair q r x y).bit r = y := bit_put_self ..

theorem pair_bit : i.pair q r (i.bit q) (i.bit r) = i := by
  simp [pair, put]

include h in
theorem pair_put_left (b : Bool) : (i.pair q r x y).put q b = i.pair q r b y := by
  apply ext_bit
  intro k
  by_cases hq : q = k
  · subst hq
    simp [h]
  · by_cases hr : r = k
    · subst hr
      rw [bit_put_of_ne _ _ _ _ hq]
      simp
    · simp only [pair, bit_put_of_ne, hq, hr, ne_eq, not_false_eq_true]

include h in
theorem pair_flip : ((i.flip q).flip r).pair q r x y = i.pair q r x y := by
  apply ext_bit
  intro k
  by_cases hr : r = k
  · subst hr
    simp
  · by_cases hq : q = k
    · subst hq
      simp [h]
    · simp only [pair, bit_put_of_ne, bit_flip_of_ne, hq, hr, ne_eq, not_false_eq_true]

theorem pair_put_right (b : Bool) : (i.pair q r x y).put r b = i.pair q r x b := by
  apply ext_bit
  intro k
  by_cases hr : r = k
  · subst hr
    simp
  · simp only [pair, bit_put_of_ne, hr, ne_eq, not_false_eq_true]

end Ket

namespace Kernel

variable {n : Nat} {α : Type} [Add α] [Mul α]

/-- What a gate makes of an entry, by the entries with its qubit zero and with its qubit one. -/
theorem applied_eq (u : Gate α) (q : Fin n) (ψ : Ket n → α) (i : Ket n) :
    applied u q ψ i = if i.bit q then u.u10 * ψ (i.put q false) + u.u11 * ψ (i.put q true)
      else u.u00 * ψ (i.put q false) + u.u01 * ψ (i.put q true) := by
  cases h : i.bit q <;> simp [applied, Ket.put, h]

end Kernel

/-! ### The gates of the moves -/

namespace Relocation

open Kernel

variable {n : Nat} {e c : Fin n} (ψ : Ket n → Amplitude ℝ)

/-- The entries after the four rotations. -/
noncomputable def transferred (e c : Fin n) (ψ : Ket n → Amplitude ℝ) : Ket n → Amplitude ℝ :=
  turned Gate.rotX e c (Real.pi / 2) (applied (Gate.rotX (-(Real.pi / 2))) e
    (turned Gate.rotY e c (-(Real.pi / 2)) (applied (Gate.rotY (Real.pi / 2)) e ψ)))

theorem rotX_quarter : Gate.rotX (Real.pi / 2) =
    ⟨⟨√2 / 2, 0⟩, ⟨0, -(√2 / 2)⟩, ⟨0, -(√2 / 2)⟩, ⟨√2 / 2, 0⟩⟩ := by
  rw [Gate.rotX_eq, div_div, show (2 * 2 : ℝ) = 4 by norm_num, Real.cos_pi_div_four, Real.sin_pi_div_four]

theorem rotX_back : Gate.rotX (-(Real.pi / 2)) =
    ⟨⟨√2 / 2, 0⟩, ⟨0, √2 / 2⟩, ⟨0, √2 / 2⟩, ⟨√2 / 2, 0⟩⟩ := by
  rw [Gate.rotX_eq, neg_div, div_div, show (2 * 2 : ℝ) = 4 by norm_num, Real.cos_neg, Real.sin_neg, neg_neg,
    Real.cos_pi_div_four, Real.sin_pi_div_four]

theorem rotY_quarter : Gate.rotY (Real.pi / 2) =
    ⟨⟨√2 / 2, 0⟩, ⟨-(√2 / 2), 0⟩, ⟨√2 / 2, 0⟩, ⟨√2 / 2, 0⟩⟩ := by
  rw [Gate.rotY_eq, div_div, show (2 * 2 : ℝ) = 4 by norm_num, Real.cos_pi_div_four, Real.sin_pi_div_four]

theorem rotY_back : Gate.rotY (-(Real.pi / 2)) =
    ⟨⟨√2 / 2, 0⟩, ⟨√2 / 2, 0⟩, ⟨-(√2 / 2), 0⟩, ⟨√2 / 2, 0⟩⟩ := by
  rw [Gate.rotY_eq, neg_div, div_div, show (2 * 2 : ℝ) = 4 by norm_num, Real.cos_neg, Real.sin_neg, neg_neg,
    Real.cos_pi_div_four, Real.sin_pi_div_four]

/-- The rotations leave on the carbon what the electron was, and on the electron a trace of what the carbon was. -/
theorem transferred_pair (h : e ≠ c) (i : Ket n) (x y : Bool) :
    transferred e c ψ (i.pair e c x y) =
      ⟨1 / 2, 1 / 2⟩ * ψ (i.pair e c y false) +
        (if x = y then ⟨1 / 2, -(1 / 2)⟩ else ⟨-(1 / 2), 1 / 2⟩) * ψ (i.pair e c y true) := by
  have hpow : √2 ^ 4 = (4 : ℝ) := by
    rw [show √(2 : ℝ) ^ 4 = (√2 ^ 2) ^ 2 by ring, Real.sq_sqrt (by norm_num)]
    norm_num
  cases x <;> cases y <;>
  · simp only [transferred, turned, applied_eq, Ket.bit_pair_left, Ket.bit_pair_right, Ket.pair_put_left,
      Ket.pair_put_right, h, ne_eq, not_false_eq_true, neg_neg, if_true, if_false, reduceCtorEq, rotX_quarter,
      rotX_back, rotY_quarter, rotY_back]
    generalize ψ (i.pair e c false false) = a₀₀
    generalize ψ (i.pair e c false true) = a₀₁
    generalize ψ (i.pair e c true false) = a₁₀
    generalize ψ (i.pair e c true true) = a₁₁
    ext <;>
    · simp only [Amplitude.add_re, Amplitude.add_im, Amplitude.mul_re, Amplitude.mul_im]
      ring_nf
      simp only [hpow]
      ring

theorem weight_transferred (h : e ≠ c) : weight (transferred e c ψ) = weight ψ := by
  rw [transferred, weight_turned _ Gate.rotation_rotX h, weight_applied _ (Gate.rotX_unitary _),
    weight_turned _ Gate.rotation_rotY h, weight_applied _ (Gate.rotY_unitary _)]

/-- From a carbon that is zero, the carbon takes over what the electron was, and the electron is left in a state of its
own. -/
theorem transferred_of_carbon (h : e ≠ c) (hzero : ∀ i, i.bit c = true → ψ i = 0) (i : Ket n) :
    transferred e c ψ i = ⟨1 / 2, 1 / 2⟩ * ψ (i.pair e c (i.bit c) false) := by
  have hone : ψ (i.pair e c (i.bit c) true) = 0 := hzero _ (by simp)
  have hpair := transferred_pair ψ h i (i.bit e) (i.bit c)
  rwa [Ket.pair_bit, hone, Amplitude.mul_zero, Amplitude.add_zero] at hpair

/-- What is left on the electron for a readout, if the carbon was found to be as given. -/
noncomputable def phase (one : Bool) : Amplitude ℝ := if one then ⟨-(√2 / 2), √2 / 2⟩ else ⟨√2 / 2, √2 / 2⟩

theorem norm_phase (one : Bool) : (phase one).norm = 1 := by
  have hr : √2 * √2 = (2 : ℝ) := Real.mul_self_sqrt (by norm_num)
  cases one <;> simp only [phase, Amplitude.norm_eq, if_true, if_false, reduceCtorEq] <;> linear_combination hr / 2

/-- From an electron that is zero, a last rotation leaves the carbon zero and the electron as the carbon was, with a
phase for each of its two states. -/
theorem applied_transferred_of_electron (h : e ≠ c) (hzero : ∀ i, i.bit e = true → ψ i = 0) (i : Ket n) :
    applied (Gate.rotY (-(Real.pi / 2))) e (transferred e c ψ) i =
      if i.bit c then 0 else phase (i.bit e) * ψ (i.pair e c false (i.bit e)) := by
  have hone (y : Bool) : ψ (i.pair e c true y) = 0 := hzero _ (by simp [h])
  have hput (b : Bool) : i.put e b = i.pair e c b (i.bit c) := by
    rw [← Ket.pair_put_left i h (i.bit e), Ket.pair_bit]
  rw [applied_eq, hput, hput, transferred_pair ψ h, transferred_pair ψ h, rotY_back]
  cases i.bit e <;> cases i.bit c <;>
  · simp only [hone, phase, if_true, if_false, reduceCtorEq]
    generalize ψ (i.pair e c false false) = a₀
    generalize ψ (i.pair e c false true) = a₁
    ext <;>
    · simp
      try ring

/-- The weight of what is found at the carbon is found at the electron afterwards. -/
theorem weight_projected_of_electron (h : e ≠ c) (hzero : ∀ i, i.bit e = true → ψ i = 0) (one : Bool) :
    weight (projected e one (applied (Gate.rotY (-(Real.pi / 2))) e (transferred e c ψ))) =
      weight (projected c one ψ) := by
  have hentry (i : Ket n) : (projected e one (applied (Gate.rotY (-(Real.pi / 2))) e (transferred e c ψ)) i).norm =
      if i.bit e = one ∧ i.bit c = false then (ψ (i.pair e c false one)).norm else 0 := by
    rw [projected, applied_transferred_of_electron ψ h hzero]
    by_cases he : i.bit e = one
    · cases hc : i.bit c <;> simp [he, Amplitude.norm_mul, norm_phase]
    · simp [he]
  have hcarbon (i : Ket n) : (projected c one ψ i).norm =
      if i.bit e = false ∧ i.bit c = one then (ψ (i.pair e c false one)).norm else 0 := by
    rw [projected]
    by_cases hc : i.bit c = one
    · cases he : i.bit e
      · rw [if_pos hc, if_pos ⟨rfl, hc⟩, ← he, ← hc, Ket.pair_bit]
      · simp [hc, hzero i he]
    · simp [hc]
  simp only [weight, hentry, hcarbon]
  cases one
  · rfl
  · -- The electron is one and the carbon zero where before it was the other way round.
    rw [← sum_flip _ c, ← sum_flip _ e]
    refine Finset.sum_congr rfl fun i _ => ?_
    simp only [Ket.pair_flip, Ket.bit_flip_self, Ket.bit_flip_of_ne, h, h.symm, ne_eq, not_false_eq_true,
      Bool.not_eq_true', Bool.not_eq_false']

/-- Once the electron was found as given, the others are as if the carbon had been found so. -/
theorem scale_projected_of_electron (h : e ≠ c) (hzero : ∀ i, i.bit e = true → ψ i = 0) (one : Bool) (r : ℝ)
    (i : Ket n) :
    (projected e one (applied (Gate.rotY (-(Real.pi / 2))) e (transferred e c ψ)) i).scale r =
      if i.bit e = one then
        (if i.bit c then 0 else phase one) * (projected c one ψ ((i.put e false).put c one)).scale r
      else 0 := by
  have hput : projected c one ψ ((i.put e false).put c one) = ψ (i.pair e c false one) := if_pos (Ket.bit_put_self ..)
  rw [hput, projected, applied_transferred_of_electron ψ h hzero]
  by_cases he : i.bit e = one
  · cases hc : i.bit c
    · simp [he, Amplitude.mul_scale]
    · simp [he, Amplitude.scale_zero]
  · simp [he, Amplitude.scale_zero]

end Relocation

/-! ### Moves without noise -/

namespace StateVector

variable {R : Type} [RealScalar R]

/-- A gate, given its qubits and its angle. -/
def gate (v : StateVector R) (op : Operation) (a b : Nat) (angle : R) : StateVector R :=
  match op with
  | .x => v.apply .x a
  | .y => v.apply .y a
  | .z => v.apply .z a
  | .h => v.apply .h a
  | .s => v.apply .s a
  | .k => v.apply .k a
  | .t => v.apply .t a
  | .rotX => v.apply (.rotX angle) a
  | .rotY => v.apply (.rotY angle) a
  | .rotZ => v.apply (.rotZ angle) a
  | .cnot => v.cnot a b
  | .cz => v.cz a b
  | .directedX => v.directed Gate.rotX a b angle
  | .directedY => v.directed Gate.rotY a b angle
  | .init | .measure => v

/-- A qubit brought to zero after it was found as given. -/
def reset (v : StateVector R) (q : Nat) (one : Bool) : StateVector R :=
  if one then (v.collapse q one).apply .x q else v.collapse q one

/-- An outcome of a measurement that does not have probability zero. -/
def Possible (v : StateVector ℝ) (q : Nat) (one : Bool) : Prop :=
  if one then v.probabilityOne q ≠ 0 else v.probabilityOne q ≠ 1

end StateVector

/-- The vectors that a move may leave on a device whose qubits begin at `base`, given the angle of a quarter turn and
the outcomes that measurements may have. -/
def Move.MayLeave {R : Type} [RealScalar R] (quarter : R) (outcome : StateVector R → Nat → Bool → Prop) (base : Nat)
    (mv : Move) (v w : StateVector R) : Prop :=
  let a := base + mv.positions.headD 0
  let b := base + mv.positions.getLastD 0
  if mv.op = .init then ∃ one, outcome v a one ∧ w = v.reset a one else w = v.gate mv.op a b (mv.turn.angle quarter)

namespace Relocation

open Kernel

/-- The vectors that moves may leave one after the other. -/
def MayLeave {R : Type} [RealScalar R] (quarter : R) (outcome : StateVector R → Nat → Bool → Prop) (base : Nat) :
    List Move → StateVector R → StateVector R → Prop
  | [], v, w => w = v
  | mv :: ms, v, w => ∃ u, mv.MayLeave quarter outcome base v u ∧ MayLeave quarter outcome base ms u w

end Relocation

/-! #### What devices do -/

namespace QuantumState

/-- An outcome that a measurement may report. -/
def Reported (v : StateVector Float) (q : Nat) (one : Bool) : Prop :=
  let p := clamp (v.probabilityOne q)
  if one then ¬p < 1e-12 else p < 1e-12 ∨ ¬p > 1.0 - 1e-12

theorem measure_reported (s : QuantumState) (q : Nat) :
    ∃ one : Bool, Reported s.vector q one ∧ (s.measure q).1 = one.toNat ∧
      (s.measure q).2.vector = s.vector.collapse q one := by
  refine ⟨_, ?_, rfl, rfl⟩
  unfold Reported
  rw [show s.probabilityOne q = s.vector.probabilityOne q from rfl]
  generalize clamp (s.vector.probabilityOne q) = p
  by_cases hlow : p < 1e-12
  · simp [hlow]
  · by_cases hhigh : p > 1.0 - 1e-12
    · simp [hlow, hhigh]
    · simp only [hlow, hhigh]
      split <;> simp

theorem reset_reported (s : QuantumState) (q : Nat) :
    ∃ one, Reported s.vector q one ∧ (s.reset q).vector = s.vector.reset q one := by
  obtain ⟨one, hone, hbit, hvector⟩ := s.measure_reported q
  refine ⟨one, hone, ?_⟩
  unfold reset
  simp only [hbit, StateVector.reset]
  cases one
  · simpa using hvector
  · simpa [apply] using congrArg (StateVector.apply · Gate.x q) hvector

theorem depolarize_of_le {p : Float} (h : p ≤ 0.0) (s : QuantumState) (q : Nat) : s.depolarize q p = s := by
  have hnone : (if p ≤ 0.0 then (false, s) else s.bernoulli p) = (false, s) := if_pos h
  unfold depolarize
  split
  · rename_i hs
    exact (Prod.mk.inj (hs.symm.trans hnone)).2
  · rename_i hs
    exact nomatch (Prod.mk.inj (hs.symm.trans hnone)).1

end QuantumState

/-- A device that makes no noise apart from errors of readout. -/
def DeviceConfig.Noiseless : DeviceConfig → Prop
  | generic g => g.singleGateNoise ≤ 0.0 ∧ g.pairGateNoise ≤ 0.0
  | nv v => v.electronInitNoise ≤ 0.0 ∧ v.electronGateNoise ≤ 0.0 ∧ v.carbonInitNoise ≤ 0.0 ∧ v.carbonRotZNoise ≤ 0.0 ∧
    v.pairGateNoise ≤ 0.0

namespace Device

theorem applyGate_vector (op : Operation) (a b : Nat) (angle : Float) (s : QuantumState) :
    (applyGate op a b angle s).vector = s.vector.gate op a b angle := by
  cases op <;> rfl

theorem initNoise_of_noiseless {config : DeviceConfig} (h : config.Noiseless) (a position : Nat) (s : QuantumState) :
    initNoise config a position s = s := by
  cases config with
  | generic g => rfl
  | nv v =>
    obtain ⟨helectron, -, hcarbon, -⟩ := h
    refine QuantumState.depolarize_of_le ?_ s a
    split
    · exact helectron
    · exact hcarbon

theorem gateNoise_of_noiseless {config : DeviceConfig} (h : config.Noiseless) (op : Operation) (a b first : Nat)
    (s : QuantumState) : gateNoise config op a b first s = s := by
  cases config with
  | generic g =>
    obtain ⟨hsingle, hpair⟩ := h
    simp only [gateNoise, QuantumState.depolarize_of_le hsingle, QuantumState.depolarize_of_le hpair, ite_self]
  | nv v =>
    obtain ⟨-, helectron, -, hcarbon, hpair⟩ := h
    simp only [gateNoise, QuantumState.depolarize_of_le helectron, QuantumState.depolarize_of_le hcarbon,
      QuantumState.depolarize_of_le hpair, ite_self]

/-- A move on a device without noise leaves one of the vectors that it may leave. -/
theorem effect_mayLeave {d : Device} (h : d.config.Noiseless) {mv : Move} (hop : mv.op ≠ .measure) (s : QuantumState) :
    mv.MayLeave (pi / 2.0) QuantumState.Reported d.base s.vector (d.effect (Execution.moveCall mv) s).2.vector := by
  obtain ⟨op, positions, turn⟩ := mv
  by_cases hinit : op = .init
  · subst hinit
    obtain ⟨one, hone, hvector⟩ := s.reset_reported (d.base + positions.headD 0)
    refine ⟨one, hone, ?_⟩
    rw [← hvector]
    exact congrArg QuantumState.vector (initNoise_of_noiseless h _ _ _)
  · have hgate : d.effect (Execution.moveCall ⟨op, positions, turn⟩) s = (none, gateNoise d.config op
        (d.base + positions.headD 0) (d.base + positions.getLastD 0) (positions.headD 0)
        (applyGate op (d.base + positions.headD 0) (d.base + positions.getLastD 0) (turn.angle (pi / 2.0)) s)) := by
      cases op <;> first | rfl | exact absurd rfl hinit | exact absurd rfl hop
    rw [hgate, gateNoise_of_noiseless h, Move.MayLeave, if_neg hinit, applyGate_vector]

end Device

namespace Relocation

/-- What a device without noise does with the calls of moves is what the moves may do. -/
theorem effects_mayLeave {d : Device} (h : d.config.Noiseless) {ms : List Move} (hms : ∀ mv ∈ ms, mv.op ≠ .measure)
    (s : QuantumState) :
    MayLeave (pi / 2.0) QuantumState.Reported d.base ms s.vector
      ((ms.map Execution.moveCall).foldl (fun s c => (d.effect c s).2) s).vector := by
  induction ms generalizing s with
  | nil => rfl
  | cons mv ms ih =>
    obtain ⟨hmv, hms⟩ := List.forall_mem_cons.1 hms
    exact ⟨_, Device.effect_mayLeave h hmv s, ih hms _⟩

open Kernel

section Exact

variable {n base carbon : Nat} {v w : StateVector ℝ} {ψ : Ket n → Amplitude ℝ} {ms : List Move}

/-- A qubit that is zero stays as it is when it is brought to zero, and it is not found one before. -/
theorem init_of_zero {q : Fin n} (hv : v.amps = .ofFn ψ) (hψ : weight ψ = 1)
    (hzero : ∀ i, i.bit q = true → ψ i = 0) (one : Bool) :
    v.Possible q one ∧ w = v.reset q one ↔ one = false ∧ w = v := by
  have hnone : projected q true ψ = fun _ => 0 := by
    funext i
    rw [projected]
    split
    · next hi => exact hzero i hi
    · rfl
  have hall : projected q false ψ = ψ := by
    funext i
    rw [projected]
    split
    · rfl
    · next hi => exact (hzero i (Bool.eq_true_of_not_eq_false hi)).symm
  have hp : v.probabilityOne q = 0 := by
    rw [StateVector.probabilityOne_ofFn hv, hnone]
    simp [weight]
  cases one
  · have hreset : v.reset q false = v := by
      have hcollapse : v.collapse q false = { v with amps := .ofFn ψ } := by
        simp only [StateVector.collapse_ofFn hv, hall, hψ, Real.sqrt_one, div_one, Amplitude.scale_one]
      rw [StateVector.reset, if_neg Bool.false_ne_true, hcollapse, ← hv]
    simp [StateVector.Possible, hp, hreset]
  · simp [StateVector.Possible, hp]

theorem mayLeave_init {p : Nat} (hp : base + p < n) (hv : v.amps = .ofFn ψ) (hψ : weight ψ = 1)
    (hzero : ∀ i, i.bit ⟨base + p, hp⟩ = true → ψ i = 0) :
    MayLeave (Real.pi / 2) StateVector.Possible base (⟨.init, [p], .none⟩ :: ms) v w ↔
      MayLeave (Real.pi / 2) StateVector.Possible base ms v w := by
  have hinit (u : StateVector ℝ) :
      Move.MayLeave (Real.pi / 2) StateVector.Possible base ⟨.init, [p], .none⟩ v u ↔ u = v := by
    refine (exists_congr fun one => init_of_zero hv hψ hzero one).trans ?_
    simp
  simp only [MayLeave, hinit, exists_eq_left]

/-- The vector after the four rotations. -/
theorem transfer_eq {e c : Fin n} (h : e ≠ c) (hv : v.amps = .ofFn ψ) (hψ : weight ψ = 1) :
    (((v.apply (.rotY (Real.pi / 2)) e).directed .rotY e c (-(Real.pi / 2))).apply
      (.rotX (-(Real.pi / 2))) e).directed .rotX e c (Real.pi / 2) =
      ⟨v.qubits, .ofFn (transferred e c ψ), v.applied + 6⟩ := by
  have h₁ := (weight_applied ψ (Gate.rotY_unitary (Real.pi / 2)) e).trans hψ
  have h₂ := (weight_turned _ Gate.rotation_rotY h (-(Real.pi / 2))).trans h₁
  have h₃ := (weight_applied _ (Gate.rotX_unitary (-(Real.pi / 2))) e).trans h₂
  rw [StateVector.apply_ofFn hv hψ (Gate.rotY_unitary _), StateVector.directed_ofFn rfl h₁ Gate.rotation_rotY h,
    StateVector.apply_ofFn rfl h₂ (Gate.rotX_unitary _), StateVector.directed_ofFn rfl h₃ Gate.rotation_rotX h]
  rfl

/-- The four rotations leave that vector only. -/
theorem mayLeave_transfer (hcarbon : 0 < carbon) (hn : base + carbon < n) (hv : v.amps = .ofFn ψ) (hψ : weight ψ = 1) :
    MayLeave (Real.pi / 2) StateVector.Possible base (transfer carbon ++ ms) v w ↔
      MayLeave (Real.pi / 2) StateVector.Possible base ms
        ⟨v.qubits, .ofFn (transferred ⟨base, by omega⟩ ⟨base + carbon, hn⟩ ψ), v.applied + 6⟩ w := by
  have hne : (⟨base, by omega⟩ : Fin n) ≠ ⟨base + carbon, hn⟩ := fun h => by
    have hval := congrArg Fin.val h
    simp only at hval
    omega
  rw [← transfer_eq hne hv hψ]
  simp only [transfer, List.cons_append, List.nil_append, MayLeave, Move.MayLeave, reduceCtorEq, if_false,
    exists_eq_left]
  rfl

end Exact

/-- Relocation keeps the quantum state, exactly and without noise. Of any qubits in any state, let the electron and a
carbon of one device be two. A move to the carbon, if the carbon is zero, leaves one vector, in which the carbon is what
the electron was, whatever it was entangled with, and the electron is in a state of its own. A move to the electron, if
the electron is zero, leaves one vector, in which the electron is found one as often as the carbon was before, and once
it is found as given, all other qubits are as if the carbon had been found so, and the carbon is in a state of its
own. -/
theorem moves_keep_state {n base carbon : Nat} (hcarbon : 0 < carbon) (hn : base + carbon < n) {v : StateVector ℝ}
    {ψ : Ket n → Amplitude ℝ} (hv : v.amps = .ofFn ψ) (hlength : StateVector.normSquared v.amps = 1) :
    let e : Fin n := ⟨base, by omega⟩
    let c : Fin n := ⟨base + carbon, hn⟩
    ((∀ i, i.bit c = true → ψ i = 0) →
      ∃ w, (∀ w', MayLeave (Real.pi / 2) StateVector.Possible base (toCarbon carbon) v w' ↔ w' = w) ∧
        ∃ χ : Bool → Amplitude ℝ, (χ false).norm + (χ true).norm = 1 ∧
          w.amps = .ofFn fun i : Ket n => χ (i.bit e) * ψ ((i.put e (i.bit c)).put c false)) ∧
    ((∀ i, i.bit e = true → ψ i = 0) →
      ∃ w, (∀ w', MayLeave (Real.pi / 2) StateVector.Possible base (toElectron carbon) v w' ↔ w' = w) ∧
        w.probabilityOne e = v.probabilityOne c ∧
        ∀ one, ∃ φ : Ket n → Amplitude ℝ, (v.collapse c one).amps = .ofFn φ ∧
          ∃ χ : Bool → Amplitude ℝ, (χ false).norm + (χ true).norm = 1 ∧
            (w.collapse e one).amps = .ofFn fun i : Ket n =>
              if i.bit e = one then χ (i.bit c) * φ ((i.put e false).put c one) else 0) := by
  intro e c
  have hne : e ≠ c := fun h => by
    have hval : base = base + carbon := congrArg Fin.val h
    omega
  have hψ : weight ψ = 1 := by rw [← hlength, hv, normSquared_ofFn]
  refine ⟨fun hzero => ?_, fun hzero => ?_⟩
  · refine ⟨⟨v.qubits, .ofFn (transferred e c ψ), v.applied + 6⟩, fun w => ?_, fun _ => ⟨1 / 2, 1 / 2⟩, ?_, ?_⟩
    · rw [toCarbon, mayLeave_init hn hv hψ hzero, ← List.append_nil (transfer carbon),
        mayLeave_transfer hcarbon hn hv hψ]
      rfl
    · norm_num [Amplitude.norm_eq]
    · exact congrArg Array.ofFn (funext fun i => transferred_of_carbon ψ hne hzero i)
  · let final := applied (Gate.rotY (-(Real.pi / 2))) e (transferred e c ψ)
    have hafter := (weight_transferred ψ hne).trans hψ
    have hfinal (one : Bool) : weight (projected e one final) = weight (projected c one ψ) :=
      weight_projected_of_electron ψ hne hzero one
    refine ⟨⟨v.qubits, .ofFn final, v.applied + 7⟩, fun w => ?_, ?_, fun one => ?_⟩
    · rw [toElectron, List.cons_append, mayLeave_init (p := 0) (by omega) hv hψ hzero,
        mayLeave_transfer hcarbon hn hv hψ]
      have hlast := StateVector.apply_ofFn (v := ⟨v.qubits, .ofFn (transferred e c ψ), v.applied + 6⟩) rfl hafter
        (Gate.rotY_unitary (-(Real.pi / 2))) e
      rw [← hlast]
      simp only [MayLeave, Move.MayLeave, reduceCtorEq, if_false, exists_eq_left]
      rfl
    · rw [StateVector.probabilityOne_ofFn rfl, StateVector.probabilityOne_ofFn hv, hfinal]
    · refine ⟨_, congrArg StateVector.amps (StateVector.collapse_ofFn hv c one), fun y => if y then 0 else phase one,
        ?_, ?_⟩
      · simp [norm_phase]
      · rw [StateVector.collapse_ofFn rfl, hfinal]
        exact congrArg Array.ofFn (funext fun i => scale_projected_of_electron ψ hne hzero one _ i)

/-- Three qubits that are zero or as given. -/
noncomputable def entangled (k i : Ket 3) : Amplitude ℝ := if i = 0 then ⟨3 / 5, 0⟩ else if i = k then ⟨0, 4 / 5⟩ else 0

theorem weight_entangled {k : Ket 3} (hk : k ≠ 0) : weight (entangled k) = 1 := by
  have hrest : ∀ i ∈ Finset.univ, i ≠ 0 ∧ i ≠ k → (entangled k i).norm = 0 := fun i _ hi => by
    simp [entangled, hi.1, hi.2]
  rw [weight, Finset.sum_eq_add 0 k hk.symm hrest (by simp) (by simp)]
  norm_num [entangled, hk, Amplitude.norm_eq]

/-- The electron, and then the carbon, is entangled with a third qubit. -/
theorem moves_keep_state_of_entangled :
    let electron : StateVector ℝ := ⟨3, .ofFn (entangled 5), 0⟩
    let carbon : StateVector ℝ := ⟨3, .ofFn (entangled 6), 0⟩
    (StateVector.normSquared electron.amps = 1 ∧ StateVector.normSquared carbon.amps = 1) ∧
      ((∀ i, i.bit 1 = true → entangled 5 i = 0) ∧ ∀ i, i.bit 0 = true → entangled 6 i = 0) ∧
      (∃ w, MayLeave (Real.pi / 2) StateVector.Possible 0 (toCarbon 1) electron w) ∧
      ∃ w, MayLeave (Real.pi / 2) StateVector.Possible 0 (toElectron 1) carbon w ∧
        w.probabilityOne 0 = carbon.probabilityOne 1 := by
  intro electron carbon
  have helectron : StateVector.normSquared electron.amps = 1 :=
    (normSquared_ofFn _).trans (weight_entangled (by decide))
  have hcarbon : StateVector.normSquared carbon.amps = 1 := (normSquared_ofFn _).trans (weight_entangled (by decide))
  have hzero {k : Ket 3} {q : Fin 3} (hk : k.bit q = false) (i : Ket 3) (hi : i.bit q = true) : entangled k i = 0 := by
    have hfirst : i ≠ 0 := by
      rintro rfl
      simp [Ket.bit] at hi
    have hsecond : i ≠ k := by
      rintro rfl
      simp [hk] at hi
    simp [entangled, hfirst, hsecond]
  have hfar : ∀ i : Ket 3, i.bit 1 = true → entangled 5 i = 0 := hzero (by decide)
  have hnear : ∀ i : Ket 3, i.bit 0 = true → entangled 6 i = 0 := hzero (by decide)
  have hn : 0 + 1 < 3 := by decide
  obtain ⟨w, hw, -⟩ := (moves_keep_state Nat.one_pos hn (v := electron) rfl helectron).1 hfar
  obtain ⟨w', hw', hp, -⟩ := (moves_keep_state Nat.one_pos hn (v := carbon) rfl hcarbon).2 hnear
  exact ⟨⟨helectron, hcarbon⟩, ⟨hfar, hnear⟩, ⟨w, (hw w).2 rfl⟩, w', (hw' w').2 rfl, hp⟩

end Relocation

end QuantumNode
