import Mathlib.Algebra.GroupWithZero.Nat
import Mathlib.Logic.Function.Basic
import QuantumNode.Quantum.StateVector

/-! Kernels update a vector of amplitudes in place, one pair of entries after another. Main statement: what they leave
is what an update of all entries at once would leave. -/
namespace QuantumNode

/-- Basis states of `n` qubits. -/
abbrev Ket (n : Nat) := Fin (2 ^ n)

namespace Ket

variable {n : Nat} (i : Ket n) (q : Fin n)

/-- Whether a qubit is one. -/
def bit : Bool := i.val.testBit q

/-- The basis state that differs in one qubit. -/
def flip : Ket n := ⟨i.val ^^^ 2 ^ q.val, Nat.xor_lt_two_pow i.isLt (Nat.pow_lt_pow_right (by decide) q.isLt)⟩

/-- Of the two basis states that differ in a qubit only, the one in which it is zero. -/
def low : Ket n := if i.bit q then i.flip q else i

@[simp] theorem bit_flip_self : (i.flip q).bit q = !i.bit q := by
  simp [bit, flip, Nat.testBit_xor]

theorem bit_flip_of_ne {r : Fin n} (h : q ≠ r) : (i.flip q).bit r = i.bit r := by
  have hne : q.val ≠ r.val := fun hv => h (Fin.ext hv)
  simp [bit, flip, Nat.testBit_xor, Nat.testBit_two_pow_of_ne hne]

@[simp] theorem flip_flip : (i.flip q).flip q = i := by
  apply Fin.ext
  simp only [flip, Nat.xor_assoc, Nat.xor_self, Nat.xor_zero]

theorem flip_ne : i.flip q ≠ i := by
  intro h
  have hbit := bit_flip_self i q
  rw [h] at hbit
  simp at hbit

@[simp] theorem low_flip : (i.flip q).low q = i.low q := by
  cases h : i.bit q <;> simp [low, h]

theorem low_eq_iff {k : Ket n} (hk : k.bit q = false) : i.low q = k ↔ i = k ∨ i = k.flip q := by
  cases h : i.bit q
  · have hne : i ≠ k.flip q := by
      rintro rfl
      simp [hk] at h
    simp [low, h, hne]
  · have hne : i ≠ k := by
      rintro rfl
      simp [hk] at h
    have hflip : i.flip q = k ↔ i = k.flip q := by
      constructor
      · rintro rfl
        simp
      · rintro rfl
        simp
    simp [low, h, hne, hflip]

theorem low_ne {k : Ket n} (hk : k.bit q = true) : i.low q ≠ k := by
  rintro rfl
  cases h : i.bit q <;> simp [low, h] at hk

/-- Setting a bit that is zero flips it. -/
theorem or_eq_flip (h : i.bit q = false) : i.val ||| 1 <<< q.val = (i.flip q).val := by
  apply Nat.eq_of_testBit_eq
  intro r
  by_cases hr : q.val = r
  · subst hr
    have hi : i.val.testBit q = false := h
    simp [flip, Nat.testBit_xor, Nat.one_shiftLeft, hi]
  · simp [flip, Nat.testBit_xor, Nat.one_shiftLeft, Nat.testBit_two_pow_of_ne hr]

end Ket

/-! ### Arrays by their entries -/

section Entries

variable {N : Nat} {α : Type} (ψ : Fin N → α)

theorem eq_ofFn {φ : Fin N → α} {amps : Array α} (hs : amps.size = N)
    (h : ∀ (i : Fin N) (hi : i.val < amps.size), amps[i.val] = φ i) : amps = Array.ofFn φ := by
  apply Array.ext
  · simp [hs]
  · intro i hi _
    rw [Array.getElem_ofFn]
    exact h ⟨i, hs ▸ hi⟩ hi

theorem setIfInBounds_ofFn (i : Fin N) (a : α) :
    (Array.ofFn ψ).setIfInBounds i a = Array.ofFn (Function.update ψ i a) := by
  apply eq_ofFn
  · simp
  · intro j _
    simp [Array.getElem_setIfInBounds, Function.update_apply, Fin.ext_iff, eq_comm]

theorem swapIfInBounds_ofFn (i j : Fin N) :
    (Array.ofFn ψ).swapIfInBounds i j = Array.ofFn fun k => if k = i then ψ j else if k = j then ψ i else ψ k := by
  rw [Array.swapIfInBounds_def, dif_pos (by simp), dif_pos (by simp)]
  apply eq_ofFn
  · simp
  · intro k _
    simp [Array.getElem_swap, Fin.ext_iff]

theorem modify_ofFn (i : Fin N) (f : α → α) :
    (Array.ofFn ψ).modify i f = Array.ofFn fun k => if k = i then f (ψ k) else ψ k := by
  apply eq_ofFn
  · simp
  · intro k _
    simp [Array.getElem_modify, Fin.ext_iff, eq_comm]

end Entries

/-! ### Loops that visit every entry once -/

section Sweep

variable {n : Nat} {α : Type}

/-- Rounds of a loop over basis states that updates a vector in place. Every entry has a round of its own: round `k`
writes the entries of round `k` and no others, and what it writes depends on the entries of round `k` and on no
others. -/
structure LoopRounds (body : Nat → Array α → Array α) (round : Ket n → Ket n) (new : (Ket n → α) → Ket n → α) :
    Prop where
  reads : ∀ (ψ φ : Ket n → α) (i : Ket n), (∀ j, round j = round i → ψ j = φ j) → new ψ i = new φ i
  writes : ∀ (k : Ket n) (ψ : Ket n → α), body k (.ofFn ψ) = .ofFn fun i => if round i = k then new ψ i else ψ i

/-- A kernel that consists of such rounds, one for each basis state. -/
def Sweeps (kernel : Array α → Array α) (round : Ket n → Ket n) (new : (Ket n → α) → Ket n → α) : Prop :=
  ∃ body, (∀ amps, kernel amps = amps.size.fold (fun k _ => body k) amps) ∧ LoopRounds body round new

variable {round : Ket n → Ket n} {new : (Ket n → α) → Ket n → α}

/-- After the first rounds the entries of these are new, and all others are still old. -/
theorem LoopRounds.fold {body : Nat → Array α → Array α} (h : LoopRounds body round new) (ψ : Ket n → α) {k : Nat}
    (hk : k ≤ 2 ^ n) :
    k.fold (fun k _ => body k) (Array.ofFn ψ) = .ofFn fun i => if (round i).val < k then new ψ i else ψ i := by
  induction k with
  | zero => simp
  | succ k ih =>
    rw [Nat.fold_succ, ih (Nat.le_of_succ_le hk), h.writes ⟨k, hk⟩]
    congr 1
    funext i
    by_cases hi : round i = ⟨k, hk⟩
    · -- The entries that this round reads are its own, which no earlier round has written.
      have hold : ∀ j, round j = round i → (if (round j).val < k then new ψ j else ψ j) = ψ j := by
        intro j hj
        simp [hj, hi]
      simp only [if_pos hi]
      rw [h.reads _ ψ i hold, if_pos (by simp [hi])]
    · have hne : (round i).val ≠ k := fun h => hi (Fin.ext h)
      have hlt : (round i).val < k + 1 ↔ (round i).val < k := by omega
      simp only [if_neg hi, hlt]

/-- At the end of the loop every entry is new, in terms of the vector as it was before the loop. -/
theorem Sweeps.eq {kernel : Array α → Array α} (h : Sweeps kernel round new) (ψ : Ket n → α) :
    kernel (.ofFn ψ) = .ofFn (new ψ) := by
  obtain ⟨body, hkernel, hrounds⟩ := h
  rw [hkernel, Array.size_ofFn, hrounds.fold ψ (Nat.le_refl _)]
  simp

end Sweep

/-! ### The kernels -/

namespace Kernel

variable {n : Nat} {α : Type} {control target : Fin n}

/-- A gate on the target qubit. -/
def applied [Add α] [Mul α] (u : Gate α) (target : Fin n) (ψ : Ket n → α) (i : Ket n) : α :=
  if i.bit target then u.u10 * ψ (i.flip target) + u.u11 * ψ i else u.u00 * ψ i + u.u01 * ψ (i.flip target)

/-- A gate on the target qubit where the control qubit is one. -/
def controlled [Add α] [Mul α] (u : Gate α) (control target : Fin n) (ψ : Ket n → α) (i : Ket n) : α :=
  if i.bit control then applied u target ψ i else ψ i

/-- Amplitudes that have changed places where the control qubit is one. -/
def flipped (control target : Fin n) (ψ : Ket n → α) (i : Ket n) : α :=
  ψ (if i.bit control then i.flip target else i)

/-- Amplitudes that are negated where both qubits are one. -/
def negated [Neg α] (control target : Fin n) (ψ : Ket n → α) (i : Ket n) : α :=
  if i.bit control && i.bit target then -ψ i else ψ i

/-- A vector that differs from an old one in the two entries of a round. -/
theorem ofFn_round {k : Ket n} (hk : k.bit target = false) {f new ψ : Ket n → α} (hlow : f k = new k)
    (hhigh : f (k.flip target) = new (k.flip target)) (hrest : ∀ i, i ≠ k → i ≠ k.flip target → f i = ψ i) :
    Array.ofFn f = .ofFn fun i : Ket n => if i.low target = k then new i else ψ i := by
  congr 1
  funext i
  simp only [Ket.low_eq_iff i target hk]
  by_cases hi : i = k
  · subst hi
    simp [hlow]
  · by_cases hj : i = k.flip target
    · subst hj
      simp [hhigh]
    · simp [hi, hj, hrest i hi hj]

theorem mix_ofFn [Add α] [Mul α] (u : Gate α) {k : Ket n} (hk : k.bit target = false) (ψ : Ket n → α) :
    mix u (.ofFn ψ) k (k.val ||| 1 <<< target.val) =
      .ofFn fun i : Ket n => if i.low target = k then applied u target ψ i else ψ i := by
  rw [k.or_eq_flip target hk]
  have hget (i : Ket n) : (Array.ofFn ψ)[i.val]? = some (ψ i) := by simp
  simp only [mix, hget, setIfInBounds_ofFn]
  apply ofFn_round hk
  · simp [applied, hk, (Ket.flip_ne k target).symm]
  · simp [applied, hk]
  · intro i hi hj
    rw [Function.update_of_ne hj, Function.update_of_ne hi]

/-- What a gate makes of an entry depends on the entries of its round. -/
theorem applied_congr [Add α] [Mul α] (u : Gate α) {ψ φ : Ket n → α} {i : Ket n}
    (h : ∀ j, j.low target = i.low target → ψ j = φ j) : applied u target ψ i = applied u target φ i := by
  simp only [applied, h i rfl, h (i.flip target) (i.low_flip target)]

theorem apply_sweeps [Add α] [Mul α] (u : Gate α) (target : Fin n) :
    Sweeps (apply u target) (Ket.low · target) (applied u target) := by
  refine ⟨fun k amps => if k.testBit target then amps else mix u amps k (k ||| 1 <<< target.val), fun _ => rfl, ?_, ?_⟩
  · intro _ _ _
    exact applied_congr u
  · intro k ψ
    cases hk : k.bit target
    · have hbit : k.val.testBit target = false := hk
      simp only [hbit, Bool.false_eq_true, if_false]
      exact mix_ofFn u hk ψ
    · have hbit : k.val.testBit target = true := hk
      simp [hbit, Ket.low_ne _ _ hk]

theorem bit_low (h : target ≠ control) (i : Ket n) : (i.low target).bit control = i.bit control := by
  cases hi : i.bit target <;> simp [Ket.low, hi, Ket.bit_flip_of_ne i target h]

/-- In a round in which the control qubit is zero nothing changes. -/
theorem idle_round {new : (Ket n → α) → Ket n → α} (h : target ≠ control) {k : Ket n} (hk : k.bit control = false)
    (ψ : Ket n → α) (hnew : ∀ i : Ket n, i.bit control = false → new ψ i = ψ i) :
    Array.ofFn ψ = .ofFn fun i : Ket n => if i.low target = k then new ψ i else ψ i := by
  congr 1
  funext i
  by_cases hi : i.low target = k
  · have hbit : i.bit control = false := by rw [← bit_low h, hi, hk]
    rw [if_pos hi, hnew i hbit]
  · rw [if_neg hi]

theorem applyControlled_sweeps [Add α] [Mul α] (u : Gate α) (h : control ≠ target) :
    Sweeps (applyControlled u control target) (Ket.low · target) (controlled u control target) := by
  refine ⟨fun k amps => if k.testBit control && !k.testBit target then mix u amps k (k ||| 1 <<< target.val) else amps,
    fun _ => rfl, ?_, ?_⟩
  · intro ψ φ i hi
    simp only [controlled, applied_congr u hi, hi i rfl]
  · intro k ψ
    have hc : k.val.testBit control = k.bit control := rfl
    have ht : k.val.testBit target = k.bit target := rfl
    simp only [hc, ht]
    cases hcontrol : k.bit control
    · exact idle_round h.symm hcontrol ψ fun i hi => by simp [controlled, hi]
    · cases htarget : k.bit target
      · refine (mix_ofFn u htarget ψ).trans ?_
        congr 1
        funext i
        by_cases hi : i.low target = k
        · have hbit : i.bit control = true := by rw [← bit_low h.symm, hi, hcontrol]
          simp [hi, controlled, hbit]
        · simp [hi]
      · simp [Ket.low_ne _ _ htarget]

theorem flip_sweeps (h : control ≠ target) :
    Sweeps (flip control target : Array α → Array α) (Ket.low · target) (flipped control target) := by
  refine ⟨fun k amps => if k.testBit control && !k.testBit target then
    amps.swapIfInBounds k (k ||| 1 <<< target.val) else amps, fun _ => rfl, ?_, ?_⟩
  · intro ψ φ i hi
    cases hbit : i.bit control
    · simp [flipped, hbit, hi i rfl]
    · simp [flipped, hbit, hi (i.flip target) (i.low_flip target)]
  · intro k ψ
    have hc : k.val.testBit control = k.bit control := rfl
    have ht : k.val.testBit target = k.bit target := rfl
    simp only [hc, ht]
    cases hcontrol : k.bit control
    · exact idle_round h.symm hcontrol ψ fun i hi => by simp [flipped, hi]
    · cases htarget : k.bit target
      · simp only [Bool.not_false, Bool.and_self, if_true]
        rw [k.or_eq_flip target htarget, swapIfInBounds_ofFn]
        apply ofFn_round htarget
        · simp [flipped, hcontrol]
        · simp [flipped, hcontrol, Ket.bit_flip_of_ne k target h.symm, Ket.flip_ne]
        · intro i hi hj
          simp [hi, hj]
      · simp [Ket.low_ne _ _ htarget]

theorem negate_sweeps [Neg α] (control target : Fin n) :
    Sweeps (negate control target : Array α → Array α) id (negated control target) := by
  refine ⟨fun k amps => if k.testBit control && k.testBit target then amps.modify k Neg.neg else amps,
    fun _ => rfl, ?_, ?_⟩
  · intro ψ φ i hi
    simp only [negated, hi i rfl]
  · intro k ψ
    have hbits : (k.val.testBit control && k.val.testBit target) = (k.bit control && k.bit target) := rfl
    simp only [hbits, id]
    cases hk : k.bit control && k.bit target
    · simp only [Bool.false_eq_true, if_false]
      congr 1
      funext i
      by_cases hi : i = k
      · subst hi
        simp [negated, hk]
      · simp [hi]
    · simp only [if_true]
      rw [modify_ofFn]
      congr 1
      funext i
      by_cases hi : i = k
      · subst hi
        simp [negated, hk]
      · simp [hi]

/-- Amplitudes that are cleared where the qubit is not as asked. -/
def projected [Zero α] (target : Fin n) (one : Bool) (ψ : Ket n → α) (i : Ket n) : α :=
  if i.bit target = one then ψ i else 0

theorem project_sweeps [Zero α] (target : Fin n) (one : Bool) :
    Sweeps (project target one : Array α → Array α) id (projected target one) := by
  refine ⟨fun k amps => if k.testBit target == one then amps else amps.setIfInBounds k 0, fun _ => rfl, ?_, ?_⟩
  · intro ψ φ i hi
    simp only [projected, hi i rfl]
  · intro k ψ
    have hbit : k.val.testBit target = k.bit target := rfl
    simp only [hbit, id, beq_iff_eq]
    split
    · next hk =>
      congr 1
      funext i
      by_cases hi : i = k
      · subst hi
        simp [projected, hk]
      · simp [hi]
    · next hk =>
      rw [setIfInBounds_ofFn]
      congr 1
      funext i
      by_cases hi : i = k
      · subst hi
        simp [projected, hk]
      · simp [hi]

end Kernel

/-! ### Vectors -/

namespace StateVector

variable {R : Type} {n : Nat}

/-- The amplitudes of a vector for `n` qubits. -/
def amplitude (v : StateVector R) (hv : v.amps.size = 2 ^ n) (i : Ket n) : Amplitude R :=
  have hi : i.val < v.amps.size := Nat.lt_of_lt_of_eq i.isLt hv.symm
  v.amps[i.val]

theorem amps_eq (v : StateVector R) (hv : v.amps.size = 2 ^ n) : v.amps = .ofFn (v.amplitude hv) := by
  apply eq_ofFn hv
  intro i _
  rfl

/-- Gates, controlled gates, flips and negations update a vector of any number of qubits in place, for any target, for
any control but the target and for any coefficients, and leave what a simultaneous update would: each entry is given by
entries of the vector as it was before. No entry is read after it was written, and none is written twice. -/
theorem kernels_update_at_once [RealScalar R] (v : StateVector R) (hv : v.amps.size = 2 ^ n) (u : Gate (Amplitude R))
    (target : Fin n) :
    let amp : Ket n → Amplitude R := v.amplitude hv
    (v.apply u target = v.afterGate (.ofFn fun i : Ket n =>
        if i.bit target then u.u10 * amp (i.flip target) + u.u11 * amp i
        else u.u00 * amp i + u.u01 * amp (i.flip target)) ∧
      ∀ control : Fin n, control ≠ target →
        v.applyControlled u control target = v.afterGate (.ofFn fun i : Ket n =>
          if i.bit control then
            if i.bit target then u.u10 * amp (i.flip target) + u.u11 * amp i
            else u.u00 * amp i + u.u01 * amp (i.flip target)
          else amp i) ∧
        v.cnot control target =
          { v with amps := .ofFn fun i : Ket n => amp (if i.bit control then i.flip target else i) } ∧
        v.cz control target =
          { v with amps := .ofFn fun i : Ket n => if i.bit control && i.bit target then -amp i else amp i }) ∧
    Sweeps (Kernel.apply u target) (Ket.low · target) (Kernel.applied u target) ∧
      ∀ control : Fin n, control ≠ target →
        Sweeps (Kernel.applyControlled u control target) (Ket.low · target) (Kernel.controlled u control target) ∧
        Sweeps (Kernel.flip control target : Array (Amplitude R) → Array (Amplitude R)) (Ket.low · target)
          (Kernel.flipped control target) ∧
        Sweeps (Kernel.negate control target : Array (Amplitude R) → Array (Amplitude R)) id
          (Kernel.negated control target) := by
  intro amp
  have hamps : v.amps = .ofFn amp := v.amps_eq hv
  refine ⟨⟨?_, ?_⟩, Kernel.apply_sweeps u target, ?_⟩
  · rw [apply, hamps, (Kernel.apply_sweeps u target).eq]
    rfl
  · intro control hne
    have hne' : control.val ≠ target.val := fun h => hne (Fin.ext h)
    refine ⟨?_, ?_, ?_⟩
    · rw [applyControlled, if_neg hne', hamps, (Kernel.applyControlled_sweeps u hne).eq]
      rfl
    · rw [cnot, if_neg hne', hamps, (Kernel.flip_sweeps hne).eq]
      rfl
    · rw [cz, if_neg hne', hamps, (Kernel.negate_sweeps control target).eq]
      rfl
  · intro control hne
    exact ⟨Kernel.applyControlled_sweeps u hne, Kernel.flip_sweeps hne, Kernel.negate_sweeps control target⟩

theorem kernels_update_at_once_on_two_qubits :
    let v : StateVector Float := ⟨2, #[⟨1, 0⟩, ⟨2, 0⟩, ⟨3, 0⟩, ⟨4, 0⟩], 0⟩
    let control : Fin 2 := 1
    let target : Fin 2 := 0
    v.amps.size = 2 ^ 2 ∧ control ≠ target ∧
      (v.cnot control target).amps[1]? = some ⟨2, 0⟩ ∧ (v.cnot control target).amps[3]? = some ⟨3, 0⟩ := by
  intro v control target
  have hv : v.amps.size = 2 ^ 2 := rfl
  have hne : control ≠ target := by decide
  obtain ⟨⟨-, hcontrolled⟩, -⟩ := v.kernels_update_at_once hv Gate.x target
  obtain ⟨-, hcnot, -⟩ := hcontrolled control hne
  have hentry (i : Ket 2) : (v.cnot control target).amps[i.val]? =
      some (v.amplitude hv (if i.bit control then i.flip target else i)) := by
    rw [hcnot]
    simp
  have hstays : (if Ket.bit 1 control then Ket.flip 1 target else 1 : Ket 2) = 1 := by decide
  have hmoves : (if Ket.bit 3 control then Ket.flip 3 target else 3 : Ket 2) = 2 := by decide
  refine ⟨hv, hne, (hentry 1).trans ?_, (hentry 3).trans ?_⟩
  · rw [hstays]
    rfl
  · rw [hmoves]
    rfl

end StateVector

end QuantumNode
