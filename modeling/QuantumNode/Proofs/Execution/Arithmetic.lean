import QuantumNode.Proofs.Execution.Intact
import Mathlib.Data.Int.ModEq

/-! Sums and differences are those of the integers. No result on the way to one is beyond its word, and so it does not matter
what becomes of results that are. -/
namespace QuantumNode

open Node Work Working

/-! ### Words -/

namespace Words

/-- Whatever becomes of the others, a result that fits is kept. -/
structure Keeps {m : Type → Type} [Monad m] (w : Words m) : Prop where
  signed {v : Int} (h : Word.fitsSigned64 v = true) : w.signed v = pure v
  unsigned {v : Int} (h₀ : 0 ≤ v) (h : v < Word.size64) : w.unsigned v = pure v
  divisor {d : Int} (h : d ≠ 0) : w.divisor d = pure ()

theorem wrapping_keeps : wrapping.Keeps where
  signed h := Word.signed64_of_fits h
  unsigned h₀ h := by
    change ((_ : Nat) : Int) = _
    rw [Word.unsigned64, Int.emod_eq_of_lt h₀ h, Int.toNat_of_nonneg h₀]
    rfl
  divisor _ := rfl

theorem checked_keeps : checked.Keeps where
  signed h := if_pos h
  unsigned h₀ h := if_pos ⟨h₀, h⟩
  divisor h := if_neg h

/-- Dividing by a positive number brings a word closer to zero. -/
theorem fits_tdiv {a d : Int} (ha : Word.fitsSigned64 a = true) (hd : 0 < d) : Word.fitsSigned64 (a.tdiv d) = true := by
  rw [Word.fitsSigned64_iff] at ha ⊢
  have habs := Int.natAbs_tdiv_le_natAbs a d
  rcases Int.le_total 0 a with h | h
  · have := Int.tdiv_nonneg h hd.le
    omega
  · have := Int.tdiv_nonneg (Int.neg_nonneg_of_nonpos h) hd.le
    rw [Int.neg_tdiv] at this
    omega

/-- A negative remainder is one modulus below the residue. -/
theorem lifted_tmod (a : Int) {d : Int} (hd : 0 < d) : a.tmod d + (if a.tmod d < 0 then d else 0) = a % d := by
  have hlt := Int.tmod_lt_of_pos a hd
  have hgt := Int.lt_tmod_of_pos a hd
  have hmod : a.tmod d % d = a % d := by rw [Int.tmod_def, Int.sub_mul_emod_self_left]
  split
  · rw [← hmod, ← Int.add_emod_right, Int.emod_eq_of_lt (by omega) (by omega)]
  · rw [← hmod, Int.add_zero, Int.emod_eq_of_lt (by omega) hlt]

variable {m : Type → Type} [Monad m] [LawfulMonad m] {w : Words m} {a b d : Int}

theorem residue_eq (hw : w.Keeps) (ha : Word.fitsSigned64 a = true) (hd : 0 < d) (hfits : Word.fitsSigned64 d = true) :
    w.residue a d = pure (a % d) := by
  have hlt := Int.tmod_lt_of_pos a hd
  have hgt := Int.lt_tmod_of_pos a hd
  have hr₀ := Int.emod_nonneg a hd.ne'
  have hr := Int.emod_lt_of_pos a hd
  have hq := fits_tdiv ha hd
  rw [Word.fitsSigned64_iff] at hfits
  have htmod : Word.fitsSigned64 (a.tmod d) = true := Word.fitsSigned64_iff.2 (by omega)
  have hresidue : Word.fitsSigned64 (a % d) = true := Word.fitsSigned64_iff.2 (by omega)
  simp only [residue, remainder, hw.divisor hd.ne', hw.signed hq, hw.signed htmod, pure_bind, lifted_tmod a hd,
    hw.signed hresidue, hw.unsigned hr₀ (hr.trans (by rw [Word.size64]; omega))]

/-- Sums of residues are unsigned words. -/
theorem modular_eq (hw : w.Keeps) (op : ArithmeticOp) (ha : Word.fitsSigned64 a = true) (hb : Word.fitsSigned64 b = true)
    (hd : 0 < d) (hfits : Word.fitsSigned64 d = true) : w.modular op a b d = pure (op.apply a b % d) := by
  have hx₀ := Int.emod_nonneg a hd.ne'
  have hx := Int.emod_lt_of_pos a hd
  have hy₀ := Int.emod_nonneg b hd.ne'
  have hy := Int.emod_lt_of_pos b hd
  have hr₀ := Int.emod_nonneg (op.apply a b) hd.ne'
  have hr := Int.emod_lt_of_pos (op.apply a b) hd
  have hd64 := Word.fitsSigned64_iff.1 hfits
  have hresult : Word.fitsSigned64 (op.apply a b % d) = true := Word.fitsSigned64_iff.2 (by omega)
  have hword {v : Int} (h₀ : 0 ≤ v) (h : v < 2 * d) : w.unsigned v = pure v :=
    hw.unsigned h₀ (by rw [Word.size64]; omega)
  cases op with
  | add =>
    have htotal : (a % d + b % d) % d = (a + b) % d := (Int.add_emod a b d).symm
    simp only [modular, hword hd.le (by omega), residue_eq hw ha hd hfits, residue_eq hw hb hd hfits,
      hword (Int.add_nonneg hx₀ hy₀) (by omega), hw.divisor hd.ne', pure_bind, htotal, ArithmeticOp.apply] at hresult ⊢
    exact hw.signed hresult
  | sub =>
    have htotal : (a % d + (d - b % d)) % d = (a - b) % d := by
      rw [Int.sub_emod, ← Int.add_emod_right (a % d - b % d)]
      congr 1
      omega
    simp only [modular, hword hd.le (by omega), residue_eq hw ha hd hfits, residue_eq hw hb hd hfits,
      hword (v := d - b % d) (by omega) (by omega), hword (v := a % d + (d - b % d)) (by omega) (by omega),
      hw.divisor hd.ne', pure_bind, htotal, ArithmeticOp.apply] at hresult ⊢
    exact hw.signed hresult

/-- The bounds with which an operand is compared are words themselves. -/
theorem overflows_eq (hw : w.Keeps) (op : ArithmeticOp) (ha : Word.fitsSigned64 a = true) (hb : Word.fitsSigned64 b = true) :
    w.overflows op a b = pure (!Word.fitsSigned64 (op.apply a b)) := by
  rw [Word.fitsSigned64_iff] at ha hb
  have hbound {v : Int} (h : -0x8000000000000000 ≤ v ∧ v ≤ 0x7fffffffffffffff) : w.signed v = pure v :=
    hw.signed (Word.fitsSigned64_iff.2 h)
  have hverdict {c : Prop} [Decidable c]
      (h : c ↔ ¬ (-0x8000000000000000 ≤ op.apply a b ∧ op.apply a b ≤ 0x7fffffffffffffff)) :
      (pure (decide c) : m Bool) = pure (!Word.fitsSigned64 (op.apply a b)) := by
    congr 1
    rw [Bool.eq_iff_iff, decide_eq_true_iff, Bool.not_eq_true', ← Bool.not_eq_true, Word.fitsSigned64_iff]
    exact h
  have hnone (h : -0x8000000000000000 ≤ op.apply a b ∧ op.apply a b ≤ 0x7fffffffffffffff) :
      (pure false : m Bool) = pure (!Word.fitsSigned64 (op.apply a b)) := by
    rw [Word.fitsSigned64_iff.2 h, Bool.not_true]
  cases op with
  | add =>
    simp only [ArithmeticOp.apply] at hverdict hnone ⊢
    simp only [overflows, Word.greatest64, Word.least64]
    rcases Int.lt_trichotomy b 0 with h | rfl | h
    · rw [if_neg (by omega), if_pos h, hbound (by omega), pure_bind]
      exact hverdict (by omega)
    · rw [if_neg (by omega), if_neg (by omega)]
      exact hnone (by omega)
    · rw [if_pos h, hbound (by omega), pure_bind]
      exact hverdict (by omega)
  | sub =>
    simp only [ArithmeticOp.apply] at hverdict hnone ⊢
    simp only [overflows, Word.greatest64, Word.least64]
    rcases Int.lt_trichotomy b 0 with h | rfl | h
    · rw [if_pos h, hbound (by omega), pure_bind]
      exact hverdict (by omega)
    · rw [if_neg (by omega), if_neg (by omega)]
      exact hnone (by omega)
    · rw [if_neg (by omega), if_pos h, hbound (by omega), pure_bind]
      exact hverdict (by omega)

theorem total_eq (hw : w.Keeps) (op : ArithmeticOp) (ha : Word.fitsSigned64 a = true) (hb : Word.fitsSigned64 b = true) :
    w.total op a b = pure (if Word.fitsSigned64 (op.apply a b) then some (op.apply a b) else none) := by
  rw [total, overflows_eq hw op ha hb, pure_bind]
  cases h : Word.fitsSigned64 (op.apply a b) with
  | false => rfl
  | true => simp [hw.signed h]

end Words

/-! ### Instructions -/

namespace Execution

variable {n m : Nat} {p : ProcessId} {s : Subroutine} {w w' : Working (Node n m) n m} {mem : AppMemory} {app : Int}
  {i : Instruction} {op : ArithmeticOp} {dest : Register} {left right modulus : Value} {a b d r : Int}

/-- The memory of one application differs in one register and the program counter, and other memories do not. -/
def Stored (app : Int) (dest : Register) (r : Int) (w w' : Working (Node n m) n m) : Prop :=
  ∃ mem mem', w.part.apps.get? app = some mem ∧ mem.setRegister dest (some r) = .ok mem' ∧
    ∀ a, w'.part.apps.get? a = if a = app then some mem'.incrementPc else w.part.apps.get? a

/-- An instruction that computes a number. It is refused just when there is no such number, and then changes nothing;
otherwise it stores the only one there is, and the next instruction is fetched. -/
structure Computes (p : ProcessId) (s : Subroutine) (dest : Register) (w : Working (Node n m) n m) (refused : Prop)
    (Result : Int → Prop) : Prop where
  refuses : (∃ f w', (step p ⟨s, .fetch⟩).exec w = (.error f, w') ∧ f.kind = .arithmetic) ↔ refused
  unchanged : Halts (step p ⟨s, .fetch⟩) w (Intact w)
  stores : ¬ refused → ∃ r, (∀ x, Result x ↔ x = r) ∧
    Attains (step p ⟨s, .fetch⟩) w fun flow w' => flow = .go ⟨s, .fetch⟩ ∧ Stored s.appId dest r w w'

theorem Computes.of_breaks {refused : Prop} {Result : Int → Prop} (h : refused)
    (hb : Breaks (step p ⟨s, .fetch⟩) w fun f w' => f.kind = .arithmetic ∧ Intact w w') : Computes p s dest w refused Result := by
  obtain ⟨f, w', hx, hf, hi⟩ := hb
  refine ⟨iff_of_true ⟨f, w', hx, hf⟩ h, fun f₁ w₁ hx₁ => ?_, fun hno => absurd h hno⟩
  obtain ⟨-, rfl⟩ := Prod.mk.inj (hx.symm.trans hx₁)
  exact hi

theorem Computes.of_attains {refused : Prop} {Result : Int → Prop} (h : ¬ refused) (hr : ∀ x, Result x ↔ x = r)
    (ha : Attains (step p ⟨s, .fetch⟩) w fun flow w' => flow = .go ⟨s, .fetch⟩ ∧ Stored s.appId dest r w w') :
    Computes p s dest w refused Result := by
  refine ⟨iff_of_false ?_ h, ha.halts, fun _ => ⟨r, hr, ha⟩⟩
  rintro ⟨f, w', hx, -⟩
  exact ha.halts (P := fun _ => False) f w' hx

theorem exec_arithmetic (hmem : w.part.apps.get? app = some mem) (ha : mem.resolve left = .ok a) (hb : mem.resolve right = .ok b)
    (hfa : Word.fitsSigned64 a = true) (hfb : Word.fitsSigned64 b = true) (h : Word.fitsSigned64 (op.apply a b) = true) :
    (arithmetic app i op left right : NodeWork n m Int).exec w = (.ok (op.apply a b), w) := by
  have htotal : (Words.wrapping.total op a b).run = some (op.apply a b) :=
    (Words.total_eq Words.wrapping_keeps op hfa hfb).trans (if_pos h)
  refine (exec_bind_of_ok (exec_resolve_of_ok hmem ha)).trans <| (exec_bind_of_ok (exec_resolve_of_ok hmem hb)).trans ?_
  rw [htotal]
  rfl

theorem arithmetic_breaks (hmem : w.part.apps.get? app = some mem) (ha : mem.resolve left = .ok a)
    (hb : mem.resolve right = .ok b) (hfa : Word.fitsSigned64 a = true) (hfb : Word.fitsSigned64 b = true)
    (h : ¬ Word.fitsSigned64 (op.apply a b) = true) :
    Breaks (arithmetic app i op left right) w fun f w' => f.kind = .arithmetic ∧ Intact w w' := by
  have htotal : (Words.wrapping.total op a b).run = none :=
    (Words.total_eq Words.wrapping_keeps op hfa hfb).trans (if_neg h)
  refine .next (exec_resolve_of_ok hmem ha) <| .next (exec_resolve_of_ok hmem hb) ?_
  rw [htotal]
  exact .bind <| ((log_attains _ _ _).within (log_mild (R := Intact) _ _ _)).mono fun _ _ h => .fail ⟨rfl, h.1⟩

theorem exec_modular (hmem : w.part.apps.get? app = some mem) (hd : mem.resolve modulus = .ok d)
    (ha : mem.resolve left = .ok a) (hb : mem.resolve right = .ok b) (hfd : Word.fitsSigned64 d = true)
    (hfa : Word.fitsSigned64 a = true) (hfb : Word.fitsSigned64 b = true) (h : ¬ d < 1) :
    (modular app i op left right modulus : NodeWork n m Int).exec w = (.ok (op.apply a b % d), w) := by
  have hmodular : (Words.wrapping.modular op a b d).run = op.apply a b % d :=
    Words.modular_eq Words.wrapping_keeps op hfa hfb (Int.not_lt.1 h) hfd
  refine (exec_bind_of_ok (exec_resolve_of_ok hmem hd)).trans ?_
  rw [if_neg h]
  refine (exec_bind_of_ok (exec_resolve_of_ok hmem ha)).trans <| (exec_bind_of_ok (exec_resolve_of_ok hmem hb)).trans ?_
  rw [hmodular]
  rfl

theorem modular_breaks (hmem : w.part.apps.get? app = some mem) (hd : mem.resolve modulus = .ok d) (h : d < 1) :
    Breaks (modular app i op left right modulus) w fun f w' => f.kind = .arithmetic ∧ Intact w w' := by
  refine .next (exec_resolve_of_ok hmem hd) ?_
  rw [if_pos h]
  exact .bind <| ((log_attains _ _ _).within (log_mild (R := Intact) _ _ _)).mono fun _ _ h => .fail ⟨rfl, h.1⟩

/-- What is done with a number that is computed. -/
def storing (s : Subroutine) (dest : Register) (x : NodeWork n m Int) : NodeWork n m (Step m) := do
  (do setRegister s.appId dest (some (← x)))
  advance s.appId
  return .go ⟨s, .fetch⟩

theorem storing_attains {x : NodeWork n m Int} (hmem : w.part.apps.get? s.appId = some mem) (hdest : dest.Legible)
    (hx : x.exec w = (.ok r, w)) :
    Attains (storing s dest x) w fun flow w' => flow = .go ⟨s, .fetch⟩ ∧ Stored s.appId dest r w w' := by
  obtain ⟨slot, hslot⟩ := Register.slot?_of_legible hdest
  have hset : mem.setRegister dest (some r) = .ok { mem with registers := mem.registers.set slot (some r) slot.isLt } := by
    simp only [AppMemory.setRegister, hslot]
  refine .bind <| .next hx <| (updateMemory_attains hmem hset).mono fun _ w₁ h₁ => ?_
  have hmem₁ : w₁.part.apps.get? s.appId = some { mem with registers := mem.registers.set slot (some r) slot.isLt } := by
    rw [h₁]
    exact SortedMap.get?_insert_self _ _ _
  refine .bind <| (setPc_attains hmem₁ _).mono fun _ w₂ h₂ => .pure ⟨rfl, _, _, hmem, hset, fun a => ?_⟩
  subst h₂ h₁
  split
  · rename_i ha
    subst ha
    exact SortedMap.get?_insert_self _ _ _
  · rename_i ha
    exact (SortedMap.get?_insert_of_ne _ ha _).trans (SortedMap.get?_insert_of_ne _ ha _)

theorem Stored.of_intact {w₁ : Working (Node n m) n m} (h : Stored app dest r w₁ w') (hi : Intact w w₁) :
    Stored app dest r w w' := by
  rw [Stored, hi.apps] at h
  exact h

/-- An instruction that stores what it computes is refused when there is nothing to compute. -/
theorem Computes.of_storing {w₁ : Working (Node n m) n m} {x : NodeWork n m Int} {refused : Prop} {Result : Int → Prop}
    (hi : Intact w w₁) (hx : (step p ⟨s, .fetch⟩).exec w = (storing s dest x).exec w₁) (hdest : dest.Legible)
    (hmem : w.part.apps.get? s.appId = some mem)
    (hno : refused → Breaks x w₁ fun f w' => f.kind = .arithmetic ∧ Intact w₁ w')
    (hok : ¬ refused → x.exec w₁ = (.ok r, w₁)) (hr : ¬ refused → ∀ y, Result y ↔ y = r) :
    Computes p s dest w refused Result := by
  have hmem₁ : w₁.part.apps.get? s.appId = some mem := by rw [hi.apps, hmem]
  by_cases h : refused
  · obtain ⟨f, w', hb, hf, hi'⟩ : Breaks (storing s dest x) w₁ fun f w' => f.kind = .arithmetic ∧ Intact w₁ w' :=
      .first (.first (hno h))
    exact .of_breaks h ⟨f, w', hx.trans hb, hf, IsTrans.trans _ _ _ hi hi'⟩
  · obtain ⟨flow, w', ha, hflow, hstored⟩ := storing_attains hmem₁ hdest (hok h)
    exact .of_attains h (hr h) ⟨flow, w', hx.trans ha, hflow, hstored.of_intact hi⟩

/-- The arithmetic of the integers: `add` and `sub` store the sum and the difference, and are refused just when that is not
a word; `addm` and `subm` store its residue, and are refused just when the modulus is less than one. No result on the way,
the bounds of the test for overflow included, is beyond its word, and nothing is divided by zero. -/
theorem arithmetic_is_exact {text : String} (hs : Subroutine.parse text = .ok s) (hmem : w.part.apps.get? s.appId = some mem)
    (hi : s.instructions[mem.pc]? = some i) (op : ArithmeticOp) (dest : Register) {left right : Value}
    (ha : mem.resolve left = .ok a) (hb : mem.resolve right = .ok b) (hfa : Word.fitsSigned64 a = true)
    (hfb : Word.fitsSigned64 b = true) :
    (i = .arithmetic op dest left right →
      Computes p s dest w (¬ Word.fitsSigned64 (op.apply a b) = true) (· = op.apply a b) ∧
      (Words.checked.total op a b).isSome = true) ∧
    ∀ modulus d, mem.resolve modulus = .ok d → Word.fitsSigned64 d = true → i = .modular op dest left right modulus →
      Computes p s dest w (d < 1) (fun r => 0 ≤ r ∧ r < d ∧ r ≡ op.apply a b [ZMOD d]) ∧
      (1 ≤ d → (Words.checked.modular op a b d).isSome = true) := by
  obtain ⟨w₁, h₁, hx⟩ := exec_fetch (p := p) hmem hi
  have hmem₁ : w₁.part.apps.get? s.appId = some mem := by rw [h₁.apps, hmem]
  have hlegible : i.Legible := (Subroutine.legible_of_parse hs).instructions i (List.mem_of_getElem? hi)
  constructor
  · rintro rfl
    have hdest : dest.Legible := hlegible (.register dest) List.mem_cons_self
    constructor
    · exact .of_storing h₁ hx hdest hmem (fun h => arithmetic_breaks hmem₁ ha hb hfa hfb h)
        (fun h => exec_arithmetic hmem₁ ha hb hfa hfb (not_not.1 h)) fun _ _ => Iff.rfl
    · rw [Words.total_eq Words.checked_keeps op hfa hfb]
      rfl
  · rintro modulus d hd hfd rfl
    have hdest : dest.Legible := hlegible (.register dest) List.mem_cons_self
    constructor
    · refine .of_storing h₁ hx hdest hmem (fun h => modular_breaks hmem₁ hd h)
        (fun h => exec_modular hmem₁ hd ha hb hfd hfa hfb h) fun h r => ?_
      have hpos : 0 < d := Int.not_lt.1 h
      constructor
      · rintro ⟨h₀, hlt, hmod⟩
        rwa [Int.ModEq, Int.emod_eq_of_lt h₀ hlt] at hmod
      · rintro rfl
        exact ⟨Int.emod_nonneg _ hpos.ne', Int.emod_lt_of_pos _ hpos, Int.mod_modEq _ _⟩
    · intro h
      rw [Words.modular_eq Words.checked_keeps op hfa hfb h hfd]
      rfl

/-- Operands next to the greatest modulus, and a difference that is one below the least word. -/
theorem arithmetic_is_exact_at_the_limits :
    let s : Subroutine := ⟨0, "1.0", [.modular .add ⟨.R, 1⟩ (.literal 9223372036854775806) (.literal 9223372036854775806)
      (.literal 9223372036854775807)]⟩
    let s' : Subroutine := ⟨0, "1.0", [.arithmetic .sub ⟨.R, 0⟩ (.literal (-9223372036854775808)) (.literal 1)]⟩
    let w := (lone 0 1).atWork
    Subroutine.parse "ADDM R1 9223372036854775806 9223372036854775806 9223372036854775807" = .ok s ∧
    Subroutine.parse "SUB R0 -9223372036854775808 1" = .ok s' ∧
    (Attains (step 0 ⟨s, .fetch⟩) w fun _ w' => Stored 0 ⟨.R, 1⟩ 9223372036854775805 w w') ∧
    ∃ f w', (step 0 ⟨s', .fetch⟩).exec w = (.error f, w') ∧ f.kind = .arithmetic := by
  intro s s' w
  have hs : Subroutine.parse "ADDM R1 9223372036854775806 9223372036854775806 9223372036854775807" = .ok s := by
    decide +kernel
  have hs' : Subroutine.parse "SUB R0 -9223372036854775808 1" = .ok s' := by decide +kernel
  have hmem : w.part.apps.get? 0 = some (.new 0 1) := rfl
  have hsum := ((arithmetic_is_exact (p := 0) hs hmem rfl .add ⟨.R, 1⟩ (a := 9223372036854775806) (b := 9223372036854775806)
    rfl rfl (by decide) (by decide)).2 (.literal 9223372036854775807) 9223372036854775807 rfl (by decide) rfl).1
  have hdifference := ((arithmetic_is_exact (p := 0) hs' hmem rfl .sub ⟨.R, 0⟩ (a := -9223372036854775808) (b := 1)
    rfl rfl (by decide) (by decide)).1 rfl).1
  obtain ⟨r, hr, hstored⟩ := hsum.stores (by decide)
  obtain rfl : 9223372036854775805 = r := (hr _).1 (by decide)
  exact ⟨hs, hs', hstored.mono fun _ _ h => h.2, hdifference.refuses.2 (by decide)⟩

end Execution

end QuantumNode
