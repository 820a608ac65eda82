import QuantumNode.Proofs.Node.Books
import QuantumNode.Proofs.Node.Service

/-! What a pair service writes to memories: the row of the pair that it has, and where the half of that pair is. -/
namespace QuantumNode

open Node Work Working

variable {n m : Nat}

/-- Memories that differ in one row of an array of results, and in what they map. -/
structure AppMemory.Jots (a : Int) (k : Nat) (mem mem' : AppMemory) : Prop where
  registers : mem'.registers = mem.registers
  pc : mem'.pc = mem.pc
  others : ∀ b, b ≠ a → mem'.arrays.get? b = mem.arrays.get? b
  size : (mem'.arrays.get? a).map Array.size = (mem.arrays.get? a).map Array.size
  entries : ∀ vs vs', mem.arrays.get? a = some vs → mem'.arrays.get? a = some vs' →
    ∀ i, i < rowLength * k ∨ rowLength * (k + 1) ≤ i → vs'[i]? = vs[i]?

namespace AppMemory.Jots

variable {a : Int} {k : Nat} {mem mem' mem'' : AppMemory}

theorem of_arrays (hr : mem'.registers = mem.registers) (hp : mem'.pc = mem.pc) (ha : mem'.arrays = mem.arrays) :
    mem.Jots a k mem' := by
  refine ⟨hr, hp, fun b _ => by rw [ha], by rw [ha], fun vs vs' hvs hvs' i _ => ?_⟩
  rw [ha, hvs] at hvs'
  cases hvs'
  rfl

theorem trans (h : mem.Jots a k mem') (h' : mem'.Jots a k mem'') : mem.Jots a k mem'' := by
  refine ⟨h'.registers.trans h.registers, h'.pc.trans h.pc, fun b hb => (h'.others b hb).trans (h.others b hb),
    h'.size.trans h.size, fun vs vs'' hvs hvs'' i hi => ?_⟩
  have hsize := h.size
  rw [hvs] at hsize
  obtain ⟨vs', hvs', -⟩ := Option.map_eq_some_iff.1 hsize
  exact (h'.entries vs' vs'' hvs' hvs'' i hi).trans (h.entries vs vs' hvs hvs' i hi)

/-- An entry of the row is set. -/
theorem of_setArrayValue {i : Nat} {v : Option Int} (hi : i < rowLength)
    (h : mem.setArrayValue a (rowLength * k + i) v = .ok mem') : mem.Jots a k mem' := by
  obtain ⟨vs, hvs, h⟩ := bind_ok h
  have hvs : mem.arrays.get? a = some vs := by
    unfold AppMemory.array at hvs
    split at hvs
    · rename_i hget
      cases hvs
      exact hget
    · exact nomatch hvs
  split at h
  · cases h
    have hself : (mem.arrays.insert a (vs.setIfInBounds ((rowLength : Int) * k + i).toNat v)).get? a =
        some (vs.setIfInBounds ((rowLength : Int) * k + i).toNat v) := SortedMap.get?_insert_self ..
    refine ⟨rfl, rfl, fun b hb => SortedMap.get?_insert_of_ne _ hb _, ?_, fun us us' hus hus' j hj => ?_⟩
    · rw [hself, hvs]
      exact congrArg some Array.size_setIfInBounds
    · rw [hself] at hus'
      rw [hvs] at hus
      cases hus
      cases hus'
      refine Array.getElem?_setIfInBounds_ne ?_
      rw [Nat.mul_succ] at hj
      omega
  · exact nomatch h

/-- Arrays keep their lengths. -/
theorem sizes (h : mem.Jots a k mem') (b : Int) : (mem'.arrays.get? b).map Array.size = (mem.arrays.get? b).map Array.size := by
  by_cases hb : b = a
  · rw [hb]
    exact h.size
  · rw [h.others b hb]

end AppMemory.Jots

/-- The memory of the application of a request may have one row of results written, and its map of qubits changed; every
other memory is left alone. -/
def Working.Jots (r : EntanglementRequest) (k : Nat) (w w' : Working (Node n m) n m) : Prop :=
  (∀ app, app ≠ r.app → w'.part.apps.get? app = w.part.apps.get? app) ∧
    (w.part.apps.get? r.app = none → w'.part.apps.get? r.app = none) ∧
    ∀ mem, w.part.apps.get? r.app = some mem →
      ∃ mem', w'.part.apps.get? r.app = some mem' ∧ mem.Jots r.resultArray k mem'

namespace Working.Jots

variable {r : EntanglementRequest} {k : Nat} {w w' w'' : Working (Node n m) n m}

theorem of_apps (h : w'.part.apps = w.part.apps) : Jots r k w w' := by
  refine ⟨fun app _ => by rw [h], fun hn => by rw [h, hn], fun mem hmem => ⟨mem, by rw [h, hmem], ?_⟩⟩
  exact .of_arrays rfl rfl rfl

theorem trans (h : Jots r k w w') (h' : Jots r k w' w'') : Jots r k w w'' := by
  refine ⟨fun app ha => (h'.1 app ha).trans (h.1 app ha), fun hn => h'.2.1 (h.2.1 hn), fun mem hmem => ?_⟩
  obtain ⟨mem', hmem', hj⟩ := h.2.2 mem hmem
  obtain ⟨mem'', hmem'', hj'⟩ := h'.2.2 mem' hmem'
  exact ⟨mem'', hmem'', hj.trans hj'⟩

theorem of_insert {mem mem' : AppMemory} (hmem : w.part.apps.get? r.app = some mem) (hj : mem.Jots r.resultArray k mem') :
    Jots r k w { w with part := { w.part with apps := w.part.apps.insert r.app mem' } } := by
  refine ⟨fun app ha => SortedMap.get?_insert_of_ne _ ha _, fun hn => ?_, fun mem₀ hmem₀ => ?_⟩
  · rw [hmem] at hn
    exact nomatch hn
  · rw [hmem] at hmem₀
    cases hmem₀
    exact ⟨mem', SortedMap.get?_insert_self .., hj⟩

end Working.Jots

instance (r : EntanglementRequest) (k : Nat) : Bookish (Jots r k : Working (Node n m) n m → Working (Node n m) n m → Prop) where
  trans _ _ _ := Jots.trans
  same h := .of_apps h.apps

instance (r : EntanglementRequest) (k : Nat) :
    Housing r.app (Jots r k : Working (Node n m) n m → Working (Node n m) n m → Prop) where
  house _ _ _ h hm := .of_insert h (.of_arrays hm.registers hm.pc hm.arrays)

instance (r : EntanglementRequest) (k : Nat) :
    Noting r k (Jots r k : Working (Node n m) n m → Working (Node n m) n m → Prop) where
  note _ _ _ _ _ h hi hm := .of_insert h (.of_setArrayValue hi hm)

namespace Pairing

/-- The pair that a pair service has is the only one that its stage speaks of. -/
theorem Gets.unique {t t' : PairTask} {k k' : Nat} {pair pair' : Pair} {stage : PairStage} {wake : Wake}
    (h : Gets t k pair stage wake) (h' : Gets t' k' pair' stage wake) : t' = t ∧ k' = k ∧ pair' = pair := by
  cases h with
  | answered position =>
    cases h'
    exact ⟨rfl, rfl, rfl⟩
  | corrected position c calls wake =>
    cases h'
    exact ⟨rfl, rfl, rfl⟩

theorem Gets.keeps {t : PairTask} {k : Nat} {pair : Pair} {stage : PairStage} {wake : Wake} (h : Gets t k pair stage wake)
    {app : Int} (hk : keeps app stage wake = true) : app = t.request.app := by
  cases h with
  | answered position =>
    simp only [Pairing.keeps, Bool.and_eq_true, decide_eq_true_eq] at hk
    exact hk.1.symm
  | corrected position c calls wake =>
    simp only [Pairing.keeps, decide_eq_true_eq] at hk
    exact hk.symm

theorem exists_gets_of_keeps {app : Int} {stage : PairStage} {wake : Wake} (h : keeps app stage wake = true) :
    ∃ t k pair, Gets t k pair stage wake := by
  unfold Pairing.keeps at h
  split at h
  · rename_i t k position pair
    exact ⟨t, k, pair, .answered position⟩
  · rename_i t k position pair c calls
    exact ⟨t, k, pair, .corrected position c calls _⟩
  · exact nomatch h

/-- With a pair in hand, whether or not it meets a fault, a pair service writes no entry but those of the row of that
pair. -/
theorem step_jots (p : ProcessId) {t : PairTask} {k : Nat} {pair : Pair} {stage : PairStage} {wake : Wake}
    (h : Gets t k pair stage wake) : Within (Jots t.request k) (step p stage wake : NodeWork n m (Step m)) := by
  refine step_sociable p stage wake (fun _ _ => inferInstance) (fun app hk => ?_) fun t' k' pair' h' => ?_
  · rw [h.keeps hk]
    infer_instance
  · obtain ⟨rfl, rfl, -⟩ := h.unique h'
    infer_instance

/-- Without one it writes nothing. -/
theorem step_sameBooks (p : ProcessId) {stage : PairStage} {wake : Wake} (h : ∀ t k pair, ¬ Gets t k pair stage wake) :
    Within SameBooks (step p stage wake : NodeWork n m (Step m)) := by
  refine step_sociable p stage wake (fun _ _ => inferInstance) (fun app hk => ?_) fun t k pair hg => ?_
  · obtain ⟨t, k, pair, hg⟩ := exists_gets_of_keeps hk
    exact absurd hg (h t k pair)
  · exact absurd hg (h t k pair)

end Pairing

/-! ### The outline of memories -/

/-- No memory comes or goes, no register is set, no program counter moves, and every array keeps its length. -/
def Working.Outlines (w w' : Working (Node n m) n m) : Prop :=
  ∀ app, match w.part.apps.get? app with
    | none => w'.part.apps.get? app = none
    | some mem => ∃ mem', w'.part.apps.get? app = some mem' ∧ mem'.registers = mem.registers ∧ mem'.pc = mem.pc ∧
        ∀ a, (mem'.arrays.get? a).map Array.size = (mem.arrays.get? a).map Array.size

namespace Working.Outlines

variable {r : EntanglementRequest} {k : Nat} {w w' w'' : Working (Node n m) n m}

theorem of_apps (h : w'.part.apps = w.part.apps) : Outlines w w' := by
  intro app
  rw [h]
  split
  · assumption
  · exact ⟨_, ‹_›, rfl, rfl, fun _ => rfl⟩

theorem trans (h : Outlines w w') (h' : Outlines w' w'') : Outlines w w'' := by
  intro app
  have ha := h app
  have ha' := h' app
  rcases hmem : w.part.apps.get? app with _ | mem
  · rw [hmem] at ha
    rwa [show w'.part.apps.get? app = none from ha] at ha'
  · rw [hmem] at ha
    obtain ⟨mem', hmem', hr, hp, hs⟩ := ha
    rw [hmem'] at ha'
    obtain ⟨mem'', hmem'', hr', hp', hs'⟩ := ha'
    exact ⟨mem'', hmem'', hr'.trans hr, hp'.trans hp, fun a => (hs' a).trans (hs a)⟩

/-- A memory that is there stays. -/
theorem memory (h : Outlines w w') {app : Int} {mem : AppMemory} (hmem : w.part.apps.get? app = some mem) :
    ∃ mem', w'.part.apps.get? app = some mem' ∧ mem'.registers = mem.registers ∧ mem'.pc = mem.pc ∧
      ∀ a, (mem'.arrays.get? a).map Array.size = (mem.arrays.get? a).map Array.size := by
  have ha := h app
  rwa [hmem] at ha

theorem of_jots (h : Jots r k w w') : Outlines w w' := by
  intro app
  by_cases ha : app = r.app
  · subst ha
    split
    · exact h.2.1 ‹_›
    · obtain ⟨mem', hmem', hj⟩ := h.2.2 _ ‹_›
      exact ⟨mem', hmem', hj.registers, hj.pc, hj.sizes⟩
  · rw [h.1 app ha]
    split
    · assumption
    · exact ⟨_, ‹_›, rfl, rfl, fun _ => rfl⟩

end Working.Outlines

/-- A pair service works within the outline of memories. -/
theorem Pairing.step_outlines (p : ProcessId) (stage : PairStage) (wake : Wake) :
    Within Outlines (step p stage wake : NodeWork n m (Step m)) := by
  by_cases h : ∃ t k pair, Gets t k pair stage wake
  · obtain ⟨t, k, pair, hg⟩ := h
    exact (step_jots p hg).mono fun _ _ => Outlines.of_jots
  · refine (step_sameBooks p fun t k pair hg => h ⟨t, k, pair, hg⟩).mono fun _ _ hs => ?_
    exact .of_apps hs.apps

end QuantumNode
