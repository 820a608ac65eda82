import QuantumNode.Proofs.Memory.Application

/-! The map of a memory's qubits under calls in any order. It pairs virtual ids with physical qubits, no two of either
kind with one of the other: the map is kept in one direction and searched in the other, and both directions agree. -/
namespace QuantumNode.AppMemory

/-- A change of what the virtual ids of a memory map to. -/
inductive Remapping where
  | map (virt : Int) (phys : Nat)
  | unmap (virt : Int)
  | unmapAll

def remap (m : AppMemory) : Remapping → Except Fault AppMemory
  | .map virt phys => m.mapQubit virt phys
  | .unmap virt => m.unmapQubit virt
  | .unmapAll => .ok m.unmapAll

/-- A call that fails leaves the memory as it was. -/
def attempt (m : AppMemory) (c : Remapping) : AppMemory :=
  match m.remap c with
  | .ok m' => m'
  | .error _ => m

def attemptAll (m : AppMemory) (calls : List Remapping) : AppMemory := calls.foldl attempt m

/-- Virtual ids count from zero up to the number of qubits. -/
def InRange (maxQubits : Nat) (virt : Int) : Prop := 0 ≤ virt ∧ virt < maxQubits

/-- A memory with some number of qubits in which no physical qubit is mapped twice. -/
structure OneToOne (maxQubits : Nat) (m : AppMemory) : Prop where
  size : m.maxQubits = maxQubits
  injective : ∀ u v p, m.phys? u = some p → m.phys? v = some p → u = v

variable {m m' : AppMemory} {maxQubits p : Nat} {virt : Int}

/-! ### Looking up, in both directions -/

theorem virtualIndex_inRange {v : Fin m.qubits.size} (h : m.virtualIndex virt = .ok v) : InRange m.maxQubits virt := by
  rw [virtualIndex_ok h]
  exact ⟨Int.natCast_nonneg v, Int.ofNat_lt.2 v.isLt⟩

theorem physicalFor_of_inRange (h : InRange m.maxQubits virt) : m.physicalFor virt = .ok (m.phys? virt.toNat) := by
  obtain ⟨v, rfl⟩ := Int.eq_ofNat_of_zero_le h.1
  have hv : v < m.qubits.size := Int.ofNat_lt.1 h.2
  rw [physicalFor, virtualIndex_of_lt hv]
  exact congrArg Except.ok (qubit_eq_phys? ⟨v, hv⟩)

theorem physicalFor_of_not_inRange (h : ¬ InRange m.maxQubits virt) :
    m.physicalFor virt = .error (.virtualOutOfRange virt m.maxQubits) := by
  have hout : ¬ (0 ≤ virt ∧ virt.toNat < m.qubits.size) := by
    rintro ⟨hnonneg, hlt⟩
    apply h
    refine ⟨hnonneg, ?_⟩
    rw [← Int.toNat_of_nonneg hnonneg]
    exact Int.ofNat_lt.2 hlt
  rw [physicalFor, virtualIndex, dif_neg hout]
  rfl

theorem exists_physicalFor_iff : (∃ q, m.physicalFor virt = .ok q) ↔ InRange m.maxQubits virt := by
  constructor
  · rintro ⟨q, hq⟩
    obtain ⟨v, hv, -⟩ := bind_ok hq
    exact virtualIndex_inRange hv
  · intro h
    exact ⟨_, physicalFor_of_inRange h⟩

theorem physicalFor_eq_some_iff :
    m.physicalFor virt = .ok (some p) ↔ ∃ v : Nat, virt = v ∧ m.phys? v = some p := by
  constructor
  · intro h
    obtain ⟨v, hvirt, -, hp⟩ := physicalFor_ok h
    exact ⟨v, hvirt, hp⟩
  · rintro ⟨v, rfl, hp⟩
    exact physicalFor_of_phys? hp

/-- The search meets the only virtual id that there is. -/
theorem OneToOne.virtualFor?_eq_some_iff (h : m.OneToOne maxQubits) :
    m.virtualFor? p = some virt ↔ ∃ v : Nat, virt = v ∧ m.phys? v = some p := by
  constructor
  · exact virtualFor?_some
  · rintro ⟨v, rfl, hp⟩
    cases hfound : m.virtualFor? p with
    | none => exact absurd hp (virtualFor?_none hfound v)
    | some found =>
      obtain ⟨u, rfl, hu⟩ := virtualFor?_some hfound
      rw [h.injective u v p hu hp]

/-! ### What a call does -/

theorem maxQubits_of_mapQubit (h : m.mapQubit virt p = .ok m') : m'.maxQubits = m.maxQubits := by
  obtain ⟨v, -, h⟩ := bind_ok h
  split at h
  · split at h
    · cases h
      rfl
    · exact nomatch h
  · split at h
    · exact nomatch h
    · cases h
      exact size_setQubit v (some p)

theorem maxQubits_of_unmapQubit (h : m.unmapQubit virt = .ok m') : m'.maxQubits = m.maxQubits := by
  obtain ⟨v, -, h⟩ := bind_ok h
  cases h
  exact size_setQubit v none

/-- Ids that are mapped to each other are mapped again without a change. -/
theorem mapQubit_of_mapped {v : Nat} (h : m.phys? v = some p) : m.mapQubit v p = .ok m := by
  have hv := lt_size_of_phys? h
  have hq : m.qubit ⟨v, hv⟩ = some p := (qubit_eq_phys? ⟨v, hv⟩).trans h
  unfold mapQubit
  rw [virtualIndex_of_lt hv]
  simp only [bind, Except.bind, hq, if_true]

theorem exists_mapQubit_iff : (∃ m', m.mapQubit virt p = .ok m') ↔ InRange m.maxQubits virt ∧
    (m.physicalFor virt = .ok (some p) ∨
      m.physicalFor virt = .ok none ∧ ∀ u, m.physicalFor u ≠ .ok (some p)) := by
  constructor
  · rintro ⟨m', h⟩
    obtain ⟨w, hw, -⟩ := bind_ok h
    have hrange := virtualIndex_inRange hw
    refine ⟨hrange, ?_⟩
    obtain ⟨v, rfl, ⟨hv, -⟩ | ⟨hv, hp, -⟩⟩ := mapQubit_ok h
    · exact .inl (physicalFor_of_phys? hv)
    · refine .inr ⟨?_, ?_⟩
      · rw [physicalFor_of_inRange hrange, Int.toNat_natCast, hv]
      · intro u hu
        obtain ⟨v', -, hv'⟩ := physicalFor_eq_some_iff.1 hu
        exact hp v' hv'
  · rintro ⟨hrange, hsame | ⟨hnone, hp⟩⟩
    · obtain ⟨v, rfl, hv⟩ := physicalFor_eq_some_iff.1 hsame
      exact ⟨m, mapQubit_of_mapped hv⟩
    · obtain ⟨v, rfl, hlt, hv⟩ := physicalFor_ok hnone
      refine ⟨_, mapQubit_of_free hlt hv ?_⟩
      intro u hu
      exact hp u (physicalFor_of_phys? hu)

/-- Taking a pair out again that was put in leaves every other pair as it was. -/
theorem exists_unmapQubit_of_mapQubit (h : m.mapQubit virt p = .ok m') : ∃ m'', m'.unmapQubit virt = .ok m'' ∧
    m''.physicalFor virt = .ok none ∧ ∀ u, u ≠ virt → m''.physicalFor u = m.physicalFor u := by
  obtain ⟨w, hw, -⟩ := bind_ok h
  have hrange := virtualIndex_inRange hw
  have hsize := maxQubits_of_mapQubit h
  obtain ⟨v, rfl, hmap⟩ := mapQubit_ok h
  have hv : v < m'.qubits.size := Int.ofNat_lt.1 (hsize ▸ hrange).2
  have hunmap := unmapQubit_of_lt hv
  have hsize' := (maxQubits_of_unmapQubit hunmap).trans hsize
  refine ⟨_, hunmap, ?_, ?_⟩
  · rw [physicalFor_of_inRange (hsize' ▸ hrange), Int.toNat_natCast, phys?_setQubit, if_pos rfl]
  · intro u hu
    by_cases hin : InRange m.maxQubits u
    · obtain ⟨k, rfl⟩ := Int.eq_ofNat_of_zero_le hin.1
      have hk : k ≠ v := fun hkv => hu (congrArg _ hkv)
      rw [physicalFor_of_inRange hin, physicalFor_of_inRange (hsize' ▸ hin), Int.toNat_natCast, phys?_setQubit, if_neg hk]
      obtain ⟨-, rfl⟩ | ⟨-, -, hphys⟩ := hmap
      · rfl
      · rw [hphys, if_neg hk]
    · rw [physicalFor_of_not_inRange hin, physicalFor_of_not_inRange (hsize' ▸ hin), hsize']

/-! ### Runs -/

theorem OneToOne.new (app : Int) (maxQubits : Nat) : (new app maxQubits).OneToOne maxQubits where
  size := Array.size_replicate
  injective u _ _ hu := nomatch (phys?_new app maxQubits u).symm.trans hu

/-- What one call keeps. -/
theorem OneToOne.remap {c : Remapping} (h : m.OneToOne maxQubits) (hc : m.remap c = .ok m') :
    m'.OneToOne maxQubits := by
  cases c with
  | map virt p =>
    refine ⟨(maxQubits_of_mapQubit hc).trans h.size, ?_⟩
    obtain ⟨w, -, ⟨-, rfl⟩ | ⟨-, hfree, hphys⟩⟩ := mapQubit_ok hc
    · exact h.injective
    · intro u v q hu hv
      rw [hphys] at hu hv
      split at hu <;> split at hv
      · omega
      · cases hu
        exact absurd hv (hfree v)
      · cases hv
        exact absurd hu (hfree u)
      · exact h.injective u v q hu hv
  | unmap virt =>
    refine ⟨(maxQubits_of_unmapQubit hc).trans h.size, ?_⟩
    obtain ⟨w, -, hphys⟩ := unmapQubit_ok hc
    intro u v q hu hv
    rw [hphys] at hu hv
    split at hu
    · exact nomatch hu
    · split at hv
      · exact nomatch hv
      · exact h.injective u v q hu hv
  | unmapAll =>
    cases hc
    refine ⟨Array.size_map.trans h.size, ?_⟩
    intro u v q hu
    exact nomatch (phys?_unmapAll u).symm.trans hu

theorem attempt_of_error {c : Remapping} {fault : Fault} (h : m.remap c = .error fault) : m.attempt c = m := by
  unfold attempt
  rw [h]

theorem OneToOne.attempt (h : m.OneToOne maxQubits) (c : Remapping) : (m.attempt c).OneToOne maxQubits := by
  unfold AppMemory.attempt
  split
  · next hc => exact h.remap hc
  · exact h

/-- What calls in any order keep, by induction on the calls. -/
theorem OneToOne.attemptAll (h : m.OneToOne maxQubits) (calls : List Remapping) :
    (m.attemptAll calls).OneToOne maxQubits := by
  induction calls generalizing m with
  | nil => exact h
  | cons c calls ih => exact ih (h.attempt c)

/-- The map of a memory's qubits is a partial bijection, whatever calls have been made, those that fail included. A
virtual id maps to a physical qubit just if the search for that qubit finds that id; ids are mapped to each other just
if they are already or neither has another partner; a call that fails changes nothing; and to unmap what has been mapped
leaves that id without a partner and all other ids as they were before both. -/
theorem qubit_map_is_a_partial_bijection (app : Int) (maxQubits : Nat) (calls : List Remapping) :
    let m := (new app maxQubits).attemptAll calls
    (∀ virt, (∃ q, m.physicalFor virt = .ok q) ↔ InRange maxQubits virt) ∧
    (∀ virt p, m.physicalFor virt = .ok (some p) ↔ m.virtualFor? p = some virt) ∧
    (∀ virt p, (∃ m', m.mapQubit virt p = .ok m') ↔ InRange maxQubits virt ∧
      (m.physicalFor virt = .ok (some p) ∨
        m.physicalFor virt = .ok none ∧ ∀ u, m.physicalFor u ≠ .ok (some p))) ∧
    (∀ c fault, m.remap c = .error fault → m.attempt c = m) ∧
    ∀ virt p m', m.mapQubit virt p = .ok m' → ∃ m'', m'.unmapQubit virt = .ok m'' ∧
      m''.physicalFor virt = .ok none ∧ ∀ u, u ≠ virt → m''.physicalFor u = m.physicalFor u := by
  intro m
  have h : m.OneToOne maxQubits := (OneToOne.new app maxQubits).attemptAll calls
  refine ⟨?_, ?_, ?_, fun _ _ => attempt_of_error, fun _ _ _ => exists_unmapQubit_of_mapQubit⟩
  · intro virt
    rw [exists_physicalFor_iff, h.size]
  · intro virt p
    rw [physicalFor_eq_some_iff, h.virtualFor?_eq_some_iff]
  · intro virt p
    rw [exists_mapQubit_iff, h.size]

/-- Of three virtual ids 0 is mapped to 7, mapped to it again, unmapped, and mapped to 5; 2 takes 7 then, after an id
that is out of range, an id in use and a qubit in use have been refused. -/
theorem qubit_map_is_a_partial_bijection_after_refusals :
    let m := (new 0 3).attemptAll [.map 0 7, .map 0 7, .map 3 1, .map (-1) 1, .map 0 5, .map 1 7, .unmap 3, .unmap 0,
      .map 0 5, .map 2 7]
    m.physicalFor 2 = .ok (some 7) ∧ m.physicalFor 0 = .ok (some 5) ∧
      ∃ m', m.mapQubit 1 6 = .ok m' ∧ ∃ m'', m'.unmapQubit 1 = .ok m'' ∧ m''.physicalFor 2 = .ok (some 7) := by
  intro m
  obtain ⟨-, hboth, hmap, -, hundo⟩ := qubit_map_is_a_partial_bijection 0 3
    [.map 0 7, .map 0 7, .map 3 1, .map (-1) 1, .map 0 5, .map 1 7, .unmap 3, .unmap 0, .map 0 5, .map 2 7]
  have h7 : m.virtualFor? 7 = some 2 := by decide +kernel
  have h5 : m.virtualFor? 5 = some 0 := by decide +kernel
  have h6 : m.virtualFor? 6 = none := by decide +kernel
  have hsize : m.maxQubits = 3 := by decide +kernel
  have hfree : m.phys? 1 = none := by decide +kernel
  have hone : InRange 3 1 := ⟨by decide, by decide⟩
  have hnone : m.physicalFor 1 = .ok none := (physicalFor_of_inRange (hsize ▸ hone)).trans (congrArg _ hfree)
  have h2 := (hboth 2 7).2 h7
  obtain ⟨m', hm'⟩ := (hmap 1 6).2 ⟨hone, .inr ⟨hnone, fun u hu => nomatch h6.symm.trans ((hboth u 6).1 hu)⟩⟩
  obtain ⟨m'', hunmap, -, hothers⟩ := hundo 1 6 m' hm'
  exact ⟨h2, (hboth 0 5).2 h5, m', hm', m'', hunmap, (hothers 2 (by decide)).trans h2⟩

end QuantumNode.AppMemory
