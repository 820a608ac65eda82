import QuantumNode.Memory.Application
import QuantumNode.Proofs.Data.Except

/-! Which operations on an application's memory change the map of its qubits, and how. -/
namespace QuantumNode

namespace AppMemory

variable {m m' : AppMemory}

/-- Memories that differ in their registers and arrays alone. -/
structure Alike (m m' : AppMemory) : Prop where
  qubits : m'.qubits = m.qubits
  pc : m'.pc = m.pc

theorem setRegister_alike {r : Register} {v : Option Int} (h : m.setRegister r v = .ok m') : m.Alike m' := by
  unfold setRegister at h
  split at h
  · cases h
    exact ⟨rfl, rfl⟩
  · exact nomatch h

theorem setArrayValue_alike {a i : Int} {v : Option Int} (h : m.setArrayValue a i v = .ok m') : m.Alike m' := by
  obtain ⟨vs, -, h⟩ := bind_ok h
  split at h
  · cases h
    exact ⟨rfl, rfl⟩
  · exact nomatch h

theorem setEntry_alike {e : ArrayEntry} {v : Option Int} (h : m.setEntry e v = .ok m') : m.Alike m' := by
  obtain ⟨i, -, h⟩ := bind_ok h
  exact setArrayValue_alike h

/-- A register's value is stored in an array. -/
theorem store_alike {r : Register} {e : ArrayEntry} (h : (do m.setEntry e (← m.register r)) = .ok m') : m.Alike m' := by
  obtain ⟨v, -, h⟩ := bind_ok h
  exact setEntry_alike h

/-- A register takes the value of an array's entry. -/
theorem load_alike {r : Register} {e : ArrayEntry} (h : (do m.setRegister r (← m.entryValue e)) = .ok m') :
    m.Alike m' := by
  obtain ⟨v, -, h⟩ := bind_ok h
  exact setRegister_alike h

/-- Memories that differ in what they map alone. -/
structure Remaps (m m' : AppMemory) : Prop where
  appId : m'.appId = m.appId
  registers : m'.registers = m.registers
  arrays : m'.arrays = m.arrays
  pc : m'.pc = m.pc

theorem mapQubit_remaps {virt : Int} {phys : Nat} (h : m.mapQubit virt phys = .ok m') : m.Remaps m' := by
  obtain ⟨v, -, h⟩ := bind_ok h
  split at h
  · split at h
    · cases h
      exact ⟨rfl, rfl, rfl, rfl⟩
    · exact nomatch h
  · split at h
    · exact nomatch h
    · cases h
      exact ⟨rfl, rfl, rfl, rfl⟩

theorem unmapQubit_remaps {virt : Int} (h : m.unmapQubit virt = .ok m') : m.Remaps m' := by
  obtain ⟨v, -, h⟩ := bind_ok h
  cases h
  exact ⟨rfl, rfl, rfl, rfl⟩

/-- Whether a range can be read depends on the length of its array alone. -/
theorem exists_arrayValues {a start stop : Int} {vs : ArrayValues}
    (hs : (m'.arrays.get? a).map Array.size = (m.arrays.get? a).map Array.size) (h : m.arrayValues a start stop = .ok vs) :
    ∃ vs', m'.arrayValues a start stop = .ok vs' := by
  obtain ⟨us, hus, h⟩ := bind_ok h
  have hget : m.arrays.get? a = some us := by
    unfold array at hus
    split at hus
    · cases hus
      assumption
    · exact nomatch hus
  rw [hget] at hs
  obtain ⟨us', hget', hsize⟩ := Option.map_eq_some_iff.1 hs
  split at h
  · exact nomatch h
  · rename_i hbounds
    refine ⟨us'.extract start.toNat stop.toNat, ?_⟩
    simp only [arrayValues, array, hget', bind, Except.bind]
    rw [if_neg (by rwa [hsize])]

/-- The physical qubit of a virtual id, if it has one. -/
def phys? (m : AppMemory) (virt : Nat) : Option Nat := (m.qubits[virt]?).join

theorem phys?_eq_some {virt p : Nat} : m.phys? virt = some p ↔ m.qubits[virt]? = some (some p) := by
  unfold phys?
  rcases m.qubits[virt]? with _ | _ | q
  · simp
  · simp
  · simp

theorem phys?_congr (h : m'.qubits = m.qubits) (virt : Nat) : m'.phys? virt = m.phys? virt := by
  simp [phys?, h]

theorem virtualIndex_ok {virt : Int} {v : Fin m.qubits.size} (h : m.virtualIndex virt = .ok v) : virt = (v.val : Int) := by
  unfold virtualIndex at h
  split at h
  · rename_i hv
    cases h
    exact (Int.toNat_of_nonneg hv.1).symm
  · exact nomatch h

theorem qubit_eq_phys? (v : Fin m.qubits.size) : m.qubit v = m.phys? v := by
  simp [qubit, phys?, Vector.get]

theorem phys?_setQubit (v : Fin m.qubits.size) (q : Option Nat) (virt : Nat) :
    (m.setQubit v q).phys? virt = if virt = v then q else m.phys? virt := by
  unfold phys? setQubit
  by_cases h : virt = v
  · subst h
    simp
  · rw [if_neg h, Array.getElem?_set_ne]
    exact fun h' => h h'.symm

/-- Looking a virtual id up says what it maps to. -/
theorem physicalFor_ok {virt : Int} {q : Option Nat} (h : m.physicalFor virt = .ok q) :
    ∃ v : Nat, virt = v ∧ v < m.qubits.size ∧ m.phys? v = q := by
  obtain ⟨v, hv, h⟩ := bind_ok h
  cases h
  exact ⟨v, virtualIndex_ok hv, v.isLt, (qubit_eq_phys? v).symm⟩

theorem lt_size_of_phys? {v p : Nat} (h : m.phys? v = some p) : v < m.qubits.size :=
  (Array.getElem?_eq_some_iff.1 (phys?_eq_some.1 h)).1

theorem virtualIndex_of_lt {v : Nat} (hv : v < m.qubits.size) : m.virtualIndex v = .ok ⟨v, hv⟩ := by
  unfold virtualIndex
  rw [dif_pos ⟨Int.natCast_nonneg v, by simpa using hv⟩]
  simp

theorem physicalFor_of_phys? {v p : Nat} (h : m.phys? v = some p) : m.physicalFor v = .ok (some p) := by
  have hv := lt_size_of_phys? h
  unfold physicalFor
  rw [virtualIndex_of_lt hv]
  exact congrArg _ ((qubit_eq_phys? ⟨v, hv⟩).trans h)

private theorem virtualFor?_eq (m : AppMemory) (p : Nat) :
    m.virtualFor? p = (m.qubits.findIdx? (· == some p)).map Int.ofNat := by
  unfold virtualFor?
  rcases m.qubits.findIdx? (· == some p) with _ | v
  · rfl
  · rfl

theorem virtualFor?_some {p : Nat} {virt : Int} (h : m.virtualFor? p = some virt) :
    ∃ v : Nat, virt = v ∧ m.phys? v = some p := by
  rw [virtualFor?_eq] at h
  obtain ⟨v, hv, rfl⟩ := Option.map_eq_some_iff.1 h
  obtain ⟨hlt, hp, -⟩ := Array.findIdx?_eq_some_iff_getElem.1 hv
  exact ⟨v, rfl, phys?_eq_some.2 (by simpa [Array.getElem?_eq_getElem hlt] using hp)⟩

theorem virtualFor?_none {p : Nat} (h : m.virtualFor? p = none) (v : Nat) : m.phys? v ≠ some p := fun hv => by
  rw [virtualFor?_eq] at h
  have hq := Array.mem_of_getElem? (phys?_eq_some.1 hv)
  have := Array.findIdx?_eq_none_iff.1 (Option.map_eq_none_iff.1 h) _ hq
  simp at this

theorem virtualFor?_eq_none {p : Nat} (h : ∀ v, m.phys? v ≠ some p) : m.virtualFor? p = none := by
  rcases hv : m.virtualFor? p with _ | virt
  · rfl
  · obtain ⟨v, -, hp⟩ := virtualFor?_some hv
    exact absurd hp (h v)

theorem size_setQubit (v : Fin m.qubits.size) (q : Option Nat) : (m.setQubit v q).qubits.size = m.qubits.size := by
  simp [setQubit]

/-- A free virtual id is mapped to a free physical qubit. -/
theorem mapQubit_of_free {v p : Nat} (hv : v < m.qubits.size) (hn : m.phys? v = none) (hp : ∀ u, m.phys? u ≠ some p) :
    m.mapQubit v p = .ok (m.setQubit ⟨v, hv⟩ (some p)) := by
  have hq : m.qubit ⟨v, hv⟩ = none := (qubit_eq_phys? ⟨v, hv⟩).trans hn
  unfold mapQubit
  rw [virtualIndex_of_lt hv]
  simp only [bind, Except.bind, hq, virtualFor?_eq_none hp]

theorem unmapQubit_of_lt {v : Nat} (hv : v < m.qubits.size) : m.unmapQubit v = .ok (m.setQubit ⟨v, hv⟩ none) := by
  unfold unmapQubit
  rw [virtualIndex_of_lt hv]
  rfl

/-- A virtual id that is mapped was free and gets a qubit that was free, unless nothing changes. -/
theorem mapQubit_ok {virt : Int} {p : Nat} (h : m.mapQubit virt p = .ok m') :
    ∃ v : Nat, virt = v ∧ ((m.phys? v = some p ∧ m' = m) ∨
      (m.phys? v = none ∧ (∀ u, m.phys? u ≠ some p) ∧
        ∀ u, m'.phys? u = if u = v then some p else m.phys? u)) := by
  obtain ⟨v, hv, h⟩ := bind_ok h
  refine ⟨v, virtualIndex_ok hv, ?_⟩
  split at h
  · rename_i q hq
    split at h
    · rename_i hp
      cases h
      exact .inl ⟨by rw [← qubit_eq_phys?, hq, hp], rfl⟩
    · exact nomatch h
  · rename_i hq
    split at h
    · exact nomatch h
    · rename_i hn
      cases h
      exact .inr ⟨by rw [← qubit_eq_phys?, hq], virtualFor?_none hn, fun u => phys?_setQubit v _ u⟩

theorem unmapQubit_ok {virt : Int} (h : m.unmapQubit virt = .ok m') :
    ∃ v : Nat, virt = v ∧ ∀ u, m'.phys? u = if u = v then none else m.phys? u := by
  obtain ⟨v, hv, h⟩ := bind_ok h
  cases h
  exact ⟨v, virtualIndex_ok hv, fun u => phys?_setQubit v _ u⟩

@[simp] theorem phys?_new (app : Int) (k virt : Nat) : (new app k).phys? virt = none := by
  unfold phys? new
  rcases h : (Array.replicate k (none : Option Nat))[virt]? with _ | q
  · rfl
  · have := Array.mem_of_getElem? h
    simp at this
    simp [this]

@[simp] theorem phys?_unmapAll (virt : Nat) : m.unmapAll.phys? virt = none := by
  unfold phys? unmapAll
  rw [Array.getElem?_map]
  rcases m.qubits[virt]? with _ | q
  · rfl
  · rfl

theorem mem_mapped {p : Nat} : p ∈ m.mapped ↔ ∃ virt, m.phys? virt = some p := by
  simp [mapped, phys?_eq_some, Array.mem_iff_getElem?]

/-- A memory that maps no physical qubit twice lists none twice. -/
theorem nodup_mapped (h : ∀ u v p, m.phys? u = some p → m.phys? v = some p → u = v) : m.mapped.Nodup := by
  refine List.pairwise_filterMap.2 (List.pairwise_iff_getElem.2 fun i j hi hj hij p hp q hq hpq => ?_)
  subst hpq
  have hphys : ∀ (k : Nat) (hk : k < m.qubits.toList.length), id m.qubits.toList[k] = some p → m.phys? k = some p := by
    intro k hk h
    rw [Array.length_toList] at hk
    rw [phys?_eq_some, Array.getElem?_eq_getElem hk]
    exact congrArg some h
  have := h i j p (hphys i hi hp) (hphys j hj hq)
  omega

end AppMemory

/-! Entries of arrays: what an array holds after values have been put into it, and memories that differ in one array. -/

/-- An index and the value that is put there. -/
abbrev IndexedValue := Nat × Int

/-- An array after literals have been put into it, in order. -/
def ArrayValues.putAll (vs : ArrayValues) (l : List IndexedValue) : ArrayValues :=
  l.foldl (fun vs e => vs.setIfInBounds e.1 (some e.2)) vs

namespace ArrayValues

variable {vs : ArrayValues} {l : List IndexedValue}

@[simp] theorem size_putAll : (putAll vs l).size = vs.size := by
  induction l generalizing vs with
  | nil => rfl
  | cons e l ih => exact ih.trans Array.size_setIfInBounds

/-- Of literals for different places, each is where it was put, and every other place is as it was. -/
theorem putAll_getElem? (hl : (l.map Prod.fst).Nodup) (i : Nat) :
    (putAll vs l)[i]? = vs[i]?.map fun v => (l.lookup i).or v := by
  induction l generalizing vs with
  | nil => simp [putAll]
  | cons e l ih =>
    obtain ⟨he, hl⟩ := List.nodup_cons.1 hl
    have hrest : (putAll vs (e :: l))[i]? = (vs.setIfInBounds e.1 (some e.2))[i]?.map fun v => (l.lookup i).or v :=
      show (putAll (vs.setIfInBounds e.1 (some e.2)) l)[i]? = _ from ih hl
    rw [hrest, Array.getElem?_setIfInBounds, List.lookup_cons]
    by_cases h : i = e.1
    · subst h
      have hnone : l.lookup e.1 = none := by
        rw [List.lookup_eq_none_iff]
        intro d hd
        exact bne_iff_ne.2 fun hde => he (hde ▸ List.mem_map_of_mem hd)
      by_cases hlt : e.1 < vs.size
      · simp [hnone, hlt]
      · simp [hlt]
    · have hne : (i == e.1) = false := beq_eq_false_iff_ne.2 h
      rw [if_neg (Ne.symm h), hne]

/-- Values at successive indices. -/
def consecutive (c : Nat) (l : List Int) : List IndexedValue := l.zipIdx.map fun x => (c + x.2, x.1)

private theorem places_nodup (c : Nat) (l : List Int) (b : Nat) :
    (((l.zipIdx b).map fun x => (c + x.2, x.1)).map Prod.fst).Nodup := by
  have hmap : ((l.zipIdx b).map fun x => (c + x.2, x.1)).map Prod.fst = (List.range' b l.length).map (c + ·) := by
    rw [← List.zipIdx_map_snd, List.map_map, List.map_map]
    rfl
  rw [hmap]
  exact List.pairwise_map.2 (List.Pairwise.imp (fun h h' => h (Nat.add_left_cancel h')) List.nodup_range')

private theorem lookup_places (c : Nat) (l : List Int) (b j : Nat) :
    ((l.zipIdx b).map fun x => (c + x.2, x.1)).lookup j = if c + b ≤ j then l[j - (c + b)]? else none := by
  induction l generalizing b with
  | nil => simp
  | cons v l ih =>
    rw [List.zipIdx_cons, List.map_cons, List.lookup_cons, ih]
    by_cases h : j = c + b
    · subst h
      simp
    · have hne : (j == c + b) = false := beq_eq_false_iff_ne.2 h
      simp only [hne]
      by_cases hle : c + (b + 1) ≤ j
      · rw [if_pos hle, if_pos (by omega), show j - (c + b) = j - (c + (b + 1)) + 1 by omega, List.getElem?_cons_succ]
      · rw [if_neg hle, if_neg (by omega)]

theorem consecutive_nodup (c : Nat) (l : List Int) : ((consecutive c l).map Prod.fst).Nodup := places_nodup c l 0

theorem lookup_consecutive (c : Nat) (l : List Int) (j : Nat) :
    (consecutive c l).lookup j = if c ≤ j then l[j - c]? else none := lookup_places c l 0 j

end ArrayValues

/-- One array is set, by instructions that keep everything but registers. -/
structure AppMemory.Fills (a : Int) (vs : ArrayValues) (length : Nat) (mem mem' : AppMemory) : Prop where
  array : mem'.arrays.get? a = some vs
  others : ∀ b ≠ a, mem'.arrays.get? b = mem.arrays.get? b
  qubits : mem'.qubits = mem.qubits
  pc : mem'.pc = mem.pc + length

/-- What is set twice is as it was set last. -/
theorem AppMemory.Fills.trans {mem mem' mem'' : AppMemory} {a : Int} {vs vs' : ArrayValues} {k l : Nat}
    (h : mem.Fills a vs k mem') (h' : mem'.Fills a vs' l mem'') : mem.Fills a vs' (k + l) mem'' where
  array := h'.array
  others b hb := (h'.others b hb).trans (h.others b hb)
  qubits := h'.qubits.trans h.qubits
  pc := by rw [h'.pc, h.pc, Nat.add_assoc]

end QuantumNode
