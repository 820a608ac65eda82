import QuantumNode.Proofs.Memory.Snapshot

/-! Snapshots as they are read. A line that is accepted, whatever its blanks, signs, leading zeros and text that is
ignored, says one entry whose numbers fit their words. Of snapshots put together from such entries, each is read back
from its own text as it is. -/
namespace QuantumNode.MemorySnapshot

open Text

/-! ### What a line says -/

theorem fits_of_element? {w : List Char} {v : Option Int} (h : element? w = some v) :
    ∀ i ∈ v, Word.fitsSigned64 i = true := by
  unfold element? at h
  split at h
  · cases h
    exact nofun
  · obtain ⟨⟨i, r⟩, hread, rfl⟩ := Option.map_eq_some_iff.1 h
    rintro _ ⟨⟩
    exact fits_of_leadingInt64? hread

variable {s s' : MemorySnapshot} {number : Nat}

theorem fits_of_entries {ws : List (List Char)} {vs : ArrayValues} (h : entries number ws = .ok vs) :
    ∀ v ∈ vs, ∀ i ∈ v, Word.fitsSigned64 i = true := by
  obtain ⟨l, hl, h⟩ := bind_ok h
  cases h
  intro v hv
  obtain ⟨w, -, hw⟩ := exists_of_mapM_ok hl (List.mem_toArray.1 hv)
  split at hw
  · next hread =>
    cases hw
    exact fits_of_element? hread
  · exact nomatch hw

theorem addRegister_ok {rest : List Char} (h : s.addRegister number rest = .ok s') :
    ∃ e : Entry, e.Legible ∧ s' = e.add s := by
  unfold addRegister at h
  simp only at h
  split at h
  · exact nomatch h
  · split at h
    · exact nomatch h
    · exact nomatch h
    · next v _ r hv hr =>
      cases h
      exact ⟨.register r v, ⟨Register.legible_of_parse? hr, fits_of_leadingInt64? hv⟩, rfl⟩

theorem addArray_ok {rest : List Char} (h : s.addArray number rest = .ok s') :
    ∃ e : Entry, e.Legible ∧ s' = e.add s := by
  unfold addArray at h
  split at h
  · exact nomatch h
  · next a _ ha =>
    obtain ⟨vs, hvs, h⟩ := bind_ok h
    cases h
    exact ⟨.array a vs, ⟨fits_of_leadingInt64? ha, fits_of_entries hvs⟩, rfl⟩

theorem addQubit_ok {rest : List Char} (h : s.addQubit number rest = .ok s') :
    ∃ e : Entry, e.Legible ∧ s' = e.add s := by
  unfold addQubit at h
  split at h
  · exact nomatch h
  · next v _ hv =>
    split at h
    · exact nomatch h
    · next p _ hp =>
      cases h
      exact ⟨.qubit v p, ⟨lt_of_leadingNat64? hv, lt_of_leadingNat64? hp⟩, rfl⟩

/-- A line that is accepted is empty or says one entry. -/
theorem addLine_ok {line : List Char} (h : s.addLine number line = .ok s') :
    s' = s ∨ ∃ e : Entry, e.Legible ∧ s' = e.add s := by
  unfold addLine at h
  split at h
  · cases h
    exact .inl rfl
  · refine .inr ?_
    simp only at h
    split at h
    · exact addRegister_ok h
    · split at h
      · exact addArray_ok h
      · split at h
        · exact addQubit_ok h
        · exact nomatch h

/-! ### Qubits without unused room behind the last -/

/-- At or behind each place there is one in use. -/
def Tight (qs : Array (Option Nat)) : Prop := ∀ n < qs.size, ∃ u p, n ≤ u ∧ qs[u]?.join = some p

namespace Tight

variable {qs rs : Array (Option Nat)}

theorem setQubit (h : Tight qs) (virt phys : Nat) : Tight (setQubit qs virt phys) := by
  intro n hn
  obtain hv | hv := Nat.lt_or_ge virt n
  · have hsize : n < qs.size := by
      simp only [MemorySnapshot.setQubit, Array.size_setIfInBounds, Array.size_append, Array.size_replicate] at hn
      omega
    obtain ⟨u, p, hu, hp⟩ := h n hsize
    refine ⟨u, p, hu, ?_⟩
    rw [getElem?_setQubit, if_neg (by omega), hp]
  · exact ⟨virt, phys, hv, by rw [getElem?_setQubit, if_pos rfl]⟩

/-- A place that is in use on one side only ends neither of them. -/
theorem size_le (h : Tight rs) (hsame : ∀ u : Nat, qs[u]?.join = rs[u]?.join) : rs.size ≤ qs.size := by
  by_contra hlt
  obtain ⟨u, p, hu, hp⟩ := h qs.size (Nat.lt_of_not_le hlt)
  rw [← hsame, Array.getElem?_eq_none hu] at hp
  exact nomatch hp

/-- Where every place is in use alike, there is the same room. -/
theorem ext (hq : Tight qs) (hr : Tight rs) (hsame : ∀ u : Nat, qs[u]?.join = rs[u]?.join) : qs = rs := by
  have hsize : qs.size = rs.size := Nat.le_antisymm (hq.size_le fun u => (hsame u).symm) (hr.size_le hsame)
  refine Array.ext hsize fun u hu hu' => ?_
  simpa [Array.getElem?_eq_getElem hu, Array.getElem?_eq_getElem hu'] using hsame u

end Tight

/-! ### Whole snapshots -/

/-- Snapshots in the form in which they are read: their numbers fit their words, arrays are in ascending order, and the
last of the qubits is in use. -/
structure Settled (s : MemorySnapshot) : Prop where
  registers : ∀ e ∈ s.registers, (Entry.register e.1 e.2).Legible
  ascending : s.arrays.Ascending
  arrays : ∀ a vs, s.arrays.get? a = some vs → (Entry.array a vs).Legible
  qubits : ∀ v p : Nat, s.qubits[v]?.join = some p → (Entry.qubit v p).Legible
  tight : Tight s.qubits

namespace Settled

theorem empty (app : Int) : (empty app).Settled where
  registers := nofun
  ascending := SortedMap.ascending_empty
  arrays := nofun
  qubits := nofun
  tight := nofun

theorem add (h : s.Settled) {e : Entry} (he : e.Legible) : (e.add s).Settled := by
  cases e with
  | register r v =>
    refine { h with registers := fun e hm => ?_ }
    obtain hm | hm := List.mem_append.1 hm
    · exact h.registers e hm
    · cases List.mem_singleton.1 hm
      exact he
  | array a vs =>
    refine { h with ascending := h.ascending.insert a vs, arrays := fun b us hb => ?_ }
    by_cases hba : b = a
    · subst hba
      cases (SortedMap.get?_insert_self s.arrays b vs).symm.trans hb
      exact he
    · exact h.arrays b us ((SortedMap.get?_insert_of_ne s.arrays hba vs).symm.trans hb)
  | qubit virt phys =>
    refine { h with qubits := fun v p hp => ?_, tight := h.tight.setQubit virt phys }
    change (setQubit s.qubits virt phys)[v]?.join = some p at hp
    rw [getElem?_setQubit] at hp
    split at hp
    · next hv =>
      cases hp
      exact hv ▸ he
    · exact h.qubits v p hp

theorem foldl (h : s.Settled) {es : List Entry} (hes : ∀ e ∈ es, e.Legible) : (es.foldl Entry.add s).Settled := by
  induction es generalizing s with
  | nil => exact h
  | cons e es ih => exact ih (h.add (hes e (List.mem_cons_self ..))) fun d hd => hes d (List.mem_cons_of_mem _ hd)

theorem legible (h : s.Settled) : ∀ e ∈ s.written, e.Legible := by
  intro e he
  obtain he | he := List.mem_append.1 he
  · obtain he | he := List.mem_append.1 he
    · obtain ⟨d, hd, rfl⟩ := List.mem_map.1 he
      exact h.registers d hd
    · obtain ⟨⟨a, vs⟩, ha, rfl⟩ := List.mem_map.1 he
      exact h.arrays a vs (h.ascending.get?_of_mem ha)
  · obtain ⟨⟨q, v⟩, hq, hv⟩ := List.mem_filterMap.1 he
    obtain ⟨p, rfl, rfl⟩ := Option.map_eq_some_iff.1 hv
    refine h.qubits v p ?_
    rw [← Array.getElem?_toList, List.mk_mem_zipIdx_iff_getElem?.1 hq]
    rfl

/-- A snapshot in this form is read from its text as it is. -/
theorem parse_text (h : s.Settled) : parse s.appId s.text.toList = .ok s := by
  obtain ⟨qs, hs, hsame⟩ := foldl_written h.ascending s.appId
  have hread : (⟨s.appId, s.registers, s.arrays, qs⟩ : MemorySnapshot).Settled :=
    hs ▸ (Settled.empty s.appId).foldl h.legible
  have hqs : qs = s.qubits := hread.tight.ext h.tight hsame
  rw [MemorySnapshot.parse_text h.legible, hs, hqs]

end Settled

/-- What any text is read as, by the application that is named with it. -/
theorem settled_of_parse {app : Int} {body : List Char} (h : parse app body = .ok s) : s.appId = app ∧ s.Settled := by
  refine foldlM_ok (P := fun s => s.appId = app ∧ s.Settled) ?_ ⟨rfl, .empty app⟩ h
  rintro s ⟨n, line⟩ s' ⟨happ, hs⟩ hline
  obtain rfl | ⟨e, he, rfl⟩ := addLine_ok hline
  · exact ⟨happ, hs⟩
  · refine ⟨?_, hs.add he⟩
    cases e <;> exact happ

end QuantumNode.MemorySnapshot
