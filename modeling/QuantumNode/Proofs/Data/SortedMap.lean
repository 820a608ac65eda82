import QuantumNode.Data.SortedMap

/-! Maps whose entries are in ascending order of their keys, above all those with integer keys. What an entry of such a
map says is what look-up says. -/
namespace QuantumNode.SortedMap

variable {κ α β : Type}

section Order
variable [DecidableEq κ] [LE κ] [LT κ] [DecidableLT κ] [Std.IsLinearOrder κ] [Std.LawfulOrderLT κ]

omit [LE κ] [Std.IsLinearOrder κ] [Std.LawfulOrderLT κ] in
private theorem mem_place {k : κ} {v : α} {l : List (κ × α)} {e : κ × α} (h : e ∈ place k v l) :
    e = (k, v) ∨ e ∈ l := by
  induction l with
  | nil => exact .inl (by simpa [place] using h)
  | cons d l ih =>
    rw [place] at h
    split at h
    · rcases List.mem_cons.1 h with h | h
      · exact .inl h
      · exact .inr (List.mem_cons_of_mem _ h)
    · split at h
      · exact List.mem_cons.1 h
      · rcases List.mem_cons.1 h with h | h
        · exact .inr (h ▸ List.mem_cons_self)
        · exact (ih h).imp_right (List.mem_cons_of_mem _)

private theorem pairwise_place {k : κ} {v : α} {l : List (κ × α)} (h : l.Pairwise fun a b => a.1 < b.1) :
    (place k v l).Pairwise fun a b => a.1 < b.1 := by
  induction l with
  | nil => exact List.pairwise_singleton _ _
  | cons d l ih =>
    obtain ⟨hd, hl⟩ := List.pairwise_cons.1 h
    rw [place]
    split
    · rename_i hk
      exact List.pairwise_cons.2 ⟨fun e he => hk ▸ hd e he, hl⟩
    · split
      · rename_i hk
        refine List.pairwise_cons.2 ⟨fun e he => ?_, h⟩
        rcases List.mem_cons.1 he with rfl | he
        · exact hk
        · exact Std.lt_trans hk (hd e he)
      · rename_i hne hk
        refine List.pairwise_cons.2 ⟨fun e he => ?_, ih hl⟩
        rcases mem_place he with rfl | he
        · exact Std.lt_of_le_of_ne (Std.not_lt.1 hk) (Ne.symm hne)
        · exact hd e he

omit [LE κ] [Std.IsLinearOrder κ] [Std.LawfulOrderLT κ] in
theorem mem_of_mem_ofList {l : List (κ × α)} {e : κ × α} (h : e ∈ (ofList l).entries) : e ∈ l := by
  suffices ∀ m : SortedMap κ α, e ∈ (l.foldl (fun m e => m.insert e.1 e.2) m).entries → e ∈ l ∨ e ∈ m.entries from
    (this empty h).elim id nofun
  clear h
  induction l with
  | nil => exact fun _ => .inr
  | cons d l ih =>
    intro m h
    rcases ih _ h with h | h
    · exact .inl (List.mem_cons_of_mem _ h)
    · rcases mem_place h with rfl | h
      · exact .inl List.mem_cons_self
      · exact .inr h

/-- Entries that are put in one after the other end up in ascending order. -/
theorem pairwise_foldl_insert {l : List (κ × α)} {m : SortedMap κ α} (hm : m.entries.Pairwise fun a b => a.1 < b.1) :
    (l.foldl (fun m e => m.insert e.1 e.2) m).entries.Pairwise fun a b => a.1 < b.1 := by
  induction l generalizing m with
  | nil => exact hm
  | cons e l ih => exact ih (pairwise_place hm)

end Order

/-- The entries are in ascending order of their keys. -/
def Ascending (m : SortedMap Int α) : Prop := m.entries.Pairwise fun a b => a.1 < b.1

theorem ascending_empty : (empty : SortedMap Int α).Ascending := List.Pairwise.nil

theorem Ascending.insert {m : SortedMap Int α} (h : m.Ascending) (k : Int) (v : α) : (m.insert k v).Ascending :=
  pairwise_place h

theorem Ascending.erase {m : SortedMap Int α} (h : m.Ascending) (k : Int) : (m.erase k).Ascending :=
  List.Pairwise.filter _ h

theorem mem_entries_of_get? [DecidableEq κ] {m : SortedMap κ α} {k : κ} {v : α} (h : m.get? k = some v) :
    (k, v) ∈ m.entries := by
  obtain ⟨l⟩ := m
  change find k l = some v at h
  change (k, v) ∈ l
  induction l with
  | nil => exact nomatch h
  | cons d l ih =>
    rw [find] at h
    split at h
    · rename_i hk
      obtain rfl := Option.some.inj h
      exact hk ▸ List.mem_cons_self
    · exact List.mem_cons_of_mem _ (ih h)

theorem Ascending.get?_of_mem {m : SortedMap Int α} (hm : m.Ascending) {k : Int} {v : α} (h : (k, v) ∈ m.entries) :
    m.get? k = some v := by
  obtain ⟨l⟩ := m
  change l.Pairwise fun a b => a.1 < b.1 at hm
  change (k, v) ∈ l at h
  change find k l = some v
  induction l with
  | nil => exact nomatch h
  | cons d l ih =>
    obtain ⟨hd, hl⟩ := List.pairwise_cons.1 hm
    rw [find]
    rcases List.mem_cons.1 h with rfl | h
    · exact if_pos rfl
    · have : d.1 < k := hd _ h
      rw [if_neg (by omega)]
      exact ih hl h

theorem Ascending.nodup_keys {m : SortedMap Int α} (hm : m.Ascending) : (m.entries.map Prod.fst).Nodup :=
  List.pairwise_map.2 (hm.imp fun h => Int.ne_of_lt h)

private theorem place_of_lt {k : Int} {v : α} {l : List (Int × α)} (h : ∀ e ∈ l, e.1 < k) :
    place k v l = l ++ [(k, v)] := by
  induction l with
  | nil => rfl
  | cons e l ih =>
    have he : e.1 < k := h e (List.mem_cons_self ..)
    rw [place, if_neg (by omega), if_neg (by omega), ih fun d hd => h d (List.mem_cons_of_mem _ hd)]
    rfl

private theorem foldl_insert {l : List (Int × α)} (hl : l.Pairwise fun a b => a.1 < b.1) {m : SortedMap Int α}
    (hm : ∀ e ∈ m.entries, ∀ d ∈ l, e.1 < d.1) : l.foldl (fun m e => m.insert e.1 e.2) m = ⟨m.entries ++ l⟩ := by
  induction l generalizing m with
  | nil => rw [List.append_nil]; rfl
  | cons d l ih =>
    obtain ⟨hd, hl⟩ := List.pairwise_cons.1 hl
    have hput : m.insert d.1 d.2 = ⟨m.entries ++ [d]⟩ :=
      congrArg SortedMap.mk (place_of_lt fun e he => hm e he d (List.mem_cons_self ..))
    rw [List.foldl_cons, hput, ih hl]
    · simp
    · intro e he c hc
      obtain he | he := List.mem_append.1 he
      · exact hm e he c (List.mem_cons_of_mem _ hc)
      · exact List.mem_singleton.1 he ▸ hd c hc

/-- Entries in ascending order make up the map that they were taken from. -/
theorem Ascending.ofList_entries {m : SortedMap Int α} (hm : m.Ascending) : ofList m.entries = m :=
  foldl_insert hm (m := empty) nofun

end QuantumNode.SortedMap
