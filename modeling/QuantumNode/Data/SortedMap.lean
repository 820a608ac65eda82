/-! Finite maps as lists of entries in the order of their keys. Look-up after an insertion or a removal follows
the usual laws for any list of entries; the order of keys is kept by both operations. -/
namespace QuantumNode

/-- Entries in ascending order of their keys. -/
structure SortedMap (κ α : Type) where
  entries : List (κ × α)
  deriving DecidableEq, Repr

namespace SortedMap

variable {κ α β : Type} [DecidableEq κ]

def empty : SortedMap κ α := ⟨[]⟩

instance : Inhabited (SortedMap κ α) := ⟨empty⟩

def find (k : κ) : List (κ × α) → Option α
  | [] => none
  | (k', v) :: r => if k = k' then some v else find k r

def get? (m : SortedMap κ α) (k : κ) : Option α := find k m.entries

def contains (m : SortedMap κ α) (k : κ) : Bool := (m.get? k).isSome

def keys (m : SortedMap κ α) : List κ := m.entries.map Prod.fst

def values (m : SortedMap κ α) : List α := m.entries.map Prod.snd

def isEmpty (m : SortedMap κ α) : Bool := m.entries.isEmpty

def size (m : SortedMap κ α) : Nat := m.entries.length

def erase (m : SortedMap κ α) (k : κ) : SortedMap κ α := ⟨m.entries.filter fun e => e.1 ≠ k⟩

def map (f : α → β) (m : SortedMap κ α) : SortedMap κ β := ⟨m.entries.map fun e => (e.1, f e.2)⟩

section Order
variable [LT κ] [DecidableLT κ]

/-- Puts an entry at its place, in the place of an entry with the same key. -/
def place (k : κ) (v : α) : List (κ × α) → List (κ × α)
  | [] => [(k, v)]
  | (k', v') :: r =>
    if k = k' then (k, v) :: r
    else if k < k' then (k, v) :: (k', v') :: r
    else (k', v') :: place k v r

def insert (m : SortedMap κ α) (k : κ) (v : α) : SortedMap κ α := ⟨place k v m.entries⟩

def ofList (l : List (κ × α)) : SortedMap κ α := l.foldl (fun m e => m.insert e.1 e.2) empty

/-- Changes the value of a key that is there. -/
def modify (m : SortedMap κ α) (k : κ) (f : α → α) : SortedMap κ α :=
  match m.get? k with
  | some v => m.insert k (f v)
  | none => m

end Order

omit [DecidableEq κ] in
@[simp] theorem entries_empty : (empty : SortedMap κ α).entries = [] := rfl

@[simp] theorem get?_empty (k : κ) : (empty : SortedMap κ α).get? k = none := rfl

private theorem find_filter_self (k : κ) (l : List (κ × α)) :
    find k (l.filter fun e => e.1 ≠ k) = none := by
  induction l with
  | nil => rfl
  | cons e r ih =>
    by_cases h : e.1 = k
    · simpa [h] using ih
    · simp only [h, ne_eq, not_false_eq_true, decide_true, List.filter_cons_of_pos]
      rw [find, if_neg (Ne.symm h)]
      simpa using ih

private theorem find_filter_of_ne {k k' : κ} (h : k' ≠ k) (l : List (κ × α)) :
    find k' (l.filter fun e => e.1 ≠ k) = find k' l := by
  induction l with
  | nil => rfl
  | cons e r ih =>
    by_cases he : e.1 = k
    · have : ¬ k' = e.1 := fun h' => h (h'.trans he)
      simpa [he, find, this, h] using ih
    · have hf : (e :: r).filter (fun e => e.1 ≠ k) = e :: r.filter (fun e => e.1 ≠ k) := by
        simp [he]
      rw [hf, find, find, ih]

@[simp] theorem get?_erase_self (m : SortedMap κ α) (k : κ) : (m.erase k).get? k = none :=
  find_filter_self k m.entries

theorem get?_erase_of_ne (m : SortedMap κ α) {k k' : κ} (h : k' ≠ k) :
    (m.erase k).get? k' = m.get? k' :=
  find_filter_of_ne h m.entries

section Order
variable [LT κ] [DecidableLT κ]

private theorem find_place_self (k : κ) (v : α) (l : List (κ × α)) :
    find k (place k v l) = some v := by
  induction l with
  | nil => simp [place, find]
  | cons e r ih =>
    rw [place]
    split
    · simp [find]
    · split
      · simp [find]
      · rename_i h _
        simpa [find, h] using ih

private theorem find_place_of_ne {k k' : κ} (h : k' ≠ k) (v : α) (l : List (κ × α)) :
    find k' (place k v l) = find k' l := by
  induction l with
  | nil => simp [place, find, h]
  | cons e r ih =>
    rw [place]
    split
    · rename_i he
      have : ¬ k' = e.1 := fun h' => h (h'.trans he.symm)
      simp [find, h, this]
    · split
      · simp [find, h]
      · rw [find, find, ih]

@[simp] theorem get?_insert_self (m : SortedMap κ α) (k : κ) (v : α) : (m.insert k v).get? k = some v :=
  find_place_self k v m.entries

theorem get?_insert_of_ne (m : SortedMap κ α) {k k' : κ} (h : k' ≠ k) (v : α) :
    (m.insert k v).get? k' = m.get? k' :=
  find_place_of_ne h v m.entries

end Order

end SortedMap

end QuantumNode
