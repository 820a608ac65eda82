import QuantumNode.Proofs.Json.Text

/-! Results are read back from their text. The text is JSON if every number is finite and no string holds a control
character other than a line feed or a tab, and no other results are shown as JSON. -/
namespace QuantumNode

open Json

namespace ProgramValue

/-- Numbers that are finite, and strings of which every character is escaped or may stand for itself. -/
def Presentable : ProgramValue → Prop
  | integer _ => True
  | real x => x.isFinite = true
  | text s => Legible s

/-- The digits of a real number are left open. -/
def ShownAs : ProgramValue → Json → Prop
  | integer v, j => j = .number v 0
  | real _, j => ∃ c e, j = .number c e
  | text s, j => j = .string s

/-- Infinities and NaNs have names that JSON does not know. -/
theorem value_real (depth : Nat) (x : Number.Binary64) {rest : List Char} (h : Follows rest) :
    Takes (value (depth + 1) ((realText x).toList ++ rest)) (x.isFinite = true) (real x).ShownAs rest := by
  cases x with
  | finite negative m e =>
    obtain ⟨c, x, hx⟩ := number?_general 17 negative m e h
    exact ⟨fun _ => ⟨_, value_number depth hx, c, x, rfl⟩, fun hx => absurd rfl hx⟩
  | infinite negative =>
    have hnone : value (depth + 1) ((realText (.infinite negative)).toList ++ rest) = none := by
      cases negative <;> rfl
    exact ⟨nofun, fun _ => hnone⟩
  | nan negative =>
    have hnone : value (depth + 1) ((realText (.nan negative)).toList ++ rest) = none := by
      cases negative <;> rfl
    exact ⟨nofun, fun _ => hnone⟩

theorem value_text (depth : Nat) (v : ProgramValue) {rest : List Char} (h : Follows rest) :
    Takes (value (depth + 1) ((RunResults.valueText v).toList ++ rest)) v.Presentable v.ShownAs rest := by
  cases v with
  | integer v => exact ⟨fun _ => ⟨_, value_number depth (number?_integer v h), rfl⟩, fun hv => absurd trivial hv⟩
  | real x => exact value_real depth x h
  | text s => exact value_string depth s rest

end ProgramValue

namespace ProgramResult

/-- The names of values are strings as well. -/
def Presentable (run : ProgramResult) : Prop := ∀ e ∈ run.entries, Legible e.1 ∧ e.2.Presentable

def ShownAs (run : ProgramResult) : Json → Prop := IsObjectOf ProgramValue.ShownAs run.entries

end ProgramResult

namespace RunResults

def Presentable (r : RunResults) : Prop := ∀ node ∈ r.entries, Legible node.1 ∧ ∀ run ∈ node.2, run.Presentable

/-- An object with the runs of each node, in their order, and each run an object with its named values. -/
def ShownAs (r : RunResults) : Json → Prop := IsObjectOf (IsArrayOf ProgramResult.ShownAs) r.entries

theorem toList_enclosed (left right : String) (items : List String) : (enclosed left right items).toList =
    left.toList ++ ([','].intercalate (items.map String.toList) ++ right.toList) := by
  have hcomma : ",".toList = [','] := rfl
  rw [enclosed, String.toList_append, String.toList_append, String.toList_intercalate, hcomma, List.append_assoc]

/-- Entries of an object, as they are written. -/
theorem entries_append {γ : Type} (f : γ → String) (l : List (String × γ)) (rest : List Char) :
    (enclosed "\x7b" "\x7d" (l.map fun e => quoted e.1 ++ ":" ++ f e.2)).toList ++ rest = '\x7b' ::
      ([','].intercalate (l.map fun e => (quoted e.1).toList ++ ':' :: (f e.2).toList) ++ '\x7d' :: rest) := by
  have hentry : String.toList ∘ (fun e : String × γ => quoted e.1 ++ ":" ++ f e.2) =
      fun e => (quoted e.1).toList ++ ':' :: (f e.2).toList := by
    funext e
    simp
  rw [toList_enclosed, List.map_map, hentry]
  simp

theorem value_run (depth : Nat) (run : ProgramResult) (rest : List Char) :
    Takes (value (depth + 2) ((runText run).toList ++ rest)) run.Presentable run.ShownAs rest := by
  rw [runText, entries_append]
  exact value_object (fun v => (valueText v).toList) ProgramValue.Presentable ProgramValue.ShownAs
    (fun e _ _ h => e.2.value_text depth h) rest

theorem begins_runText (run : ProgramResult) : Begins ']' (runText run).toList := by
  have h := entries_append valueText run.entries []
  rw [List.append_nil] at h
  exact ⟨'\x7b', _, h, rfl, by decide⟩

theorem value_runs (depth : Nat) (runs : List ProgramResult) (rest : List Char) :
    Takes (value (depth + 3) ((enclosed "[" "]" (runs.map runText)).toList ++ rest))
      (∀ run ∈ runs, run.Presentable) (IsArrayOf ProgramResult.ShownAs runs) rest := by
  have htext : (enclosed "[" "]" (runs.map runText)).toList ++ rest =
      '[' :: ([','].intercalate (runs.map fun run => (runText run).toList) ++ ']' :: rest) := by
    rw [toList_enclosed, List.map_map]
    simp [Function.comp_def]
  rw [htext]
  exact value_array (fun run => (runText run).toList) ProgramResult.Presentable ProgramResult.ShownAs
    (fun run _ => begins_runText run) (fun run _ rest _ => value_run depth run rest) rest

theorem value_toJson (depth : Nat) (r : RunResults) :
    Takes (value (depth + 4) r.toJson.toList) r.Presentable r.ShownAs [] := by
  have htext := entries_append (fun runs => enclosed "[" "]" (runs.map runText)) r.entries []
  rw [List.append_nil] at htext
  rw [toJson, htext]
  exact value_object (fun runs : List ProgramResult => (enclosed "[" "]" (runs.map runText)).toList)
    (fun runs => ∀ run ∈ runs, run.Presentable) _ (fun node _ rest _ => value_runs depth node.2 rest) []

theorem length_le_intercalate (sep cs : List Char) (l : List (List Char)) :
    cs.length ≤ (sep.intercalate (cs :: l)).length := by
  cases l with
  | nil => rw [List.intercalate_singleton]
  | cons d l =>
    rw [List.intercalate_cons_cons, List.append_assoc, List.length_append]
    exact Nat.le_add_right ..

/-- Results of some node need more characters than there are levels in them. -/
theorem length_toJson {r : RunResults} (h : r.entries ≠ []) : 4 ≤ r.toJson.length := by
  obtain ⟨node, nodes, hentries⟩ := List.exists_cons_of_ne_nil h
  have htext := entries_append (fun runs => enclosed "[" "]" (runs.map runText)) r.entries []
  have hnode (cs : List Char) : 3 ≤ ((quoted node.1).toList ++ ':' :: cs).length := by
    rw [toList_quoted]
    simp only [List.length_append, List.length_cons, List.length_nil]
    omega
  rw [List.append_nil] at htext
  rw [← String.length_toList, toJson, htext, hentries, List.map_cons, List.length_cons, List.length_append]
  exact Nat.succ_le_succ ((hnode _).trans ((length_le_intercalate ..).trans (Nat.le_add_right ..)))

/-- Results are JSON just if they are presentable, and then JSON that means the results: an object with the runs of
each node in order, each run an object with its names and values, integers and strings being what they were. -/
theorem results_read_as_json (r : RunResults) :
    (r.Presentable → ∃ j, Json.read? r.toJson = some j ∧ r.ShownAs j) ∧
      (¬ r.Presentable → Json.read? r.toJson = none) := by
  by_cases h : r.entries = []
  · obtain ⟨entries⟩ := r
    obtain rfl : entries = [] := h
    exact ⟨fun _ => ⟨.object [], rfl, [], rfl, .nil⟩, fun hr => absurd (List.forall_mem_nil _) hr⟩
  · obtain ⟨depth, hdepth⟩ := Nat.exists_eq_add_of_le' (length_toJson h)
    have hvalue := value_toJson depth r
    rw [← hdepth] at hvalue
    constructor
    · intro hr
      obtain ⟨j, hj, hshown⟩ := hvalue.taken hr
      exact ⟨j, by rw [read?, hj]; rfl, hshown⟩
    · intro hr
      rw [read?, hvalue.refused hr]

/-- A carriage return is written as it is. -/
example : (Json.read? (toJson ⟨[("alice", [⟨[("m", .text "a\rb")]⟩])]⟩)).isNone = true := by decide +kernel

end RunResults

end QuantumNode
