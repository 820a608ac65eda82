import Mathlib.Data.List.Nodup
import QuantumNode.Proofs.Subroutine.Reading
import QuantumNode.Proofs.Text.Words

/-! Lines that say something else and make the same subroutine: lines that say nothing may come and go, the case of
mnemonics may change, and labels may have other names. -/
namespace QuantumNode

open Text

/-- Labels are no integers. -/
theorem int64?_of_isLabelName {name : List Char} (h : Subroutine.Layout.isLabelName name = true) :
    int64? name = none := by
  cases name with
  | nil => exact nomatch h
  | cons c cs =>
    rw [Option.eq_none_iff_forall_ne_some]
    intro v hv
    obtain rfl | hd := (isDigit_of_int64? hv).1 c rfl
    · exact nomatch h
    · rw [Subroutine.isLabelName_digit hd] at h
      exact nomatch h

/-! ### Names of labels -/

/-- A line defines a label, or branches to it. -/
def SourceLine.Cites (name : List Char) : SourceLine → Prop
  | .label n => n = name
  | .code c => ∃ j, c.target? j = some name
  | _ => False

section Rename

variable (f : List Char → List Char)

/-- The wording in lower case, with other names for labels. -/
def Wording.respell (c : Wording) : Wording where
  mnemonic := lower c.mnemonic
  words := c.words.mapIdx fun j w => if (c.target? j).isSome then f w else w

def SourceLine.respell : SourceLine → SourceLine
  | .label name => .label (f name)
  | .code c => .code (c.respell f)
  | l => l

/-- Other names for some of the labels that lines define: no two labels have the same name afterwards, and none of the
new names was in use. -/
structure Renaming (ls : Source) : Prop where
  defined : ∀ name, f name ≠ name → .label name ∈ ls
  valid : ∀ name, f name ≠ name →
    Subroutine.Layout.isLabelName name = true ∧ Subroutine.Layout.isLabelName (f name) = true
  unused : ∀ name, f name ≠ name → ∀ l ∈ ls, ¬ l.Cites (f name)
  injective : ∀ a b, .label a ∈ ls → .label b ∈ ls → f a = f b → a = b

end Rename

theorem renaming_id (ls : Source) : Renaming id ls :=
  ⟨fun _ h => absurd rfl h, fun _ h => absurd rfl h, fun _ h => absurd rfl h, fun _ _ _ _ h => h⟩

namespace Renaming

variable {f : List Char → List Char} {ls : Source} (h : Renaming f ls)
include h

/-- Labels that come to have the name of a label in use had that name before. -/
theorem eq_of_cites {n w : List Char} (hn : .label n ∈ ls) {l : SourceLine} (hl : l ∈ ls) (hw : l.Cites w)
    (he : f n = f w) : n = w := by
  by_cases hfw : f w = w
  · by_cases hfn : f n = n
    · rw [← hfn, he, hfw]
    · have hunused := h.unused n hfn l hl
      rw [he, hfw] at hunused
      exact absurd hw hunused
  · exact h.injective n w hn (h.defined w hfw) he

theorem int64?_eq (w : List Char) : int64? (f w) = int64? w := by
  by_cases hfw : f w = w
  · rw [hfw]
  · obtain ⟨hold, hnew⟩ := h.valid w hfw
    rw [int64?_of_isLabelName hold, int64?_of_isLabelName hnew]

theorem isSound_respell (l : SourceLine) : (l.respell f).isSound = l.isSound := by
  cases l with
  | label name =>
    by_cases hf : f name = name
    · rw [SourceLine.respell, hf]
    · obtain ⟨hold, hnew⟩ := h.valid name hf
      rw [SourceLine.respell, SourceLine.isSound, SourceLine.isSound, hold, hnew]
  | note | appId | version | broken | code => rfl

end Renaming

namespace Wording

variable {f : List Char → List Char} {c : Wording} {place place' : List Char → Option Nat}

theorem ofName?_lower (w : List Char) : Opcode.ofName? (lower w) = Opcode.ofName? w := by
  simp only [Opcode.ofName?, lower_lower]

theorem getElem?_respell (j : Nat) : (c.respell f).words[j]? =
    c.words[j]?.map fun w => if (c.target? j).isSome then f w else w := List.getElem?_mapIdx

/-- A line in other words is read as the same instruction if the labels in it lead to the same places. -/
theorem reads_respell (h : ∀ j w, c.target? j = some w → int64? (f w) = int64? w ∧ place' (f w) = place w)
    (i : Instruction) : (c.respell f).Reads place' i ↔ c.Reads place i := by
  have hopcode : Opcode.ofName? (c.respell f).mnemonic = Opcode.ofName? c.mnemonic := ofName?_lower _
  have hlength : (c.respell f).words.length = c.words.length := List.length_mapIdx
  have hword {op : Opcode} (hop : Opcode.ofName? c.mnemonic = some op) {j : Nat} {kind : OperandKind} {w : List Char}
      (hkind : op.signature[j]? = some kind) (hw : c.words[j]? = some w) :
      operandAt? place' (if (c.target? j).isSome then f w else w) kind = operandAt? place w kind := by
    by_cases htarget : kind = .target
    · subst htarget
      have hj : c.target? j = some w := target?_eq_some.2 ⟨op, hop, hkind, hw⟩
      obtain ⟨hint, hplace⟩ := h j w hj
      rw [hj, Option.isSome_some, if_pos rfl, operandAt?, operandAt?, hint, hplace]
    · have hj : (c.target? j).isSome = false := by
        rw [Option.isSome_eq_false_iff, Option.isNone_iff_eq_none, Option.eq_none_iff_forall_ne_some]
        intro v hv
        obtain ⟨op', hop', hkind', -⟩ := target?_eq_some.1 hv
        obtain rfl : op = op' := Option.some.inj (hop.symm.trans hop')
        exact htarget (Option.some.inj (hkind.symm.trans hkind'))
      rw [hj]
      cases kind with
      | target => exact absurd rfl htarget
      | register | immediate | value | entry | slice | address => rfl
  rw [reads_iff, reads_iff, hopcode, hlength]
  refine and_congr_right fun hop => and_congr_right fun _ => ⟨fun hread j kind w o hkind hw ho => ?_,
    fun hread j kind w' o hkind hw' ho => ?_⟩
  · rw [← hword hop hkind hw]
    exact hread j kind _ o hkind (by rw [getElem?_respell, hw, Option.map_some]) ho
  · rw [getElem?_respell] at hw'
    obtain ⟨w, hw, rfl⟩ := Option.map_eq_some_iff.1 hw'
    rw [hword hop hkind hw]
    exact hread j kind w o hkind hw ho

end Wording

/-! ### Lines -/

namespace Source

/-- Lines that make the same subroutine, or none. -/
def Same (ls ls' : Source) : Prop := ∀ s, ls.Denotes s ↔ ls'.Denotes s

namespace Same

variable {ls ls' ls'' : Source}

theorem symm (h : Same ls ls') : Same ls' ls := fun s => (h s).symm

theorem trans (h : Same ls ls') (h' : Same ls' ls'') : Same ls ls'' := fun s => (h s).trans (h' s)

/-- Lines make the same subroutine if all parts of it are the same. -/
theorem of_parts (hsound : (∀ l ∈ ls, l.isSound = true) ↔ ∀ l ∈ ls', l.isSound = true)
    (hnames : (names ls).Nodup ↔ (names ls').Nodup) (happ : appId ls = appId ls') (hversion : version ls = version ls')
    (hcode : ∀ is, List.Forall₂ (Wording.Reads (place? ls)) (code ls) is ↔
      List.Forall₂ (Wording.Reads (place? ls')) (code ls') is) : Same ls ls' := by
  intro s
  constructor
  · rintro ⟨⟨h₁, h₂⟩, h₃, h₄, h₅⟩
    exact ⟨⟨hsound.1 h₁, hnames.1 h₂⟩, h₃.trans happ, h₄.trans hversion, (hcode _).1 h₅⟩
  · rintro ⟨⟨h₁, h₂⟩, h₃, h₄, h₅⟩
    exact ⟨⟨hsound.2 h₁, hnames.2 h₂⟩, h₃.trans happ.symm, h₄.trans hversion.symm, (hcode _).2 h₅⟩

end Same

variable {ls : Source}

/-! A line that says nothing. -/

section Notes

private theorem filterMap_notes {β : Type} {g : SourceLine → Option β} (hg : g .note = none) :
    (ls.filter (· ≠ .note)).filterMap g = ls.filterMap g := by
  rw [List.filterMap_filter]
  congr 1
  funext l
  by_cases h : l = .note
  · simp [h, hg]
  · simp [h]

private theorem place?_notes (name : List Char) : place? (ls.filter (· ≠ .note)) name = place? ls name := by
  induction ls with
  | nil => rfl
  | cons l ls ih =>
    by_cases h : l = .note
    · subst h
      have hne : SourceLine.note ≠ .label name := by simp
      rw [List.filter_cons_of_neg (by simp), ih, place?, if_neg hne]
      cases place? ls name <;> rfl
    · rw [List.filter_cons_of_pos (by simpa using h), place?, place?, ih]

theorem same_notes (ls : Source) : Same (ls.filter (· ≠ .note)) ls := by
  have hnames : names (ls.filter (· ≠ .note)) = names ls := filterMap_notes rfl
  have hcode : code (ls.filter (· ≠ .note)) = code ls := filterMap_notes rfl
  have hplace : place? (ls.filter (· ≠ .note)) = place? ls := funext fun name => place?_notes name
  apply Same.of_parts
  · refine ⟨fun h l hl => ?_, fun h l hl => h l (List.mem_of_mem_filter hl)⟩
    by_cases hnote : l = .note
    · rw [hnote]
      rfl
    · exact h l (by simp [hl, hnote])
  · rw [hnames]
  · exact congrArg (List.getLastD · 0) (filterMap_notes rfl)
  · exact congrArg (List.getLastD · Subroutine.defaultVersion) (filterMap_notes rfl)
  · intro is
    rw [hcode, hplace]

end Notes

/-! Other words for labels and mnemonics. -/

section Respell

variable {f : List Char → List Char}

private theorem filterMap_respell {β : Type} {g : SourceLine → Option β}
    (hg : ∀ l : SourceLine, g (l.respell f) = g l) :
    (ls.map (·.respell f)).filterMap g = ls.filterMap g := by
  rw [List.filterMap_map]
  congr 1
  funext l
  exact hg l

theorem names_respell : names (ls.map (·.respell f)) = (names ls).map f := by
  rw [names, List.filterMap_map, names, List.map_filterMap]
  congr 1
  funext l
  cases l <;> rfl

theorem code_respell : code (ls.map (·.respell f)) = (code ls).map (·.respell f) := by
  rw [code, List.filterMap_map, code, List.map_filterMap]
  congr 1
  funext l
  cases l <;> rfl

/-- A label that had its name to itself, and has its new name to itself, leads to the same place. -/
theorem place?_respell {w : List Char} (hw : ∀ n, .label n ∈ ls → f n = f w → n = w) :
    place? (ls.map (·.respell f)) (f w) = place? ls w := by
  induction ls with
  | nil => rfl
  | cons l ls ih =>
    have hlabel : l.respell f = .label (f w) ↔ l = .label w := by
      cases l with
      | label n =>
        simp only [SourceLine.respell, SourceLine.label.injEq]
        exact ⟨hw n (List.mem_cons_self ..), fun h => h ▸ rfl⟩
      | note | appId | version | broken | code => simp [SourceLine.respell]
    have hlength : (code [l.respell f]).length = (code [l]).length := by cases l <;> rfl
    rw [List.map_cons, place?, place?, ih fun n hn => hw n (List.mem_cons_of_mem _ hn), hlength]
    simp only [hlabel]

theorem mem_code {c : Wording} : c ∈ code ls ↔ .code c ∈ ls := by
  simp [code, SourceLine.code?_eq_some]

theorem same_respell (h : Renaming f ls) : Same (ls.map (·.respell f)) ls := by
  have hreads : ∀ c ∈ code ls, ∀ i,
      (c.respell f).Reads (place? (ls.map (·.respell f))) i ↔ c.Reads (place? ls) i := by
    intro c hc
    refine Wording.reads_respell fun j w hw => ⟨h.int64?_eq w, place?_respell fun n hn => ?_⟩
    exact h.eq_of_cites hn (mem_code.1 hc) ⟨j, hw⟩
  apply Same.of_parts
  · simp only [List.forall_mem_map, h.isSound_respell]
  · rw [names_respell]
    refine ⟨List.Nodup.of_map f, fun hnodup => hnodup.map_on fun a ha b hb => ?_⟩
    exact h.injective a b (mem_names.1 ha) (mem_names.1 hb)
  · exact congrArg (List.getLastD · 0) (filterMap_respell fun l => by cases l <;> rfl)
  · exact congrArg (List.getLastD · Subroutine.defaultVersion) (filterMap_respell fun l => by cases l <;> rfl)
  · intro is
    rw [code_respell, List.forall₂_map_left_iff, List.forall₂_iff_zip, List.forall₂_iff_zip]
    refine and_congr_right fun _ => ⟨fun hr c i hci => ?_, fun hr c i hci => ?_⟩
    · exact (hreads c (List.of_mem_zip hci).1 i).1 (hr hci)
    · exact (hreads c (List.of_mem_zip hci).1 i).2 (hr hci)

end Respell

end Source

end QuantumNode
