import Mathlib.Data.List.Forall2
import Mathlib.Data.List.Induction
import QuantumNode.Proofs.Subroutine.Line
import QuantumNode.Proofs.Subroutine.RoundTrip

/-! What a text is read as, told from all that its lines say. Main statement: the two passes over the text accept it
just when its lines make a subroutine together, and then that is the one they come to. -/
namespace QuantumNode

open Text

/-! ### Lines of a text -/

/-- The lines of a text, by what they say. -/
abbrev Source := List SourceLine

namespace Source

def ofText (text : String) : Source := (lines text.toList).map SourceLine.read

variable (ls : Source)

/-- The lines with instructions. -/
def code : List Wording := ls.filterMap SourceLine.code?

/-- The labels, in the order of their lines. -/
def names : List (List Char) := ls.filterMap SourceLine.label?

/-- The last header of its kind counts. -/
def appId : Int := (ls.filterMap SourceLine.appId?).getLastD 0

def version : String := (ls.filterMap SourceLine.version?).getLastD Subroutine.defaultVersion

/-- How many instructions stand above a label. -/
def place? : Source → List Char → Option Nat
  | [], _ => none
  | l :: ls, name => if l = .label name then some 0 else (place? ls name).map (· + (code [l]).length)

/-- Every line is in order, and no label is defined twice. -/
structure WellFormed : Prop where
  sound : ∀ l ∈ ls, l.isSound = true
  distinct : (names ls).Nodup

end Source

/-- A word as an operand of a kind, where labels lead to the places that they are given. -/
def operandAt? (place : List Char → Option Nat) (w : List Char) : OperandKind → Option Operand
  | .target => ((int64? w).or ((place w).map fun k : Nat => Word.signed64 k)).map .immediate
  | kind => Subroutine.operand? .start w kind

/-- The word in the place of an operand, where the operand is a branch target. -/
def Wording.target? (c : Wording) (j : Nat) : Option (List Char) :=
  if ((Opcode.ofName? c.mnemonic).bind (·.signature[j]?)) = some .target then c.words[j]? else none

/-- The instruction that a line of code stands for. -/
structure Wording.Reads (place : List Char → Option Nat) (c : Wording) (i : Instruction) : Prop where
  opcode : Opcode.ofName? c.mnemonic = some i.opcode
  count : c.words.length = i.opcode.signature.length
  operands : List.Forall₂ (fun p o => operandAt? place p.2 p.1 = some o) (i.opcode.signature.zip c.words) i.operands

/-- The subroutine that lines make together. -/
structure Source.Denotes (ls : Source) (s : Subroutine) : Prop extends ls.WellFormed where
  appId : s.appId = ls.appId
  version : s.version = ls.version
  instructions : List.Forall₂ (Wording.Reads ls.place?) ls.code s.instructions

theorem Wording.target?_eq_some {c : Wording} {j : Nat} {w : List Char} : c.target? j = some w ↔
    ∃ op, Opcode.ofName? c.mnemonic = some op ∧ op.signature[j]? = some .target ∧ c.words[j]? = some w := by
  rw [target?, Option.ite_none_right_eq_some, Option.bind_eq_some_iff]
  constructor
  · rintro ⟨⟨op, hop, hkind⟩, hw⟩
    exact ⟨op, hop, hkind, hw⟩
  · rintro ⟨op, hop, hkind, hw⟩
    exact ⟨⟨op, hop, hkind⟩, hw⟩

theorem exists_of_forall₂ {α β : Type} {R : α → β → Prop} {as : List α} {bs : List β} (h : List.Forall₂ R as bs)
    {k : Nat} {a : α} (ha : as[k]? = some a) : ∃ b, bs[k]? = some b ∧ R a b := by
  obtain ⟨hlength, hget⟩ := List.forall₂_iff_get.1 h
  obtain ⟨hk, rfl⟩ := List.getElem?_eq_some_iff.1 ha
  have hk' : k < bs.length := hlength ▸ hk
  exact ⟨bs[k], List.getElem?_eq_getElem hk', hget k hk hk'⟩

/-- Each operand is read from the word in its place. -/
theorem Wording.reads_iff {place : List Char → Option Nat} {c : Wording} {i : Instruction} : c.Reads place i ↔
    Opcode.ofName? c.mnemonic = some i.opcode ∧ c.words.length = i.opcode.signature.length ∧
      ∀ (j : Nat) (kind : OperandKind) (w : List Char) (o : Operand), i.opcode.signature[j]? = some kind →
        c.words[j]? = some w → i.operands[j]? = some o → operandAt? place w kind = some o := by
  constructor
  · rintro ⟨hop, hcount, hoperands⟩
    refine ⟨hop, hcount, fun j kind w o hkind hw ho => ?_⟩
    have hzip : (i.opcode.signature.zip c.words)[j]? = some (kind, w) := List.getElem?_zip_eq_some.2 ⟨hkind, hw⟩
    obtain ⟨o', ho', hread⟩ := exists_of_forall₂ hoperands hzip
    obtain rfl : o' = o := Option.some.inj (ho'.symm.trans ho)
    exact hread
  · rintro ⟨hop, hcount, hread⟩
    have hlength : (i.opcode.signature.zip c.words).length = i.operands.length := by
      rw [List.length_zip, hcount, Nat.min_self, OperandKind.length_of_admitAll i.admitAll_operands]
    refine ⟨hop, hcount, List.forall₂_iff_get.2 ⟨hlength, fun j h₁ h₂ => ?_⟩⟩
    obtain ⟨hkind, hw⟩ := List.getElem?_zip_eq_some.1 (List.getElem?_eq_getElem h₁)
    exact hread j _ _ _ hkind hw (List.getElem?_eq_getElem h₂)

namespace Source

variable {ls : Source} {name : List Char}

@[simp] theorem code_append (as bs : Source) : code (as ++ bs) = code as ++ code bs := List.filterMap_append

@[simp] theorem code_label (below : Source) : code (.label name :: below) = code below := rfl

theorem mem_names : name ∈ names ls ↔ .label name ∈ ls := by
  simp [names, SourceLine.label?_eq_some]

theorem place?_eq_none : place? ls name = none ↔ name ∉ names ls := by
  rw [mem_names]
  induction ls with
  | nil => simp [place?]
  | cons l ls ih =>
    rw [place?, List.mem_cons]
    split
    · next h => simp [h]
    · next h =>
      rw [Option.map_eq_none_iff, ih]
      simp [Ne.symm h]

theorem length_code_cons (l : SourceLine) (ls : Source) :
    (code (l :: ls)).length = (code ls).length + (code [l]).length := by
  rw [← List.singleton_append, code_append, List.length_append, Nat.add_comm]

theorem place?_append (as bs : Source) :
    place? (as ++ bs) name = (place? as name).or ((place? bs name).map (· + (code as).length)) := by
  induction as with
  | nil => simp [place?, code]
  | cons l as ih =>
    rw [List.cons_append, place?, place?, ih]
    split
    · rfl
    · cases place? as name with
      | some k => rfl
      | none =>
        cases place? bs name with
        | none => rfl
        | some k => simp [length_code_cons l as, Nat.add_assoc]

/-- A label that leads somewhere stands in a line, below the instructions that it leads past. -/
theorem exists_of_place? {k : Nat} (h : place? ls name = some k) :
    ∃ above below, ls = above ++ .label name :: below ∧ k = (code above).length := by
  induction ls generalizing k with
  | nil => exact nomatch h
  | cons l ls ih =>
    rw [place?] at h
    split at h
    · next hl =>
      cases h
      exact ⟨[], ls, by rw [hl, List.nil_append], rfl⟩
    · obtain ⟨j, hj, rfl⟩ := Option.map_eq_some_iff.1 h
      obtain ⟨above, below, rfl, rfl⟩ := ih hj
      exact ⟨l :: above, below, rfl, (length_code_cons l above).symm⟩

/-! ### One line after others -/

/-- A line that may follow the lines above it. -/
structure Fits (ls : Source) (line : SourceLine) : Prop where
  sound : line.isSound = true
  new : ∀ name ∈ line.label?, name ∉ names ls

theorem wellFormed_concat {line : SourceLine} : WellFormed (ls ++ [line]) ↔ WellFormed ls ∧ Fits ls line := by
  have hnames : names (ls ++ [line]) = names ls ++ line.label?.toList := by
    rw [names, List.filterMap_append]
    cases h : line.label? <;> simp [names, h]
  constructor
  · rintro ⟨hsound, hdistinct⟩
    rw [hnames, List.nodup_append] at hdistinct
    obtain ⟨hold, -, hnew⟩ := hdistinct
    refine ⟨⟨fun l hl => hsound l (by simp [hl]), hold⟩, hsound line (by simp), fun name hname hmem => ?_⟩
    exact hnew name hmem name (by simpa using hname) rfl
  · rintro ⟨⟨hsound, hdistinct⟩, hline, hnew⟩
    refine ⟨fun l hl => ?_, ?_⟩
    · obtain hl | hl := List.mem_append.1 hl
      · exact hsound l hl
      · rw [List.mem_singleton.1 hl]
        exact hline
    · rw [hnames, List.nodup_append]
      refine ⟨hdistinct, ?_, fun a ha b hb => ?_⟩
      · cases line.label? <;> simp
      · rintro rfl
        exact hnew a (by simpa using hb) ha

end Source

namespace Subroutine

open Source

def CodeLine.wording (c : CodeLine) : Wording := ⟨c.mnemonic, c.words⟩

/-- What the first pass has found in the lines that it has been over. -/
structure Layout.Laid (ls : Source) (l : Layout) : Prop where
  appId : l.appId = ls.appId
  version : l.version = ls.version
  label? : ∀ name, l.label? name = ls.place? name
  code : l.code.reverse.map CodeLine.wording = ls.code

namespace Layout

theorem laid_start : Laid [] .start := ⟨rfl, rfl, fun _ => rfl, rfl⟩

variable {ls : Source} {l l' : Layout} {n : Nat} {line : SourceLine}

theorem Laid.length_code (h : Laid ls l) : l.code.length = (Source.code ls).length := by
  rw [← h.code, List.length_map, List.length_reverse]

/-- A line that fits below others is what can be added to their layout. -/
theorem Laid.fits_iff (h : Laid ls l) :
    (line.isSound = true ∧ ∀ name ∈ line.label?, l.label? name = none) ↔ Fits ls line := by
  simp only [h.label?, place?_eq_none]
  exact ⟨fun ⟨hsound, hnew⟩ => ⟨hsound, hnew⟩, fun ⟨hsound, hnew⟩ => ⟨hsound, hnew⟩⟩

theorem Laid.label?_add (h : Laid ls l) (hf : Fits ls line) (name : List Char) :
    (l.add n line).label? name = (ls ++ [line]).place? name := by
  rw [place?_append, ← h.label?, Layout.label?, add]
  cases hl : line.label? with
  | none =>
    have hne : line ≠ .label name := by simp [← SourceLine.label?_eq_some, hl]
    simp [place?, hne, Layout.label?]
  | some new =>
    rw [SourceLine.label?_eq_some] at hl
    subst hl
    by_cases hn : name = new
    · subst hn
      have hnew : l.label? name = none := by
        rw [h.label?, place?_eq_none]
        exact hf.new name rfl
      simp [place?, hnew, h.length_code]
    · have hne : SourceLine.label new ≠ .label name := fun h => hn (SourceLine.label.inj h).symm
      have hbeq : (name == new) = false := by simpa using hn
      simp [place?, hne, Layout.label?, List.lookup_cons, hbeq]

/-- A layout with a line that fits tells of that line as well. -/
theorem Laid.add (h : Laid ls l) (hf : Fits ls line) : Laid (ls ++ [line]) (l.add n line) := by
  refine ⟨?_, ?_, h.label?_add hf, ?_⟩
  · cases hid : line.appId? <;> simp [Layout.add, Source.appId, hid, h.appId]
  · cases hversion : line.version? <;> simp [Layout.add, Source.version, hversion, h.version]
  · have hcode : ls.filterMap SourceLine.code? = (l.code.map CodeLine.wording).reverse := by
      rw [← List.map_reverse]
      exact h.code.symm
    cases hline : line.code? <;> simp [Layout.add, Source.code, hline, hcode, CodeLine.wording]

/-! ### All lines -/

/-- The first pass goes through if and only if the lines are in order, and then it has found what they say. -/
theorem foldlM_addLine (ps : List (Nat × List Char)) :
    (WellFormed (ps.map fun p => .read p.2) ↔ ∃ l, ps.foldlM (fun l p => l.addLine p.1 p.2) start = .ok l) ∧
    ∀ l, ps.foldlM (fun l p => l.addLine p.1 p.2) start = .ok l → Laid (ps.map fun p => .read p.2) l := by
  induction ps using List.reverseRecOn with
  | nil =>
    refine ⟨⟨fun _ => ⟨_, rfl⟩, fun _ => ⟨nofun, List.nodup_nil⟩⟩, fun l hl => ?_⟩
    cases hl
    exact laid_start
  | append_singleton ps p ih =>
    obtain ⟨through, found⟩ := ih
    have hstep {l₁ l : Layout} (h₁ : ps.foldlM (fun l p => l.addLine p.1 p.2) start = .ok l₁) :
        l₁.addLine p.1 p.2 = .ok l ↔ Fits (ps.map fun p => .read p.2) (.read p.2) ∧ l = l₁.add p.1 (.read p.2) := by
      rw [← (found l₁ h₁).fits_iff]
      exact addLine_eq_ok
    simp only [List.map_append, List.map_singleton, wellFormed_concat, through, List.foldlM_append, List.foldlM_cons,
      List.foldlM_nil, bind_pure]
    refine ⟨⟨?_, ?_⟩, ?_⟩
    · rintro ⟨⟨l₁, h₁⟩, hfits⟩
      refine ⟨l₁.add p.1 (.read p.2), ?_⟩
      rw [h₁]
      exact (hstep h₁).2 ⟨hfits, rfl⟩
    · rintro ⟨l, hl⟩
      obtain ⟨l₁, h₁, hl⟩ := bind_ok hl
      exact ⟨⟨l₁, h₁⟩, ((hstep h₁).1 hl).1⟩
    · intro l hl
      obtain ⟨l₁, h₁, hl⟩ := bind_ok hl
      obtain ⟨hfits, rfl⟩ := (hstep h₁).1 hl
      exact (found l₁ h₁).add hfits

end Layout

/-! ### Instructions -/

theorem operand?_eq (l : Layout) (w : List Char) (kind : OperandKind) :
    operand? l w kind = operandAt? l.label? w kind := by
  cases kind with
  | target =>
    simp only [operand?, target?, operandAt?]
    cases int64? w <;> rfl
  | register | immediate | value | entry | slice | address => rfl

theorem mapM_ok_iff_forall₂ {ε α β : Type} {f : α → Except ε β} {xs : List α} {ys : List β} :
    xs.mapM f = .ok ys ↔ List.Forall₂ (fun x y => f x = .ok y) xs ys := by
  rw [mapM_eq_ok_iff, ← List.forall₂_eq_eq_eq, List.forall₂_map_left_iff, List.forall₂_map_right_iff]

theorem instruction_eq_ok_iff {l : Layout} {c : CodeLine} {i : Instruction} :
    instruction l c = .ok i ↔ c.wording.Reads l.label? i := by
  constructor
  · intro h
    obtain ⟨op, os, hop, hlength, hos, hi⟩ := instruction_eq_ok.1 h
    obtain ⟨j, hj, rfl, rfl⟩ := Instruction.ofOperands?_of_admitAll (mapM_operand_ok hlength hos).1
    obtain rfl : j = i := Option.some.inj (hj.symm.trans hi)
    simp only [mapM_ok_iff_forall₂, operand_eq_ok, operand?_eq] at hos
    exact ⟨hop, hlength, hos⟩
  · rintro ⟨hop, hlength, hos⟩
    refine instruction_eq_ok.2 ⟨i.opcode, i.operands, hop, hlength, ?_, i.ofOperands?_operands⟩
    simp only [mapM_ok_iff_forall₂, operand_eq_ok, operand?_eq]
    exact hos

/-- A text is accepted if and only if its lines make a subroutine, and that is what it is read as. -/
theorem parse_eq_ok_iff {text : String} {s : Subroutine} : parse text = .ok s ↔ (Source.ofText text).Denotes s := by
  have hlines : (numberedLines text.toList).map (fun p => SourceLine.read p.2) = Source.ofText text := by
    rw [numberedLines, List.map_map, Source.ofText]
    conv_rhs => rw [← List.zipIdx_map_fst 1 (lines text.toList), List.map_map]
    rfl
  obtain ⟨through, found⟩ := Layout.foldlM_addLine (numberedLines text.toList)
  rw [hlines] at found through
  have hcode {l : Layout} (hl : l.Laid (Source.ofText text)) {is : List Instruction} :
      l.code.reverse.mapM (instruction l) = .ok is ↔
        List.Forall₂ (Wording.Reads (Source.ofText text).place?) (Source.ofText text).code is := by
    simp only [mapM_ok_iff_forall₂, instruction_eq_ok_iff]
    rw [← hl.code, List.forall₂_map_left_iff, funext hl.label?]
  constructor
  · intro h
    obtain ⟨l, hl, h⟩ := bind_ok h
    obtain ⟨is, his, h⟩ := bind_ok h
    cases h
    have hlaid := found l hl
    exact ⟨through.2 ⟨l, hl⟩, hlaid.appId, hlaid.version, (hcode hlaid).1 his⟩
  · intro h
    obtain ⟨l, hl⟩ := through.1 h.toWellFormed
    have hlaid := found l hl
    have his := (hcode hlaid).2 h.instructions
    have hfold : Layout.ofText text.toList = .ok l := hl
    rw [parse, parseChars, hfold]
    simp only [bind, Except.bind, his, hlaid.appId, hlaid.version, ← h.appId, ← h.version]
    rfl

end Subroutine

end QuantumNode
