import Mathlib.Logic.Relation
import QuantumNode.Proofs.Subroutine.Respelling

/-! Edits of a subroutine's text that are a matter of taste. Main statement: blank lines, comments, blanks, the case of
mnemonics and the names of labels have no part in what a text is read as. -/
namespace QuantumNode

open Text

/-! ### Blanks -/

/-- Where blanks can be put into a line: where a word ends or begins, and on either side of the mark that its comment
starts with. -/
inductive Gap : List Char → List Char → Prop
  | before {a c : List Char} (h : EndsWord c) : Gap a c
  | behind {a c : List Char} (h : ∀ d ∈ a.getLast?, isBlank d = true) : Gap a c
  | mark {a c : List Char} (h : '#' ∉ a) : Gap a ('#' :: c)
  | comment {a c : List Char} (h : '#' ∉ a) : Gap (a ++ ['#']) c

namespace SourceLine

/-- A line with words before its comment says what these words say. -/
theorem read_of_words {raw : List Char} {w : List Char} {ws : List (List Char)} (h : words (before '#' raw) = w :: ws) :
    read raw = ofWords (w :: ws) := by
  obtain hno | ⟨front, comment, hfront, rfl⟩ := exists_front raw
  · rw [before_eq_self hno] at h
    rw [read_of_not_mem hno, h]
  · rw [before_append_cons, before_eq_self hfront] at h
    rw [read_append_comment hfront, h, if_neg (List.cons_ne_nil _ _)]

theorem read_insert {a b c : List Char} (hb : AllBlank b) (h : Gap a c) : read (a ++ b ++ c) = read (a ++ c) := by
  by_cases ha : '#' ∈ a
  · -- The gap is in the comment.
    obtain ⟨front, r, rfl, hfront⟩ := List.eq_append_cons_of_mem ha
    have hgap : EndsWord c ∨ ∀ d ∈ r.getLast?, isBlank d = true := by
      generalize hcut : front ++ '#' :: r = a at h
      cases h with
      | before hc => exact .inl hc
      | behind hlast =>
        refine .inr fun d hd => hlast d ?_
        have hne : r ≠ [] := by
          rintro rfl
          exact nomatch hd
        rw [← hcut, ← List.singleton_append, ← List.append_assoc, getLast?_append_of_ne_nil _ hne]
        exact hd
      | mark hno => exact absurd ha (hcut ▸ hno)
      | @comment a _ hno =>
        have h₁ := cutAt_append hfront r
        rw [hcut, cutAt_append hno] at h₁
        cases h₁
        exact .inr nofun
    have hwords := words_insert (a := r) hb hgap
    simp only [List.append_assoc, List.cons_append] at hwords ⊢
    rw [read_append_comment hfront, read_append_comment hfront, hwords]
  · have hab : '#' ∉ a ++ b := List.not_mem_append ha hb.not_mem
    by_cases hc : '#' ∈ c
    · obtain ⟨front, r, rfl, hfront⟩ := List.eq_append_cons_of_mem hc
      have hgap : EndsWord front ∨ ∀ d ∈ a.getLast?, isBlank d = true := by
        generalize hcut : front ++ '#' :: r = c at h
        cases h with
        | before hc => exact .inl (hcut ▸ hc : EndsWord (front ++ '#' :: r)).of_append
        | behind hlast => exact .inr hlast
        | @mark _ c =>
          have h₁ := cutAt_append hfront r
          rw [hcut, ← List.nil_append ('#' :: c), cutAt_append List.not_mem_nil] at h₁
          cases h₁
          exact .inl nofun
        | comment => exact absurd (by simp) ha
      have hwords := words_insert (a := a) hb hgap
      rw [← List.append_assoc, ← List.append_assoc, read_append_comment (List.not_mem_append hab hfront),
        read_append_comment (List.not_mem_append ha hfront), hwords]
    · have hgap : EndsWord c ∨ ∀ d ∈ a.getLast?, isBlank d = true := by
        cases h with
        | before hends => exact .inl hends
        | behind hlast => exact .inr hlast
        | mark => exact absurd (List.mem_cons_self ..) hc
        | comment => exact absurd (by simp) ha
      rw [read_of_not_mem (List.not_mem_append hab hc), read_of_not_mem (List.not_mem_append ha hc),
        words_insert hb hgap]

end SourceLine

/-! ### Edits of a line -/

open SourceLine

/-- A change of a line: blanks in one of its gaps, a comment behind its words, or letters of other case in the mnemonic
of an instruction. -/
inductive LineEdit : List Char → List Char → Prop
  | blanks {a b c : List Char} (hb : AllBlank b) (h : Gap a c) : LineEdit (a ++ c) (a ++ b ++ c)
  | remark {raw : List Char} (h : ¬ AllBlank (before '#' raw)) (c : List Char) : LineEdit raw (raw ++ '#' :: c)
  | mnemonic {b w w' r : List Char} (hb : AllBlank b) (hw : IsWord w) (hno : '#' ∉ w) (hr : EndsWord (before '#' r))
      (hcode : (read (b ++ w ++ r)).code?.isSome = true) (h : lower w = lower w') :
      LineEdit (b ++ w ++ r) (b ++ w' ++ r)

namespace SourceLine

theorem ofWords_code {w : List Char} {ws : List (List Char)} (h : (ofWords (w :: ws)).code?.isSome = true) :
    ofWords (w :: ws) = .code ⟨w, ws⟩ ∧ (ws.getLastD w).getLast? ≠ some ':' := by
  rw [ofWords] at h ⊢
  by_cases hcolon : (ws.getLastD w).getLast? = some ':'
  · rw [if_pos hcolon] at h
    split at h <;> cases h
  · exact ⟨if_neg hcolon, hcolon⟩

/-- A word before the comment of a line, in its place among the others. -/
theorem words_before {a w r : List Char} (ha : '#' ∉ a) (hlast : ∀ d ∈ a.getLast?, isBlank d = true) (hw : IsWord w)
    (hno : '#' ∉ w) (hr : EndsWord (before '#' r)) :
    words (before '#' (a ++ w ++ r)) = words a ++ w :: words (before '#' r) := by
  rw [before_append_of_not_mem (List.not_mem_append ha hno), words_place hlast hw hr]

end SourceLine

/-- An edited line says the same, but for the case of a mnemonic. -/
theorem LineEdit.respell_eq {raw raw' : List Char} (h : LineEdit raw raw') :
    (read raw').respell id = (read raw).respell id := by
  cases h with
  | blanks hb h => rw [read_insert hb h]
  | remark h c =>
    obtain ⟨w, ws, hw⟩ := List.exists_cons_of_ne_nil (mt words_eq_nil_iff.1 h)
    rw [read_of_words hw, read_of_words (by rwa [before_append_cons])]
  | @mnemonic b w w' r hb hw hno hr hcode h =>
    have hlast : ∀ d ∈ b.getLast?, isBlank d = true := fun d hd => hb d (List.mem_of_getLast? hd)
    have hw' : IsWord w' := isWord_of_lower hw h
    have hno' : '#' ∉ w' := not_mem_of_lower (by decide) h hno
    have hread := read_of_words (by rw [words_before hb.not_mem hlast hw hno hr, hb.words_eq_nil, List.nil_append])
    have hread' := read_of_words (by rw [words_before hb.not_mem hlast hw' hno' hr, hb.words_eq_nil, List.nil_append])
    rw [hread] at hcode
    obtain ⟨hcode, hcolon⟩ := ofWords_code hcode
    have hcolon' : ((words (before '#' r)).getLastD w').getLast? ≠ some ':' := by
      cases hws : words (before '#' r) with
      | nil =>
        rw [hws] at hcolon
        exact getLast?_of_lower (by decide) h hcolon
      | cons v vs =>
        rw [hws] at hcolon
        exact hcolon
    rw [hread, hcode, hread', ofWords, if_neg hcolon']
    simp [SourceLine.respell, Wording.respell, h]

/-! ### Other names for labels -/

theorem Opcode.length_signature_le (op : Opcode) : op.signature.length ≤ 5 := by cases op <;> decide

/-- No instruction has two targets. -/
theorem Opcode.target_unique {op : Opcode} {j k : Nat} (hj : op.signature[j]? = some .target)
    (hk : op.signature[k]? = some .target) : j = k := by
  have hle := op.length_signature_le
  have hj' : j < 5 := Nat.lt_of_lt_of_le (List.getElem?_eq_some_iff.1 hj).1 hle
  have hk' : k < 5 := Nat.lt_of_lt_of_le (List.getElem?_eq_some_iff.1 hk).1 hle
  have hall : ∀ j k : Fin 5, op.signature[j.val]? = some .target → op.signature[k.val]? = some .target → j = k := by
    cases op <;> decide
  exact congrArg Fin.val (hall ⟨j, hj'⟩ ⟨k, hk'⟩ hj hk)

/-- A line with other names for labels, which stand before the colon of a definition and in the places of branch
targets. -/
inductive Renamed (f : List Char → List Char) : List Char → List Char → Prop
  | keep {raw : List Char} (h : ∀ name, (read raw).Cites name → f name = name) : Renamed f raw raw
  | label {b name r : List Char} (hb : AllBlank b) (hname : Subroutine.Layout.isLabelName name = true)
      (hr : AllBlank (before '#' r)) : Renamed f (b ++ (name ++ [':']) ++ r) (b ++ (f name ++ [':']) ++ r)
  | target {a m w r : List Char} {us : List (List Char)} {op : Opcode} (ha : '#' ∉ a)
      (hlast : ∀ d ∈ a.getLast?, isBlank d = true) (hwords : words a = m :: us) (hop : Opcode.ofName? m = some op)
      (hkind : op.signature[us.length]? = some .target) (hw : IsWord w) (hno : '#' ∉ w) (hr : EndsWord (before '#' r))
      (hcode : (read (a ++ w ++ r)).code?.isSome = true) : Renamed f (a ++ w ++ r) (a ++ f w ++ r)

/-- Only the word in the place of the target is another one. -/
theorem Wording.respell_place {f : List Char → List Char} {m w : List Char} {us vs : List (List Char)} {op : Opcode}
    (hop : Opcode.ofName? m = some op) (hkind : op.signature[us.length]? = some .target) :
    (Wording.mk m (us ++ w :: vs)).respell f = ⟨lower m, us ++ f w :: vs⟩ := by
  have hset : us ++ f w :: vs = (us ++ w :: vs).set us.length (f w) := by simp
  rw [respell, Wording.mk.injEq]
  refine ⟨rfl, List.ext_getElem? fun j => ?_⟩
  rw [List.getElem?_mapIdx, hset]
  by_cases hj : us.length = j
  · subst hj
    have htarget : (Wording.mk m (us ++ w :: vs)).target? us.length = some w :=
      target?_eq_some.2 ⟨op, hop, hkind, by simp⟩
    simp [htarget]
  · have htarget : (Wording.mk m (us ++ w :: vs)).target? j = none := by
      rw [Option.eq_none_iff_forall_ne_some]
      intro v hv
      obtain ⟨op', hop', hkind', -⟩ := target?_eq_some.1 hv
      obtain rfl : op = op' := Option.some.inj (hop.symm.trans hop')
      exact hj (Opcode.target_unique hkind hkind')
    rw [List.getElem?_set_ne hj, htarget]
    simp

theorem isWord_of_isLabelName {name : List Char} (h : Subroutine.Layout.isLabelName name = true) : IsWord name := by
  refine ⟨?_, Subroutine.solid_of_isLabelName h⟩
  rintro rfl
  exact nomatch h

theorem not_mem_of_isLabelName {name : List Char} (h : Subroutine.Layout.isLabelName name = true) {d : Char}
    (hd : isWordChar d = false) : d ∉ name := fun hm =>
  absurd (Subroutine.isWordChar_of_isLabelName h d hm) (by simp [hd])

theorem SourceLine.read_label {b name r : List Char} (hb : AllBlank b)
    (hname : Subroutine.Layout.isLabelName name = true) (hr : AllBlank (before '#' r)) :
    read (b ++ (name ++ [':']) ++ r) = .label name := by
  have hlast : ∀ d ∈ b.getLast?, isBlank d = true := fun d hd => hb d (List.mem_of_getLast? hd)
  have hends : EndsWord (before '#' r) := fun d hd => hr d (List.mem_of_head? hd)
  have hword := Subroutine.isWord_label hname
  have hno : '#' ∉ name ++ [':'] := List.not_mem_append (not_mem_of_isLabelName hname (by decide)) (by decide)
  have hwords : words (before '#' (b ++ (name ++ [':']) ++ r)) = [name ++ [':']] := by
    rw [words_before hb.not_mem hlast hword hno hends, hb.words_eq_nil, hr.words_eq_nil, List.nil_append]
  rw [read_of_words hwords, ofWords, List.getLastD_nil, List.getLast?_concat, if_pos rfl, if_pos rfl,
    List.dropLast_concat]

/-- A line with other names for labels says the same with these names. -/
theorem Renamed.respell_eq {f : List Char → List Char} {raw raw' : List Char} (h : Renamed f raw raw')
    (hvalid : ∀ name, f name ≠ name → Subroutine.Layout.isLabelName (f name) = true) :
    (read raw').respell id = (read raw).respell f := by
  cases h with
  | keep h =>
    cases hread : read raw with
    | label name =>
      rw [hread] at h
      simp [SourceLine.respell, h name rfl]
    | code c =>
      rw [hread] at h
      simp only [SourceLine.respell, SourceLine.code.injEq, Wording.respell, Wording.mk.injEq, true_and]
      refine List.ext_getElem? fun j => ?_
      simp only [List.getElem?_mapIdx, id]
      refine Option.map_congr fun w hw => ?_
      cases htarget : c.target? j with
      | none => rfl
      | some v =>
        obtain ⟨-, -, -, hv⟩ := Wording.target?_eq_some.1 htarget
        obtain rfl : w = v := Option.some.inj (hw.symm.trans hv)
        simp [h w ⟨j, htarget⟩]
    | note | appId | version | broken => rfl
  | @label b name r hb hname hr =>
    have hname' : Subroutine.Layout.isLabelName (f name) = true := by
      by_cases hf : f name = name
      · rwa [hf]
      · exact hvalid name hf
    rw [read_label hb hname hr, read_label hb hname' hr]
    rfl
  | @target a m w r us op ha hlast hwords hop hkind hw hno hr hcode =>
    have hread := read_of_words (by rw [words_before ha hlast hw hno hr, hwords, List.cons_append])
    rw [hread] at hcode
    obtain ⟨hcode, hcolon⟩ := ofWords_code hcode
    have hread' : read (a ++ f w ++ r) = .code ⟨m, us ++ f w :: words (before '#' r)⟩ := by
      by_cases hf : f w = w
      · rw [hf, hread, hcode]
      · have hname := hvalid w hf
        have hno' : '#' ∉ f w := not_mem_of_isLabelName hname (by decide)
        have hword := isWord_of_isLabelName hname
        rw [read_of_words (by rw [words_before ha hlast hword hno' hr, hwords, List.cons_append]), ofWords, if_neg]
        rw [List.getLastD_eq_getLast?, List.getLast?_append, List.getLast?_cons, Option.some_or,
          Option.getD_some] at hcolon ⊢
        cases hvs : words (before '#' r) with
        | nil =>
          simp only [List.getLast?_nil, Option.getD_none]
          exact fun hc => not_mem_of_isLabelName hname (by decide) (List.mem_of_getLast? hc)
        | cons v vs =>
          rw [hvs, List.getLast?_cons, Option.getD_some] at hcolon
          rwa [List.getLast?_cons, Option.getD_some]
    rw [hread', hread, hcode]
    simp only [SourceLine.respell, Wording.respell_place hop hkind, id]

/-! Every line can be written with other names for labels. -/

namespace SourceLine

/-- A line that defines a label, or that has an instruction, says so by the words before its comment. -/
theorem read_eq_ofWords {raw : List Char} (h : (read raw).label?.isSome = true ∨ (read raw).code?.isSome = true) :
    read raw = ofWords (words (before '#' raw)) := by
  have hcomment (ws : List (List Char)) : (ofComment ws).label? = none ∧ (ofComment ws).code? = none := by
    unfold ofComment
    split
    · exact ⟨rfl, rfl⟩
    · split <;> exact ⟨rfl, rfl⟩
  cases hw : words (before '#' raw) with
  | cons w ws => rw [read_of_words hw]
  | nil =>
    obtain hno | ⟨front, comment, hfront, rfl⟩ := exists_front raw
    · rw [before_eq_self hno] at hw
      rw [read_of_not_mem hno, hw]
    · rw [before_append_cons, before_eq_self hfront] at hw
      rw [read_append_comment hfront, if_pos hw] at h
      simp [hcomment] at h

theorem ofWords_eq_label {ws : List (List Char)} {name : List Char} (h : ofWords ws = .label name) :
    ws = [name ++ [':']] := by
  cases ws with
  | nil => exact nomatch h
  | cons w ws =>
    rw [ofWords] at h
    split at h
    · next hcolon =>
      split at h
      · next hws =>
        subst hws
        obtain ⟨v, rfl⟩ := List.getLast?_eq_some_iff.1 hcolon
        rw [List.dropLast_concat, label.injEq] at h
        rw [h]
      · cases h
    · cases h

theorem ofWords_eq_code {ws : List (List Char)} {c : Wording} (h : ofWords ws = .code c) :
    ws = c.mnemonic :: c.words := by
  cases ws with
  | nil => exact nomatch h
  | cons w ws =>
    have hsome : (ofWords (w :: ws)).code?.isSome = true := by rw [h]; rfl
    have hcode := (ofWords_code hsome).1
    rw [h, code.injEq] at hcode
    rw [hcode]

end SourceLine

namespace Renamed

variable {f : List Char → List Char} (hvalid : ∀ name, f name ≠ name →
  Subroutine.Layout.isLabelName name = true ∧ Subroutine.Layout.isLabelName (f name) = true)
include hvalid

theorem exists_line (raw : List Char) : ∃ raw', Renamed f raw raw' := by
  by_cases hkeep : ∀ name, (read raw).Cites name → f name = name
  · exact ⟨raw, .keep hkeep⟩
  · obtain ⟨name, hcites, hf⟩ : ∃ name, (read raw).Cites name ∧ f name ≠ name := by simpa using hkeep
    obtain ⟨tail, htail, hraw⟩ : ∃ tail, before '#' tail = [] ∧ raw = before '#' raw ++ tail := by
      refine ⟨raw.dropWhile (· != '#'), ?_, List.takeWhile_append_dropWhile.symm⟩
      rw [before, List.takeWhile_eq_nil_iff]
      exact fun h => List.dropWhile_get_zero_not _ _ h
    have hfront : '#' ∉ before '#' raw := fun hm => by simpa using List.mem_takeWhile_imp hm
    cases hread : read raw with
    | label n =>
      obtain rfl : n = name := by rwa [hread] at hcites
      have hwords := SourceLine.ofWords_eq_label ((read_eq_ofWords (.inl (by rw [hread]; rfl))).symm.trans hread)
      rw [← List.nil_append [n ++ [':']]] at hwords
      obtain ⟨b, r, hplace, hb, -, -, hr⟩ := exists_place hwords
      rw [hplace] at hfront hraw
      have hend : before '#' (r ++ tail) = r := by
        rw [before_append_of_not_mem (fun hm => hfront (by simp [hm])), htail, List.append_nil]
      rw [hraw, List.append_assoc]
      exact ⟨_, .label (words_eq_nil_iff.1 hb) (hvalid _ hf).1 (by rw [hend]; exact words_eq_nil_iff.1 hr)⟩
    | code c =>
      rw [hread] at hcites
      obtain ⟨j, hj⟩ := hcites
      obtain ⟨op, hop, hkind, hw⟩ := Wording.target?_eq_some.1 hj
      obtain ⟨us, vs, hws, rfl⟩ : ∃ us vs, c.words = us ++ name :: vs ∧ us.length = j := by
        obtain ⟨hlt, hget⟩ := List.getElem?_eq_some_iff.1 hw
        refine ⟨c.words.take j, c.words.drop (j + 1), ?_, by simp; omega⟩
        rw [← hget, ← List.drop_eq_getElem_cons hlt, List.take_append_drop]
      have hcode : (read raw).code?.isSome = true := by rw [hread]; rfl
      have hwords := SourceLine.ofWords_eq_code ((read_eq_ofWords (.inr hcode)).symm.trans hread)
      rw [hws, ← List.cons_append] at hwords
      obtain ⟨a, r, hplace, ha, hlast, hr, -⟩ := exists_place hwords
      have hmem : name ∈ words (before '#' raw) := by rw [hwords]; simp
      have hword := isWord_of_mem_words hmem
      rw [hplace] at hfront hraw
      have hend : before '#' (r ++ tail) = r := by
        rw [before_append_of_not_mem (fun hm => hfront (by simp [hm])), htail, List.append_nil]
      rw [hraw, List.append_assoc] at hcode ⊢
      exact ⟨_, .target (fun hm => hfront (by simp [hm])) hlast ha hop hkind hword (fun hm => hfront (by simp [hm]))
        (by rwa [hend]) hcode⟩
    | note | appId | version | broken =>
      rw [hread] at hcites
      exact hcites.elim

theorem newline_not_mem {raw raw' : List Char} (h : Renamed f raw raw') (hraw : '\n' ∉ raw) : '\n' ∉ raw' := by
  have hnew {name : List Char} (hname : '\n' ∉ name) : '\n' ∉ f name := by
    by_cases hf : f name = name
    · rwa [hf]
    · exact not_mem_of_isLabelName (hvalid name hf).2 (by decide)
  cases h with
  | keep => exact hraw
  | label | target =>
    simp only [List.mem_append, not_or] at hraw ⊢
    grind

/-- Every text can be written with other names for its labels. -/
theorem exists_text (text : String) :
    ∃ text' : String, List.Forall₂ (Renamed f) (lines text.toList) (lines text'.toList) := by
  choose g hg using exists_line hvalid
  have hlines : ∀ l ∈ (lines text.toList).map g, '\n' ∉ l := by
    intro l hl
    obtain ⟨raw, hraw, rfl⟩ := List.mem_map.1 hl
    exact (hg raw).newline_not_mem hvalid (newline_not_mem_lines hraw)
  refine ⟨String.ofList (((lines text.toList).map g).flatMap (· ++ ['\n'])), ?_⟩
  rw [String.toList_ofList, lines_flatMap hlines, List.forall₂_map_right_iff, List.forall₂_same]
  exact fun raw _ => hg raw

end Renamed

/-! ### Edits of a text -/

/-- Blank lines, and comments that are no headers. -/
def IsNote (raw : List Char) : Prop :=
  AllBlank raw ∨ ∃ b c, AllBlank b ∧ raw = b ++ '#' :: c ∧
    (words c).headD [] ≠ "APPID".toList ∧ (words c).headD [] ≠ "NETQASM".toList

theorem IsNote.read_eq {raw : List Char} (h : IsNote raw) : read raw = .note := by
  obtain h | ⟨b, c, hb, rfl, happ, hversion⟩ := h
  · rw [read_of_not_mem h.not_mem, h.words_eq_nil]
    rfl
  · rw [read_append_comment hb.not_mem, if_pos hb.words_eq_nil, ofComment, if_neg happ, if_neg hversion]

/-- A change of a text, line by line: a line that says nothing is put in, a line is edited, or labels get other names in
all lines. -/
inductive Edit : List (List Char) → List (List Char) → Prop
  | insert {raw : List Char} (above below : List (List Char)) (h : IsNote raw) :
      Edit (above ++ below) (above ++ raw :: below)
  | line {raw raw' : List Char} (above below : List (List Char)) (h : LineEdit raw raw') :
      Edit (above ++ raw :: below) (above ++ raw' :: below)
  | rename {ls ls' : List (List Char)} {f : List Char → List Char} (hf : Renaming f (ls.map read))
      (h : List.Forall₂ (Renamed f) ls ls') : Edit ls ls'

theorem map_respell_of_renamed {ls ls' : List (List Char)} {f : List Char → List Char} (hf : Renaming f (ls.map read))
    (h : List.Forall₂ (Renamed f) ls ls') : (ls'.map read).map (·.respell id) = (ls.map read).map (·.respell f) := by
  rw [List.map_map, List.map_map, ← List.forall₂_eq_eq_eq, List.forall₂_map_left_iff, List.forall₂_map_right_iff]
  exact (h.imp fun raw raw' hr => hr.respell_eq fun name hn => (hf.valid name hn).2).flip

theorem Edit.same {ls ls' : List (List Char)} (h : Edit ls ls') : Source.Same (ls.map read) (ls'.map read) := by
  cases h with
  | @insert raw above below h =>
    have hfilter : ((above ++ raw :: below).map read).filter (· ≠ .note) =
        ((above ++ below).map read).filter (· ≠ .note) := by
      simp [h.read_eq]
    exact (Source.same_notes _).symm.trans (hfilter ▸ Source.same_notes _)
  | @line raw raw' above below h =>
    have hmap : ((above ++ raw' :: below).map read).map (·.respell id) =
        ((above ++ raw :: below).map read).map (·.respell id) := by
      simp [h.respell_eq]
    exact (Source.same_respell (renaming_id _)).symm.trans (hmap ▸ Source.same_respell (renaming_id _))
  | @rename _ _ f hf h =>
    have hmap := map_respell_of_renamed hf h
    exact (Source.same_respell hf).symm.trans (hmap ▸ Source.same_respell (renaming_id _))

namespace Subroutine

/-- Texts whose lines can be edited into each other, in any number of steps forward and back, are read as the same
subroutine, or none of them is: lines that say nothing may come and go, blanks may stand in every gap of a line, a
comment may follow its words, mnemonics are in letters of either case, and labels may have any names that are not in
use. In every text the labels can be renamed in this way. -/
theorem edits_leave_the_subroutine {text text' : String}
    (h : Relation.EqvGen Edit (lines text.toList) (lines text'.toList)) :
    (parse text).toOption = (parse text').toOption ∧
      ∀ f, Renaming f (Source.ofText text) → ∃ renamed : String,
        Edit (lines text.toList) (lines renamed.toList) ∧
        (Source.ofText renamed).map (·.respell id) = (Source.ofText text).map (·.respell f) := by
  have hsame : Source.Same (Source.ofText text) (Source.ofText text') := by
    unfold Source.ofText
    generalize lines text.toList = ls at h ⊢
    generalize lines text'.toList = ls' at h ⊢
    induction h with
    | rel ls ls' h => exact h.same
    | refl ls => exact fun s => Iff.rfl
    | symm ls ls' _ ih => exact ih.symm
    | trans ls₁ ls₂ ls₃ _ _ ih₁ ih₂ => exact ih₁.trans ih₂
  refine ⟨Option.ext fun s => ?_, fun f hf => ?_⟩
  · rw [toOption_eq_some, toOption_eq_some, parse_eq_ok_iff, parse_eq_ok_iff]
    exact hsame s
  · obtain ⟨renamed, hrenamed⟩ := Renamed.exists_text hf.valid text
    exact ⟨renamed, .rename hf hrenamed, map_respell_of_renamed hf hrenamed⟩

/-- An edit of every kind. -/
theorem edits_leave_the_subroutine_of_a_loop :
    let text := "# NETQASM 1.0\nloop:\nset R0 1\njmp loop\n"
    let text' := "#\t NETQASM 1.0\n# start\nagain:# here\n\nSET R0 1\r\njmp again"
    parse text = .ok ⟨0, "1.0", [.set ⟨.R, 0⟩ 1, .jump 0]⟩ ∧
      Relation.EqvGen Edit (lines text.toList) (lines text'.toList) ∧
      (parse text).toOption = (parse text').toOption := by
  intro text text'
  let f (name : List Char) : List Char := if name = "loop".toList then "again".toList else name
  have hf : Renaming f [.version "1.0".toList, .label "loop".toList, .code ⟨"set".toList, ["R0".toList, "1".toList]⟩,
      .code ⟨"jmp".toList, ["loop".toList]⟩] := by
    have hmoved : ∀ name, f name ≠ name → name = "loop".toList := fun name h => by_contra fun hne => h (if_neg hne)
    refine ⟨fun name h => ?_, fun name h => ?_, fun name h l hl => ?_, fun a b ha hb _ => ?_⟩
    · rw [hmoved name h]
      decide
    · rw [hmoved name h]
      decide
    · rw [hmoved name h]
      simp only [List.mem_cons, List.not_mem_nil, or_false] at hl
      obtain rfl | rfl | rfl | rfl := hl
      · exact id
      · rintro (hc : "loop".toList = "again".toList)
        exact absurd hc (by decide)
      · rintro ⟨j, hj⟩
        obtain ⟨op, -, -, hw⟩ := Wording.target?_eq_some.1 hj
        exact absurd (List.mem_of_getElem? hw) (by decide)
      · rintro ⟨j, hj⟩
        obtain ⟨op, -, -, hw⟩ := Wording.target?_eq_some.1 hj
        exact absurd (List.mem_of_getElem? hw) (by decide)
    · have ha : a = "loop".toList := by simpa using ha
      have hb : b = "loop".toList := by simpa using hb
      rw [ha, hb]
  have hrename : Edit ["# NETQASM 1.0".toList, "loop:".toList, "set R0 1".toList, "jmp loop".toList]
      ["# NETQASM 1.0".toList, "again:".toList, "set R0 1".toList, "jmp again".toList] := by
    have hkeep {raw : List Char} (h : ∀ name, ¬ (read raw).Cites name) : Renamed f raw raw :=
      .keep fun name hname => absurd hname (h name)
    refine .rename (f := f) hf (.cons (hkeep fun name => id) (.cons ?_ (.cons (hkeep ?_) (.cons ?_ .nil))))
    · exact @Renamed.label f [] "loop".toList [] nofun (by decide) nofun
    · rintro name ⟨j, hj⟩
      obtain ⟨op, hop, hkind, -⟩ := Wording.target?_eq_some.1 hj
      obtain rfl : Opcode.set = op := Option.some.inj hop
      exact absurd (List.mem_of_getElem? hkind) (by decide)
    · have hlast : ∀ d ∈ "jmp ".toList.getLast?, isBlank d = true := by
        rintro d ⟨⟩
        rfl
      have hword : IsWord "loop".toList := isWord_of_all (by decide) (by decide)
      exact @Renamed.target f "jmp ".toList "jmp".toList "loop".toList [] [] .jmp (by decide) hlast (by decide)
        (by decide) (by decide) hword (by decide) (by decide) (by decide)
  have hheader : LineEdit "# NETQASM 1.0".toList "#\t NETQASM 1.0".toList :=
    @LineEdit.blanks ([] ++ ['#']) ['\t'] " NETQASM 1.0".toList (by decide) (.comment (by decide))
  have hstart : IsNote "# start".toList := .inr ⟨[], " start".toList, nofun, rfl, by decide, by decide⟩
  have hlabel : LineEdit "again:".toList "again:# here".toList := @LineEdit.remark "again:".toList (by decide) _
  have hset : IsWord "set".toList := isWord_of_all (by decide) (by decide)
  have hupper : LineEdit "set R0 1".toList "SET R0 1".toList :=
    @LineEdit.mnemonic [] "set".toList "SET".toList " R0 1".toList nofun hset (by decide) (by decide) (by decide)
      (by decide)
  have hreturn : LineEdit "SET R0 1".toList "SET R0 1\r".toList :=
    @LineEdit.blanks "SET R0 1".toList ['\r'] [] (by decide) (.before nofun)
  have hblank : IsNote [] := .inl (by decide)
  have hbefore : lines text.toList =
      ["# NETQASM 1.0".toList, "loop:".toList, "set R0 1".toList, "jmp loop".toList] := by
    decide +kernel
  have hafter : lines text'.toList = ["#\t NETQASM 1.0".toList, "# start".toList, "again:# here".toList, [],
      "SET R0 1\r".toList, "jmp again".toList] := by
    decide +kernel
  have hedits : Relation.EqvGen Edit (lines text.toList) (lines text'.toList) := by
    rw [hbefore, hafter]
    exact .trans _ _ _ (.rel _ _ hrename) <|
      .trans _ _ _ (.rel _ _ (.line [] _ hheader)) <|
      .trans _ _ _ (.rel _ _ (.insert [_] _ hstart)) <|
      .trans _ _ _ (.rel _ _ (.line [_, _] _ hlabel)) <|
      .trans _ _ _ (.rel _ _ (.insert [_, _, _] _ hblank)) <|
      .trans _ _ _ (.rel _ _ (.line [_, _, _, _] _ hupper)) (.rel _ _ (.line [_, _, _, _] _ hreturn))
  exact ⟨by decide +kernel, hedits, (edits_leave_the_subroutine hedits).1⟩

end Subroutine

end QuantumNode
