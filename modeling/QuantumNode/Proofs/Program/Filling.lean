import QuantumNode.Program.Script
import Mathlib.Data.List.DropRight
import QuantumNode.Proofs.Text.Basic

/-! Texts with names in them, once numbers have taken the place of the names. Lines, words and all that is cut off at
blanks, comments and other separators is cut at the same places before and after. -/
namespace QuantumNode.Script

open Text

/-- What stands in the place of a piece. -/
def Piece.chars (f : String → List Char) : Piece → List Char
  | literal c => [c]
  | name word => f word

/-- A text with what stands for its names. -/
def fill (f : String → List Char) (cs : List Char) : List Char := (pieces none cs).flatMap (Piece.chars f)

/-- Digits stand for every name, and their value is a signed word. -/
structure Numbers (f : String → List Char) : Prop where
  digits : ∀ word, allDigits (f word) = true
  fits : ∀ word, Word.fitsSigned64 (natOfDigits (f word)) = true

/-- Texts before which a name ends: empty ones and those that start with neither a letter nor a digit. -/
def EndsName (r : List Char) : Prop := ∀ c ∈ r.head?, isWordChar c = false

/-- A character that is part of no name and of no number. -/
def Separates (c : Char) : Prop := isWordChar c = false ∧ c ≠ '$'

theorem Separates.endsName {c : Char} (h : Separates c) (r : List Char) : EndsName (c :: r) := fun d hd => by
  cases hd
  exact h.1

theorem isWordChar_of_isDigit {c : Char} (h : c.isDigit = true) : isWordChar c = true := by simp [isWordChar, h]

theorem Separates.isDigit_eq_false {c : Char} (h : Separates c) : c.isDigit = false :=
  Bool.eq_false_iff.2 fun hd => Bool.eq_false_iff.1 h.1 (isWordChar_of_isDigit hd)

theorem separates_of_isBlank {c : Char} (h : isBlank c = true) : Separates c := by
  refine ⟨Bool.eq_false_iff.2 fun hw => ?_, ?_⟩
  · exact absurd h (by simp [isBlank_of_isWordChar hw])
  · rintro rfl
    exact absurd h (by decide)

/-! ### Pieces -/

theorem pieces_append {b : List Char} (hb : EndsName b) (a : List Char) (word : Option (List Char)) :
    pieces word (a ++ b) = pieces word a ++ pieces none b := by
  induction a generalizing word with
  | nil =>
    cases word with
    | none => rfl
    | some word =>
      cases b with
      | nil => rfl
      | cons c b =>
        have hc : isWordChar c = false := hb c rfl
        by_cases hd : c = '$'
        · subst hd
          simp [pieces, hc]
        · simp [pieces, hc, hd]
  | cons c a ih =>
    cases word with
    | none =>
      by_cases hd : c = '$'
      · simp [pieces, hd, ih]
      · simp [pieces, hd, ih]
    | some word =>
      by_cases hc : isWordChar c = true
      · simp [pieces, hc, ih]
      · by_cases hd : c = '$'
        · subst hd
          simp [pieces, hc, ih]
        · simp [pieces, hc, hd, ih]

theorem pieces_of_not_mem {a : List Char} (h : '$' ∉ a) (b : List Char) :
    pieces none (a ++ b) = a.map .literal ++ pieces none b := by
  induction a with
  | nil => rfl
  | cons c a ih =>
    obtain ⟨hc, ha⟩ : c ≠ '$' ∧ '$' ∉ a := by simpa [eq_comm] using h
    simp [pieces, hc, ih ha]

theorem pieces_word {w : List Char} (hw : ∀ c ∈ w, isWordChar c = true) (past : List Char) :
    pieces (some past) w = [.name (String.ofList (past.reverse ++ w))] := by
  induction w generalizing past with
  | nil => simp [pieces]
  | cons c w ih =>
    rw [pieces, if_pos (hw c (List.mem_cons_self ..)), ih fun d hd => hw d (List.mem_cons_of_mem _ hd)]
    simp

/-- Texts are empty, start with a character that stands for itself, or start with a name. -/
@[elab_as_elim]
theorem text_induction {P : List Char → Prop} (nil : P []) (literal : ∀ {c r}, c ≠ '$' → P r → P (c :: r))
    (name : ∀ {w r}, (∀ c ∈ w, isWordChar c = true) → EndsName r → P r → P ('$' :: (w ++ r))) (cs : List Char) :
    P cs := by
  induction hn : cs.length using Nat.strongRecOn generalizing cs with
  | ind n ih =>
    cases cs with
    | nil => exact nil
    | cons c r =>
      have hlength : r.length < n := by
        rw [← hn, List.length_cons]
        exact Nat.lt_succ_self _
      by_cases hc : c = '$'
      · -- The name takes all that can belong to it, so that what follows ends it.
        subst hc
        have hends : EndsName (r.dropWhile isWordChar) := fun d hd => by
          have hhead := List.head?_dropWhile_not isWordChar r
          rwa [Option.mem_def.1 hd] at hhead
        have hshort : (r.dropWhile isWordChar).length < n :=
          Nat.lt_of_le_of_lt (List.length_dropWhile_le ..) hlength
        rw [← List.takeWhile_append_dropWhile (p := isWordChar) (l := r)]
        exact name (fun c hc => List.mem_takeWhile_imp hc) hends (ih _ hshort _ rfl)
      · exact literal hc (ih _ hlength r rfl)

/-! ### Filling -/

section Fill

variable {f : String → List Char}

theorem fill_append {b : List Char} (hb : EndsName b) (a : List Char) : fill f (a ++ b) = fill f a ++ fill f b := by
  rw [fill, pieces_append hb, List.flatMap_append, fill, fill]

theorem fill_append_of_not_mem {a : List Char} (h : '$' ∉ a) (b : List Char) : fill f (a ++ b) = a ++ fill f b := by
  rw [fill, pieces_of_not_mem h, List.flatMap_append, fill, List.flatMap_map]
  simp [Piece.chars]

theorem fill_of_not_mem {a : List Char} (h : '$' ∉ a) : fill f a = a := by
  have := fill_append_of_not_mem (f := f) h []
  simpa [fill, pieces] using this

theorem fill_cons {c : Char} (h : c ≠ '$') (r : List Char) : fill f (c :: r) = c :: fill f r :=
  fill_append_of_not_mem (a := [c]) (by simpa using Ne.symm h) r

theorem fill_name {w r : List Char} (hw : ∀ c ∈ w, isWordChar c = true) (hr : EndsName r) :
    fill f ('$' :: (w ++ r)) = f (String.ofList w) ++ fill f r := by
  have hstart : fill f ('$' :: w) = f (String.ofList w) := by
    simp [fill, pieces, pieces_word hw, Piece.chars]
  rw [← List.cons_append, fill_append hr, hstart]

end Fill

/-! ### Characters of a filled text -/

section Numbers

variable {f : String → List Char} (hf : Numbers f)
include hf

theorem Numbers.ne_nil (word : String) : f word ≠ [] := fun h => by
  have := hf.digits word
  simp [h, allDigits] at this

theorem Numbers.isDigit {word : String} {c : Char} (h : c ∈ f word) : c.isDigit = true := by
  have hd := hf.digits word
  simp only [allDigits, Bool.and_eq_true, List.all_eq_true] at hd
  exact hd.2 c h

theorem fill_eq_nil {cs : List Char} : fill f cs = [] ↔ cs = [] := by
  cases cs using text_induction with
  | nil => exact iff_of_true rfl rfl
  | literal hc => simp [fill_cons hc]
  | name hw hr => simp [fill_name hw hr, hf.ne_nil]

/-- Separators are kept, and none is added. -/
theorem mem_fill {d : Char} (hd : Separates d) {cs : List Char} : d ∈ fill f cs ↔ d ∈ cs := by
  induction cs using text_induction with
  | nil => rfl
  | literal hc ih => simp [fill_cons hc, ih]
  | @name w r hw hr ih =>
    have hdigit : d ∉ f (String.ofList w) := fun h => absurd (hf.isDigit h) (by simp [hd.isDigit_eq_false])
    have hword : d ∉ w := fun h => absurd (hw d h) (by simp [hd.1])
    simp [fill_name hw hr, hdigit, hword, hd.2, ih]

theorem head?_fill {d : Char} (hd : Separates d) {cs : List Char} :
    (fill f cs).head? = some d ↔ cs.head? = some d := by
  cases cs using text_induction with
  | nil => rfl
  | literal hc => simp [fill_cons hc]
  | @name w r hw hr =>
    obtain ⟨c, ds, hds⟩ := List.exists_cons_of_ne_nil (hf.ne_nil (String.ofList w))
    have hc : c.isDigit = true := hf.isDigit (hds ▸ List.mem_cons_self ..)
    have hne : c ≠ d := fun h => absurd hc (by simp [h, hd.isDigit_eq_false])
    simp [fill_name hw hr, hds, hne, Ne.symm hd.2]

theorem getLast?_fill {d : Char} (hd : Separates d) {cs : List Char} :
    (fill f cs).getLast? = some d ↔ cs.getLast? = some d := by
  induction cs using text_induction with
  | nil => rfl
  | @literal c r hc ih =>
    rw [fill_cons hc]
    by_cases hr : r = []
    · rw [hr, fill_eq_nil hf |>.2 rfl]
    · rw [List.getLast?_cons_of_ne_nil hr, List.getLast?_cons_of_ne_nil (mt (fill_eq_nil hf).1 hr), ih]
  | @name w r hw hr ih =>
    rw [fill_name hw hr, ← List.cons_append]
    by_cases hnil : r = []
    · subst hnil
      rw [(fill_eq_nil hf).2 rfl, List.append_nil, List.append_nil]
      refine iff_of_false (fun h => ?_) fun h => ?_
      · exact absurd (hf.isDigit (List.mem_of_getLast? h)) (by simp [hd.isDigit_eq_false])
      · obtain rfl | h := List.mem_cons.1 (List.mem_of_getLast? h)
        · exact hd.2 rfl
        · exact absurd (hw d h) (by simp [hd.1])
    · rw [getLast?_append_of_ne_nil _ hnil, getLast?_append_of_ne_nil _ (mt (fill_eq_nil hf).1 hnil), ih]

/-- A digit stands in the place of a name. -/
theorem exists_digit {cs : List Char} (h : '$' ∈ cs) : ∃ c ∈ fill f cs, c.isDigit = true := by
  induction cs using text_induction with
  | nil => exact absurd h (List.not_mem_nil)
  | @literal c r hc ih =>
    obtain ⟨d, hd, hdigit⟩ := ih (List.mem_of_ne_of_mem (Ne.symm hc) h)
    exact ⟨d, by simp [fill_cons hc, hd], hdigit⟩
  | @name w r hw hr =>
    obtain ⟨c, ds, hds⟩ := List.exists_cons_of_ne_nil (hf.ne_nil (String.ofList w))
    exact ⟨c, by simp [fill_name hw hr, hds], hf.isDigit (hds ▸ List.mem_cons_self ..)⟩

/-- A text without digits is no text with a number in it. -/
theorem fill_eq_iff {w t : List Char} (hd : '$' ∉ t) (ht : t.any Char.isDigit = false) : fill f w = t ↔ w = t := by
  constructor
  · rintro rfl
    refine (fill_of_not_mem fun hm => ?_).symm
    exact absurd (List.any_eq_true.2 (exists_digit hf hm)) (by simp [ht])
  · rintro rfl
    exact fill_of_not_mem hd

end Numbers

/-! ### What is cut off a filled text -/

theorem EndsName.takeWhile {r : List Char} (h : EndsName r) (p : Char → Bool) : EndsName (r.takeWhile p) := by
  cases r with
  | nil => exact h
  | cons c r =>
    by_cases hc : p c = true
    · rw [List.takeWhile_cons_of_pos hc]
      exact h
    · rw [List.takeWhile_cons_of_neg hc]
      exact nofun

section Cut

variable {f : String → List Char} (hf : Numbers f) {p : Char → Bool}
include hf

/-- Names and numbers are passed over by whoever stops at separators only. -/
theorem passes_fill (hp : ∀ c, p c = false → Separates c) {w : List Char} (hw : ∀ c ∈ w, isWordChar c = true) :
    (∀ c ∈ '$' :: w, p c = true) ∧ ∀ c ∈ f (String.ofList w), p c = true := by
  have hword {c : Char} (hc : isWordChar c = true) : p c = true :=
    Bool.of_not_eq_false fun h => absurd hc (by simp [(hp c h).1])
  refine ⟨fun c hc => ?_, fun c hc => hword (isWordChar_of_isDigit (hf.isDigit hc))⟩
  obtain rfl | hc := List.mem_cons.1 hc
  · exact Bool.of_not_eq_false fun h => (hp _ h).2 rfl
  · exact hword (hw c hc)

theorem takeWhile_fill (hp : ∀ c, p c = false → Separates c) (cs : List Char) :
    (fill f cs).takeWhile p = fill f (cs.takeWhile p) := by
  induction cs using text_induction with
  | nil => rfl
  | @literal c r hc ih =>
    rw [fill_cons hc]
    by_cases h : p c = true
    · rw [List.takeWhile_cons_of_pos h, List.takeWhile_cons_of_pos h, fill_cons hc, ih]
    · rw [List.takeWhile_cons_of_neg h, List.takeWhile_cons_of_neg h]
      rfl
  | name hw hr ih =>
    obtain ⟨hraw, hnumber⟩ := passes_fill hf hp hw
    rw [fill_name hw hr, List.takeWhile_append_of_pos hnumber, ih, ← List.cons_append,
      List.takeWhile_append_of_pos hraw, List.cons_append, fill_name hw (hr.takeWhile p)]

theorem dropWhile_fill (hp : ∀ c, p c = false → Separates c) (cs : List Char) :
    (fill f cs).dropWhile p = fill f (cs.dropWhile p) := by
  induction cs using text_induction with
  | nil => rfl
  | @literal c r hc ih =>
    rw [fill_cons hc]
    by_cases h : p c = true
    · rw [List.dropWhile_cons_of_pos h, List.dropWhile_cons_of_pos h, ih]
    · rw [List.dropWhile_cons_of_neg h, List.dropWhile_cons_of_neg h, fill_cons hc]
  | name hw hr ih =>
    obtain ⟨hraw, hnumber⟩ := passes_fill hf hp hw
    rw [fill_name hw hr, List.dropWhile_append_of_pos hnumber, ih, ← List.cons_append,
      List.dropWhile_append_of_pos hraw]

/-- Nothing but separators is dropped, before and after. -/
theorem dropWhile_separators_fill (hp : ∀ c, p c = true → Separates c) (cs : List Char) :
    (fill f cs).dropWhile p = fill f (cs.dropWhile p) := by
  induction cs using text_induction with
  | nil => rfl
  | @literal c r hc ih =>
    rw [fill_cons hc]
    by_cases h : p c = true
    · rw [List.dropWhile_cons_of_pos h, List.dropWhile_cons_of_pos h, ih]
    · rw [List.dropWhile_cons_of_neg h, List.dropWhile_cons_of_neg h, fill_cons hc]
  | @name w r hw hr =>
    obtain ⟨c, ds, hds⟩ := List.exists_cons_of_ne_nil (hf.ne_nil (String.ofList w))
    have hc : ¬ p c = true := fun h => by
      have hdigit : c.isDigit = true := hf.isDigit (hds ▸ List.mem_cons_self ..)
      exact absurd hdigit (by simp [(hp c h).isDigit_eq_false])
    rw [fill_name hw hr, List.dropWhile_cons_of_neg fun h => (hp _ h).2 rfl, fill_name hw hr, hds, List.cons_append,
      List.dropWhile_cons_of_neg hc]

theorem before_fill {d : Char} (hd : Separates d) (cs : List Char) : before d (fill f cs) = fill f (before d cs) :=
  takeWhile_fill hf (fun c hc => by simpa [show c = d by simpa using hc] using hd) cs

theorem cutAt_fill {d : Char} (hd : Separates d) (cs : List Char) :
    cutAt d (fill f cs) = (cutAt d cs).map fun p => (fill f p.1, fill f p.2) := by
  by_cases h : d ∈ cs
  · obtain ⟨a, b, rfl, ha⟩ := List.eq_append_cons_of_mem h
    have hfill : fill f (a ++ d :: b) = fill f a ++ d :: fill f b := by
      rw [fill_append (hd.endsName b), fill_cons hd.2]
    rw [hfill, cutAt_append ha, cutAt_append (mt (mem_fill hf hd).1 ha)]
    rfl
  · rw [cutAt, cutAt, if_neg h, if_neg (mt (mem_fill hf hd).1 h)]
    rfl

theorem lines_fill (cs : List Char) : lines (fill f cs) = (lines cs).map (fill f) := by
  have hd : Separates '\n' := separates_of_isBlank rfl
  induction hn : cs.length using Nat.strongRecOn generalizing cs with
  | ind n ih =>
    by_cases h : '\n' ∈ cs
    · obtain ⟨a, b, rfl, ha⟩ := List.eq_append_cons_of_mem h
      have hlength : b.length < n := by
        rw [← hn, List.length_append, List.length_cons]
        omega
      rw [fill_append (hd.endsName b), fill_cons hd.2, lines_append ha, lines_append (mt (mem_fill hf hd).1 ha),
        ih _ hlength b rfl]
      rfl
    · by_cases hnil : cs = []
      · rw [hnil]
        rfl
      · rw [lines_of_not_mem hnil h,
          lines_of_not_mem (mt (fill_eq_nil hf).1 hnil) (mt (mem_fill hf hd).1 h)]
        rfl

theorem trim_fill (cs : List Char) : trim (fill f cs) = fill f (trim cs) := by
  have trimEnd (cs : List Char) : (fill f cs).rdropWhile isBlank = fill f (cs.rdropWhile isBlank) := by
    induction cs using List.reverseRecOn with
    | nil => rfl
    | append_singleton cs c ih =>
      by_cases hc : isBlank c = true
      · have hd := separates_of_isBlank hc
        rw [fill_append (hd.endsName []), fill_cons hd.2, List.rdropWhile_concat_pos _ _ _ hc, ← ih]
        exact List.rdropWhile_concat_pos _ _ _ hc
      · rw [List.rdropWhile_concat_neg _ _ _ hc, List.rdropWhile_eq_self_iff]
        intro hne hblank
        have hlast := (getLast?_fill hf (separates_of_isBlank hblank)).1 (List.getLast?_eq_some_getLast hne)
        rw [List.getLast?_concat, Option.some.injEq] at hlast
        exact hc (hlast ▸ hblank)
  calc trim (fill f cs) = ((fill f cs).dropWhile isBlank).rdropWhile isBlank := rfl
    _ = (fill f (cs.dropWhile isBlank)).rdropWhile isBlank := by
      rw [dropWhile_separators_fill hf fun c => separates_of_isBlank]
    _ = fill f (trim cs) := trimEnd _

theorem nextWord_fill (cs : List Char) : nextWord (fill f cs) = (fill f (nextWord cs).1, fill f (nextWord cs).2) := by
  have hp (c : Char) (h : (!isBlank c) = false) : Separates c := separates_of_isBlank (by simpa using h)
  simp only [nextWord, dropWhile_separators_fill hf fun c => separates_of_isBlank, takeWhile_fill hf hp,
    dropWhile_fill hf hp]

theorem words_fill (cs : List Char) : words (fill f cs) = (words cs).map (fill f) := by
  induction hn : cs.length using Nat.strongRecOn generalizing cs with
  | ind n ih =>
    by_cases h : (nextWord cs).1 = []
    · rw [words_eq_nil h, words_eq_nil (by rw [nextWord_fill hf, h]; rfl)]
      rfl
    · have hfill : (nextWord (fill f cs)).1 ≠ [] := by
        rw [nextWord_fill hf]
        exact mt (fill_eq_nil hf).1 h
      rw [words_eq_cons h, words_eq_cons hfill, nextWord_fill hf, ih _ (hn ▸ length_nextWord h) _ rfl]
      rfl

end Cut

end QuantumNode.Script
