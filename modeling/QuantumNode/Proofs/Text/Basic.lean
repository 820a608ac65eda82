import QuantumNode.Text.Integer
import Mathlib.Data.List.TakeWhile

/-! Reading back what was written: words between blanks, lines between line feeds and decimal integers. -/
namespace QuantumNode.Text

/-- A text that is read as one word. -/
structure IsWord (w : List Char) : Prop where
  ne_nil : w ≠ []
  solid : ∀ c ∈ w, isBlank c = false

theorem isWord_of_all {w : List Char} (hne : w ≠ []) (h : w.all (!isBlank ·) = true) : IsWord w :=
  ⟨hne, fun c hc => by simpa using List.all_eq_true.1 h c hc⟩

/-- Texts before which a word ends: empty ones and those that start with a blank. -/
def EndsWord (r : List Char) : Prop := ∀ c ∈ r.head?, isBlank c = true

private theorem words_solid {c d : Char} {r w : List Char} {ws : List (List Char)} (hc : isBlank c = false)
    (hd : isBlank d = false) (h : words (d :: r) = w :: ws) : words (c :: d :: r) = (c :: w) :: ws := by
  rw [words]
  simp [hc, hd, h]

theorem words_append {w r : List Char} (h : IsWord w) (hr : EndsWord r) : words (w ++ r) = w :: words r := by
  obtain ⟨hne, hs⟩ := h
  induction w with
  | nil => exact absurd rfl hne
  | cons c w ih =>
    have hc : isBlank c = false := hs c (List.mem_cons_self ..)
    cases w with
    | nil =>
      cases r with
      | nil => simp [words, hc]
      | cons b r =>
        have hb : isBlank b = true := hr b rfl
        simp [words, hc, hb]
    | cons d w =>
      have hw : ∀ x ∈ d :: w, isBlank x = false := fun x hx => hs x (List.mem_cons_of_mem _ hx)
      exact words_solid hc (hw d (List.mem_cons_self ..)) (ih (List.cons_ne_nil _ _) hw)

/-- Words with a space before each but the first. -/
def spaced (w : List Char) (ws : List (List Char)) : List Char := w ++ ws.flatMap (' ' :: ·)

theorem words_spaced {w : List Char} {ws : List (List Char)} (h : IsWord w) (hs : ∀ v ∈ ws, IsWord v) :
    words (spaced w ws) = w :: ws := by
  induction ws generalizing w with
  | nil => exact words_append h nofun
  | cons v ws ih =>
    have hv : words (spaced v ws) = v :: ws :=
      ih (hs v (List.mem_cons_self ..)) fun u hu => hs u (List.mem_cons_of_mem _ hu)
    calc words (spaced w (v :: ws)) = words (w ++ ' ' :: spaced v ws) := by simp [spaced]
      _ = w :: words (' ' :: spaced v ws) := words_append h (by simp [EndsWord, isBlank])
      _ = w :: v :: ws := congrArg (w :: ·) hv

/-- Words with a space before each end the word before them. -/
theorem endsWord_flatMap (ws : List (List Char)) : EndsWord (ws.flatMap (' ' :: ·)) := by
  cases ws with
  | nil => exact nofun
  | cons w ws => simp [EndsWord, isBlank]

theorem words_flatMap {ws : List (List Char)} (hs : ∀ v ∈ ws, IsWord v) : words (ws.flatMap (' ' :: ·)) = ws := by
  cases ws with
  | nil => rfl
  | cons w ws =>
    have hw := words_spaced (hs w (List.mem_cons_self ..)) fun v hv => hs v (List.mem_cons_of_mem _ hv)
    rwa [spaced] at hw

/-! ### A run of characters of one kind, before one of another kind -/

section Run

variable {p : Char → Bool} {d r : List Char} (hd : ∀ c ∈ d, p c = true) (hr : ∀ c ∈ r.head?, p c = false)
include hd hr

theorem takeWhile_run : (d ++ r).takeWhile p = d := by
  rw [List.takeWhile_append_of_pos hd]
  cases r with
  | nil => exact List.append_nil d
  | cons c r => rw [List.takeWhile_cons_of_neg (by simp [hr c rfl]), List.append_nil]

theorem dropWhile_run : (d ++ r).dropWhile p = r := by
  rw [List.dropWhile_append_of_pos hd]
  cases r with
  | nil => rfl
  | cons c r => exact List.dropWhile_cons_of_neg (by simp [hr c rfl])

end Run

theorem nextWord_word {w r : List Char} (h : IsWord w) (hr : EndsWord r) : nextWord (w ++ r) = (w, r) := by
  obtain ⟨c, w, rfl⟩ := List.exists_cons_of_ne_nil h.ne_nil
  have hc : isBlank c = false := h.solid c (List.mem_cons_self ..)
  have hw : ∀ x ∈ c :: w, (!isBlank x) = true := fun x hx => by simp [h.solid x hx]
  have hr : ∀ x ∈ r.head?, (!isBlank x) = false := fun x hx => by simp [hr x hx]
  have hd : (c :: w ++ r).dropWhile isBlank = c :: w ++ r := by
    rw [List.cons_append, List.dropWhile_cons_of_neg (by simp [hc])]
  simp only [nextWord, hd, takeWhile_run hw hr, dropWhile_run hw hr]

theorem nextWord_append {w r : List Char} (h : IsWord w) (hr : EndsWord r) :
    nextWord (' ' :: (w ++ r)) = (w, r) := by
  rw [← nextWord_word h hr, nextWord, List.dropWhile_cons_of_pos (by decide), ← nextWord]

theorem isEmpty_spaced {w : List Char} (h : IsWord w) (ws : List (List Char)) : (spaced w ws).isEmpty = false :=
  List.isEmpty_eq_false_iff.2 (List.append_ne_nil_of_left_ne_nil h.ne_nil _)

/-- The first of words with a space before each is read, and the others are left. -/
theorem nextWord_flatMap {w : List Char} (h : IsWord w) (ws : List (List Char)) :
    nextWord ((w :: ws).flatMap (' ' :: ·)) = (w, ws.flatMap (' ' :: ·)) :=
  nextWord_append h (endsWord_flatMap ws)

theorem nextWord_spaced {w : List Char} (h : IsWord w) (ws : List (List Char)) :
    nextWord (spaced w ws) = (w, ws.flatMap (' ' :: ·)) :=
  nextWord_word h (endsWord_flatMap ws)

theorem solid_of_mem_nextWord {cs : List Char} {c : Char} (h : c ∈ (nextWord cs).1) : isBlank c = false := by
  simpa using List.mem_takeWhile_imp h

/-- Blanks, the next word, then what is left. -/
theorem nextWord_eq (cs : List Char) : cs.takeWhile isBlank ++ ((nextWord cs).1 ++ (nextWord cs).2) = cs := by
  rw [nextWord, List.takeWhile_append_dropWhile, List.takeWhile_append_dropWhile]

theorem words_blanks {b : List Char} (hb : ∀ c ∈ b, isBlank c = true) (r : List Char) : words (b ++ r) = words r := by
  induction b with
  | nil => rfl
  | cons c b ih => simp [words, hb c (List.mem_cons_self ..), ih fun d hd => hb d (List.mem_cons_of_mem _ hd)]

theorem words_nextWord (cs : List Char) : words ((nextWord cs).1 ++ (nextWord cs).2) = words cs := by
  rw [← words_blanks (b := cs.takeWhile isBlank) (fun c hc => List.mem_takeWhile_imp hc), nextWord_eq]

theorem endsWord_nextWord (cs : List Char) : EndsWord (nextWord cs).2 := fun c hc => by
  have hhead := List.head?_dropWhile_not (!isBlank ·) (cs.dropWhile isBlank)
  rw [nextWord, Option.mem_def] at hc
  rw [hc] at hhead
  simpa using hhead

theorem words_eq_nil {cs : List Char} (h : (nextWord cs).1 = []) : words cs = [] := by
  have hnil : cs.dropWhile isBlank = [] := by
    have hhead := List.head?_dropWhile_not isBlank cs
    rw [nextWord] at h
    cases hd : cs.dropWhile isBlank with
    | nil => rfl
    | cons c r =>
      rw [hd] at h hhead
      have hc : isBlank c = false := by simpa using hhead
      simp [hc] at h
  rw [← words_nextWord, h, nextWord, hnil]
  rfl

theorem words_eq_cons {cs : List Char} (h : (nextWord cs).1 ≠ []) :
    words cs = (nextWord cs).1 :: words (nextWord cs).2 := by
  rw [← words_nextWord, words_append ⟨h, fun c => solid_of_mem_nextWord⟩ (endsWord_nextWord cs)]

theorem length_nextWord {cs : List Char} (h : (nextWord cs).1 ≠ []) : (nextWord cs).2.length < cs.length := by
  have hlength := congrArg List.length (nextWord_eq cs)
  have hpos := List.length_pos_iff.2 h
  simp only [List.length_append] at hlength
  omega

theorem infix_of_mem_words {w cs : List Char} (h : w ∈ words cs) : w <:+: cs := by
  induction hn : cs.length using Nat.strongRecOn generalizing cs with
  | ind n ih =>
    have hsplit := nextWord_eq cs
    by_cases hw : (nextWord cs).1 = []
    · rw [words_eq_nil hw] at h
      exact absurd h List.not_mem_nil
    · rw [words_eq_cons hw] at h
      obtain rfl | h := List.mem_cons.1 h
      · exact ⟨_, _, by rw [List.append_assoc, hsplit]⟩
      · have hrest : (nextWord cs).2 <:+ cs := ⟨_, by rw [List.append_assoc, hsplit]⟩
        exact (ih _ (hn ▸ length_nextWord hw) h rfl).trans hrest.isInfix

theorem lines_of_not_mem {l : List Char} (hne : l ≠ []) (h : '\n' ∉ l) : lines l = [l] := by
  induction l with
  | nil => exact absurd rfl hne
  | cons c l ih =>
    obtain ⟨hc, hl⟩ : c ≠ '\n' ∧ '\n' ∉ l := by simpa [eq_comm] using h
    by_cases hnil : l = []
    · simp [lines, hc, hnil]
    · simp [lines, hc, ih hnil hl]

theorem lines_append {l : List Char} (h : '\n' ∉ l) (r : List Char) : lines (l ++ '\n' :: r) = l :: lines r := by
  induction l with
  | nil => simp [lines]
  | cons c l ih =>
    obtain ⟨hc, hl⟩ : c ≠ '\n' ∧ '\n' ∉ l := by simpa [eq_comm] using h
    simp [lines, hc, ih hl]

/-- Lines that were written one by one are read back. -/
theorem lines_flatMap {ls : List (List Char)} (h : ∀ l ∈ ls, '\n' ∉ l) :
    lines (ls.flatMap (· ++ ['\n'])) = ls := by
  induction ls with
  | nil => rfl
  | cons l ls ih =>
    rw [List.flatMap_cons, List.append_assoc, List.singleton_append, lines_append (h l (List.mem_cons_self ..)),
      ih fun m hm => h m (List.mem_cons_of_mem _ hm)]

theorem newline_not_mem_of_solid {cs : List Char} (h : ∀ c ∈ cs, isBlank c = false) : '\n' ∉ cs := fun hc =>
  absurd (h _ hc) (by decide)

theorem newline_not_mem_spaced {w : List Char} {ws : List (List Char)} (h : IsWord w) (hs : ∀ v ∈ ws, IsWord v) :
    '\n' ∉ spaced w ws := by
  refine List.not_mem_append (newline_not_mem_of_solid h.solid) fun hm => ?_
  obtain ⟨v, hv, hm⟩ := List.mem_flatMap.1 hm
  obtain hm | hm := List.mem_cons.1 hm
  · exact absurd hm (by decide)
  · exact newline_not_mem_of_solid (hs v hv).solid hm

/-- Nothing is cut off a text with no blank at either end. -/
theorem trim_eq_self {cs : List Char} (hf : ∀ c ∈ cs.head?, isBlank c = false)
    (hl : ∀ c ∈ cs.getLast?, isBlank c = false) : trim cs = cs := by
  have drop {cs : List Char} (h : ∀ c ∈ cs.head?, isBlank c = false) : cs.dropWhile isBlank = cs := by
    cases cs with
    | nil => rfl
    | cons c cs => exact List.dropWhile_cons_of_neg (by simp [h c rfl])
  rw [trim, trimBy, drop hf, drop (by simpa using hl), List.reverse_reverse]

variable {c : Char} {cs w : List Char}

theorem getLast?_append_of_ne_nil (cs : List Char) (h : w ≠ []) : (cs ++ w).getLast? = w.getLast? := by
  rw [List.getLast?_append, List.getLast?_eq_some_getLast h, Option.some_or]

/-- Nothing is cut off a text that ends with a word. -/
theorem trim_append_word (hc : isBlank c = false) (hw : IsWord w) : trim (c :: cs ++ w) = c :: cs ++ w := by
  refine trim_eq_self (by simpa using hc) fun d hd => ?_
  rw [getLast?_append_of_ne_nil _ hw.ne_nil] at hd
  exact hw.solid d (List.mem_of_getLast? hd)

theorem trim_concat_blank {b : Char} (hb : isBlank b = true) (hc : isBlank c = false) :
    trim (c :: cs ++ [b]) = trim (c :: cs) := by
  rw [trim, trimBy, trim, trimBy, List.cons_append, List.dropWhile_cons_of_neg (by simp [hc]),
    List.dropWhile_cons_of_neg (by simp [hc]), ← List.cons_append, List.reverse_concat,
    List.dropWhile_cons_of_pos hb]

theorem infix_trim (cs : List Char) : trim cs <:+: cs := by
  have hprefix := (List.dropWhile_suffix isBlank (l := (cs.dropWhile isBlank).reverse)).reverse
  rw [List.reverse_reverse] at hprefix
  exact hprefix.isInfix.trans (List.dropWhile_suffix _).isInfix

theorem before_eq_self {sep : Char} {cs : List Char} (h : sep ∉ cs) : before sep cs = cs :=
  List.takeWhile_eq_self_iff.2 fun c hc => by simpa using ne_of_mem_of_not_mem hc h

theorem cutAt_append {sep : Char} {a : List Char} (h : sep ∉ a) (b : List Char) :
    cutAt sep (a ++ sep :: b) = some (a, b) := by
  have hne : ∀ c ∈ a, (c != sep) = true := fun c hc => by simpa using ne_of_mem_of_not_mem hc h
  simp [cutAt, List.takeWhile_append_of_pos hne, List.dropWhile_append_of_pos hne]

/-- A text is cut at the first of the characters that it is cut at. -/
theorem cutAt_eq_some {sep : Char} {cs a b : List Char} :
    cutAt sep cs = some (a, b) ↔ cs = a ++ sep :: b ∧ sep ∉ a := by
  refine ⟨fun h => ?_, fun ⟨hcs, ha⟩ => hcs ▸ cutAt_append ha b⟩
  obtain ⟨hsep, -⟩ := Option.ite_none_right_eq_some.1 h
  obtain ⟨u, v, rfl, hu⟩ := List.eq_append_cons_of_mem hsep
  rw [cutAt_append hu] at h
  cases h
  exact ⟨rfl, hu⟩

theorem infix_of_cutAt {sep : Char} {cs a b : List Char} (h : cutAt sep cs = some (a, b)) : a <:+: cs ∧ b <:+: cs := by
  obtain ⟨rfl, -⟩ := cutAt_eq_some.1 h
  exact ⟨List.infix_append' [] a _, ((List.suffix_cons sep b).trans (List.suffix_append a _)).isInfix⟩

theorem toList_toString_nat (n : Nat) : (toString n).toList = Nat.toDigits 10 n := Nat.toList_repr

theorem toList_toString_int (v : Int) : (toString v).toList =
    if 0 ≤ v then Nat.toDigits 10 v.toNat else '-' :: Nat.toDigits 10 (-v).toNat := by
  rw [Int.toString_eq_repr, Int.repr_eq_if]
  split <;> simp [Nat.repr_eq_ofList_toDigits]

theorem isDigit_of_mem_toDigits {n : Nat} {c : Char} (h : c ∈ Nat.toDigits 10 n) : c.isDigit = true :=
  Nat.isDigit_of_mem_toDigits (by decide) (by decide) h

theorem sign_or_digit_of_mem_toString {v : Int} {c : Char} (h : c ∈ (toString v).toList) :
    c = '-' ∨ c.isDigit = true := by
  rw [toList_toString_int] at h
  split at h
  · exact .inr (isDigit_of_mem_toDigits h)
  · exact (List.mem_cons.1 h).imp_right isDigit_of_mem_toDigits

theorem toString_int_ne_nil (v : Int) : (toString v).toList ≠ [] := by
  rw [toList_toString_int]
  split
  · exact Nat.toDigits_ne_nil
  · exact List.cons_ne_nil _ _

theorem isBlank_of_isDigit {c : Char} (h : c.isDigit = true) : isBlank c = false := by
  rw [Char.isDigit_iff_toNat] at h
  have hne : c ≠ ' ' := by
    rintro rfl
    simp at h
  simp at h
  simp [isBlank, hne]
  omega

theorem isLetter_of_isDigit {c : Char} (h : c.isDigit = true) : isLetter c = false := by
  rw [Char.isDigit_iff_toNat] at h
  have hle {d : Char} (hd : 57 < d.toNat) : ¬ d ≤ c := fun hdc =>
    Nat.not_le_of_lt hd (Nat.le_trans (show d.toNat ≤ c.toNat from hdc) h.2)
  simp [isLetter, hle (d := 'a') (by decide), hle (d := 'A') (by decide)]

theorem isBlank_of_isWordChar {c : Char} (h : isWordChar c = true) : isBlank c = false := by
  have hlow : 48 ≤ c.toNat := by
    simp only [isWordChar, isLetter, Bool.or_eq_true, Bool.and_eq_true, decide_eq_true_eq, beq_iff_eq] at h
    obtain (⟨h, -⟩ | ⟨h, -⟩) | h | rfl := or_assoc.1 h
    · exact Nat.le_trans (by decide) h
    · exact Nat.le_trans (by decide) h
    · rw [Char.isDigit_iff_toNat] at h
      exact h.1
    · decide
  have hspace : c ≠ ' ' := by
    rintro rfl
    exact absurd hlow (by decide)
  simp only [isBlank, beq_false_of_ne hspace, Bool.false_or, Bool.and_eq_false_iff, decide_eq_false_iff_not]
  omega

theorem lowerChar_of_isDigit {c : Char} (h : c.isDigit = true) : lowerChar c = c :=
  if_neg (Bool.eq_false_iff.1 (Bool.or_eq_false_iff.1 (isLetter_of_isDigit h)).2)

theorem allDigits_toDigits (n : Nat) : allDigits (Nat.toDigits 10 n) = true := by
  simpa [allDigits, Nat.toDigits_ne_nil] using fun c => isDigit_of_mem_toDigits (n := n) (c := c)

theorem natOfDigits_toDigits (n : Nat) : natOfDigits (Nat.toDigits 10 n) = n := Nat.ofDigitChars_ten_toDigits

/-- Digits are read, with and without a minus sign. -/
theorem int64?_digits {ds : List Char} (hd : allDigits ds = true) (h : Word.fitsSigned64 (natOfDigits ds) = true) :
    int64? ds = some (natOfDigits ds : Int) ∧ int64? ('-' :: ds) = some (-(natOfDigits ds) : Int) := by
  have hm : (ds.head? == some '-') = false := by
    rw [beq_eq_false_iff_ne]
    intro he
    simp only [allDigits, Bool.and_eq_true, List.all_eq_true] at hd
    exact absurd (hd.2 _ (List.mem_of_head? he)) (by decide)
  have hneg : Word.fitsSigned64 (-(natOfDigits ds) : Int) = true := by
    simp only [Word.fitsSigned64, Bool.and_eq_true, decide_eq_true_eq] at h ⊢
    omega
  exact ⟨by simp [int64?, hm, signed, hd, h], by simp [int64?, signed, hd, hneg]⟩

theorem int64?_toDigits {n : Nat} (h : Word.fitsSigned64 n = true) :
    int64? (Nat.toDigits 10 n) = some (n : Int) := by
  rw [← natOfDigits_toDigits n] at h
  rw [(int64?_digits (allDigits_toDigits n) h).1, natOfDigits_toDigits]

/-- Integers of 64 signed bits are read back. -/
theorem int64?_toString {v : Int} (h : Word.fitsSigned64 v = true) : int64? (toString v).toList = some v := by
  rw [toList_toString_int]
  split
  · next hv =>
    have : (v.toNat : Int) = v := Int.toNat_of_nonneg hv
    rw [int64?_toDigits (by rwa [this]), this]
  · next hv =>
    have : -((-v).toNat : Int) = v := by omega
    simp only [int64?, signed, List.head?_cons, BEq.rfl, if_true, List.drop_succ_cons, List.drop_zero,
      allDigits_toDigits, natOfDigits_toDigits, this, h, Bool.and_self]

theorem fits_of_int64? {cs : List Char} {v : Int} (h : int64? cs = some v) : Word.fitsSigned64 v = true := by
  simp only [int64?, Option.ite_none_right_eq_some, Bool.and_eq_true, Option.some.injEq] at h
  obtain ⟨⟨-, h⟩, rfl⟩ := h
  exact h

/-- Behind its first character, which may be a minus sign, an integer has digits only. -/
theorem isDigit_of_int64? {cs : List Char} {v : Int} (h : int64? cs = some v) :
    (∀ c ∈ cs.head?, c = '-' ∨ c.isDigit = true) ∧ ∀ c ∈ cs.tail, c.isDigit = true := by
  simp only [int64?, Option.ite_none_right_eq_some, Bool.and_eq_true, Option.some.injEq, allDigits,
    List.all_eq_true] at h
  obtain ⟨⟨⟨-, hd⟩, -⟩, -⟩ := h
  cases cs with
  | nil => exact ⟨nofun, nofun⟩
  | cons c cs =>
    by_cases hc : c = '-'
    · subst hc
      exact ⟨fun d hd => .inl (Option.some.inj hd).symm, by simpa using hd⟩
    · have hd : ∀ d ∈ c :: cs, d.isDigit = true := by simpa [hc] using hd
      exact ⟨fun d hh => .inr (hd d (List.mem_of_head? hh)), fun d ht => hd d (List.mem_cons_of_mem _ ht)⟩

/-- Digits alone are no negative number. -/
theorem nonneg_of_int64? {cs : List Char} {v : Int} (h : int64? cs = some v) (hd : ∀ c ∈ cs, c.isDigit = true) :
    0 ≤ v := by
  have hm : (cs.head? == some '-') = false := by
    rw [beq_eq_false_iff_ne]
    intro he
    exact absurd (hd _ (List.mem_of_head? he)) (by decide)
  simp only [int64?, hm, signed, Option.ite_none_right_eq_some, Option.some.injEq] at h
  obtain ⟨-, rfl⟩ := h
  exact Int.natCast_nonneg _

end QuantumNode.Text
