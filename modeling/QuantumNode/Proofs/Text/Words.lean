import Mathlib.Data.List.Induction
import QuantumNode.Proofs.Text.Basic

/-! Words of texts that are put together: where blanks stand between two parts of a text, and how many, does not
matter to its words. -/
namespace QuantumNode.Text

/-- Texts of blanks only. -/
def AllBlank (cs : List Char) : Prop := ∀ c ∈ cs, isBlank c = true

instance (b : List Char) : Decidable (AllBlank b) := List.decidableBAll _ b

instance (r : List Char) : Decidable (EndsWord r) := Option.decidableForallMem r.head?

theorem AllBlank.endsWord {b : List Char} (h : AllBlank b) {r : List Char} (hr : EndsWord r) : EndsWord (b ++ r) := by
  cases b with
  | nil => exact hr
  | cons c b =>
    intro d hd
    cases hd
    exact h c (List.mem_cons_self ..)

theorem words_cons_blank {c : Char} (hc : isBlank c = true) (r : List Char) : words (c :: r) = words r :=
  words_blanks (b := [c]) (by simpa using hc) r

theorem AllBlank.words_eq_nil {b : List Char} (h : AllBlank b) : words b = [] := by
  rw [← List.append_nil b, words_blanks h]
  rfl

/-- A text is put together from blanks and from words that end where the next blank or the end of the text is. -/
theorem words_induction {P : List Char → Prop} (nil : P []) (blank : ∀ {c r}, isBlank c = true → P r → P (c :: r))
    (word : ∀ {w r}, IsWord w → EndsWord r → P r → P (w ++ r)) (cs : List Char) : P cs := by
  induction hn : cs.length using Nat.strongRecOn generalizing cs with
  | ind n ih =>
    cases cs with
    | nil => exact nil
    | cons c r =>
      by_cases hc : isBlank c = true
      · exact blank hc (ih r.length (by simp [← hn]) r rfl)
      · have hd : (c :: r).dropWhile isBlank = c :: r := List.dropWhile_cons_of_neg hc
        have hw : (nextWord (c :: r)).1 ≠ [] := by simp [nextWord, hd, hc]
        have hsplit : (nextWord (c :: r)).1 ++ (nextWord (c :: r)).2 = c :: r := by
          simp only [nextWord, hd, List.takeWhile_append_dropWhile]
        rw [← hsplit]
        refine word ⟨hw, fun d => solid_of_mem_nextWord⟩ (endsWord_nextWord _) ?_
        exact ih _ (hn ▸ length_nextWord hw) _ rfl

theorem words_append_of_endsWord {c : List Char} (hc : EndsWord c) (a : List Char) :
    words (a ++ c) = words a ++ words c := by
  induction a using words_induction with
  | nil => rfl
  | blank hb ih => rw [List.cons_append, words_cons_blank hb, words_cons_blank hb, ih]
  | @word w r hw hr ih =>
    have hrc : EndsWord (r ++ c) := by
      cases r with
      | nil => exact hc
      | cons d r => exact hr
    rw [List.append_assoc, words_append hw hrc, ih, words_append hw hr, List.cons_append]

theorem words_append_blanks (a : List Char) {b : List Char} (hb : AllBlank b) : words (a ++ b) = words a := by
  have hends : EndsWord b := by simpa using hb.endsWord (r := []) nofun
  rw [words_append_of_endsWord hends, hb.words_eq_nil, List.append_nil]

theorem words_concat_blank {b : Char} (hb : isBlank b = true) (a c : List Char) :
    words (a ++ [b] ++ c) = words (a ++ [b]) ++ words c := by
  have hends : EndsWord (b :: c) := by simpa [EndsWord] using hb
  have hone : words (a ++ [b]) = words a := words_append_blanks a (by simpa [AllBlank] using hb)
  rw [List.append_assoc, List.singleton_append, words_append_of_endsWord hends, hone, words_cons_blank hb]

theorem words_eq_nil_iff {cs : List Char} : words cs = [] ↔ AllBlank cs := by
  constructor
  · induction cs using words_induction with
    | nil => exact fun _ => nofun
    | @blank c r hc ih =>
      intro h
      rw [words_cons_blank hc] at h
      exact List.forall_mem_cons.2 ⟨hc, ih h⟩
    | word hw hr =>
      intro h
      rw [words_append hw hr] at h
      exact nomatch h
  · exact AllBlank.words_eq_nil

theorem isWord_of_mem_words {w cs : List Char} (h : w ∈ words cs) : IsWord w := by
  induction cs using words_induction with
  | nil => exact nomatch h
  | blank hc ih =>
    rw [words_cons_blank hc] at h
    exact ih h
  | word hw hr ih =>
    rw [words_append hw hr] at h
    obtain rfl | h := List.mem_cons.1 h
    · exact hw
    · exact ih h

/-! ### Words in their places -/

section Places

variable {sep : Char} {a b c w r : List Char}

theorem AllBlank.not_mem (h : AllBlank b) : '#' ∉ b := fun hm => absurd (h _ hm) (by decide)

theorem EndsWord.of_append (h : EndsWord (a ++ c)) : EndsWord a := by
  cases a with
  | nil => exact nofun
  | cons d a => exact h

theorem before_append_of_not_mem (h : sep ∉ a) (c : List Char) : before sep (a ++ c) = a ++ before sep c :=
  List.takeWhile_append_of_pos fun d hd => by simpa using ne_of_mem_of_not_mem hd h

theorem before_append_cons (cs c : List Char) : before sep (cs ++ sep :: c) = before sep cs := by
  induction cs with
  | nil => simp [before]
  | cons d cs ih =>
    simp only [before, List.cons_append, List.takeWhile_cons] at ih ⊢
    rw [ih]

/-- Blanks may be put between two parts of a text if a word ends there. -/
theorem words_insert (hb : AllBlank b) (h : EndsWord c ∨ ∀ d ∈ a.getLast?, isBlank d = true) :
    words (a ++ b ++ c) = words (a ++ c) := by
  obtain hc | ha := h
  · rw [List.append_assoc, words_append_of_endsWord (hb.endsWord hc), words_blanks hb, words_append_of_endsWord hc]
  · cases a using List.reverseRecOn with
    | nil => exact words_blanks hb c
    | append_singleton a d =>
      have hd : isBlank d = true := ha d List.getLast?_concat
      rw [List.append_assoc, words_concat_blank hd, words_blanks hb, words_concat_blank hd]

/-- A word in its place among the words of a text. -/
theorem words_place (ha : ∀ d ∈ a.getLast?, isBlank d = true) (hw : IsWord w) (hr : EndsWord r) :
    words (a ++ w ++ r) = words a ++ w :: words r := by
  cases a using List.reverseRecOn with
  | nil => exact words_append hw hr
  | append_singleton a d =>
    rw [List.append_assoc, words_concat_blank (ha d List.getLast?_concat), words_append hw hr]

/-- Every word of a text has its place there. -/
theorem exists_place {cs : List Char} {us vs : List (List Char)} (h : words cs = us ++ w :: vs) :
    ∃ a r, cs = a ++ w ++ r ∧ words a = us ∧ (∀ d ∈ a.getLast?, isBlank d = true) ∧ EndsWord r ∧ words r = vs := by
  induction cs using words_induction generalizing us with
  | nil =>
    have hlength := congrArg List.length h
    simp [words] at hlength
  | @blank c r hc ih =>
    rw [words_cons_blank hc] at h
    obtain ⟨a, r, rfl, ha, hlast, hr, hvs⟩ := ih h
    refine ⟨c :: a, r, rfl, ?_, ?_, hr, hvs⟩
    · rw [words_cons_blank hc, ha]
    · cases a with
      | nil => simpa using hc
      | cons e a => exact hlast
  | @word v r hv hr ih =>
    rw [words_append hv hr] at h
    cases us with
    | nil =>
      obtain ⟨rfl, hvs⟩ := List.cons.inj h
      exact ⟨[], r, rfl, rfl, by simp, hr, hvs⟩
    | cons u us =>
      rw [List.cons_append, List.cons.injEq] at h
      obtain ⟨rfl, h⟩ := h
      obtain ⟨a, r, rfl, ha, hlast, hr', hvs⟩ := ih h
      have hmem : w ∈ words (a ++ w ++ r) := by rw [h]; simp
      have hw := isWord_of_mem_words hmem
      have hne : a ≠ [] := by
        rintro rfl
        obtain ⟨c, w, rfl⟩ := List.exists_cons_of_ne_nil hw.ne_nil
        exact absurd (hr c rfl) (by simp [hw.solid c (List.mem_cons_self ..)])
      have hends : EndsWord a := by
        rw [List.append_assoc] at hr
        exact hr.of_append
      refine ⟨v ++ a, r, by simp, ?_, ?_, hr', hvs⟩
      · rw [words_append hv hends, ha]
      · rwa [getLast?_append_of_ne_nil _ hne]

end Places

theorem newline_not_mem_lines {cs l : List Char} (h : l ∈ lines cs) : '\n' ∉ l := by
  induction cs generalizing l with
  | nil => exact nomatch h
  | cons c cs ih =>
    rw [lines] at h
    split at h
    · obtain rfl | h := List.mem_cons.1 h
      · exact List.not_mem_nil
      · exact ih h
    · next hc =>
      have hne : '\n' ≠ c := fun he => hc he.symm
      split at h
      · rw [List.mem_singleton.1 h]
        simpa using hne
      · next m ms hms =>
        rw [hms] at ih
        obtain rfl | h := List.mem_cons.1 h
        · exact List.not_mem_cons_of_ne_of_not_mem hne (ih (List.mem_cons_self ..))
        · exact ih (List.mem_cons_of_mem _ h)

/-! ### What is left when the ends of a text are cut off -/

/-- Texts with no blank at either end. -/
structure Trimmed (cs : List Char) : Prop where
  head : ∀ c ∈ cs.head?, isBlank c = false
  last : ∀ c ∈ cs.getLast?, isBlank c = false

theorem trimmed_trim (cs : List Char) : Trimmed (trim cs) := by
  have hfirst : ∀ c ∈ (cs.dropWhile isBlank).head?, isBlank c = false := by
    intro c hc
    have h := List.head?_dropWhile_not isBlank cs
    rw [Option.mem_def] at hc
    simpa [hc] using h
  refine ⟨fun c hc => ?_, fun c hc => ?_⟩
  · have hpre : trim cs <+: cs.dropWhile isBlank := by
      rw [trim, trimBy, ← List.reverse_suffix, List.reverse_reverse]
      exact List.dropWhile_suffix _
    obtain ⟨t, ht⟩ := hpre
    apply hfirst c
    rw [← ht, List.head?_append]
    simp [Option.mem_def.1 hc]
  · rw [trim, trimBy, List.getLast?_reverse] at hc
    have h := List.head?_dropWhile_not isBlank (cs.dropWhile isBlank).reverse
    rw [Option.mem_def] at hc
    simpa [hc] using h

/-- What is cut off are blanks. -/
theorem exists_trim (cs : List Char) : ∃ b b', AllBlank b ∧ AllBlank b' ∧ cs = b ++ trim cs ++ b' := by
  refine ⟨cs.takeWhile isBlank, ((cs.dropWhile isBlank).reverse.takeWhile isBlank).reverse, ?_, ?_, ?_⟩
  · exact fun c hc => List.mem_takeWhile_imp hc
  · exact fun c hc => List.mem_takeWhile_imp (List.mem_reverse.1 hc)
  · rw [trim, trimBy, List.append_assoc, ← List.reverse_append, List.takeWhile_append_dropWhile,
      List.reverse_reverse, List.takeWhile_append_dropWhile]

@[simp] theorem words_trim (cs : List Char) : words (trim cs) = words cs := by
  obtain ⟨b, b', hb, hb', h⟩ := exists_trim cs
  have hwords : words cs = words (b ++ trim cs ++ b') := congrArg words h
  rw [hwords, words_append_blanks _ hb', words_blanks hb]

theorem Trimmed.eq_nil {cs : List Char} (h : Trimmed cs) (hw : words cs = []) : cs = [] := by
  cases cs with
  | nil => rfl
  | cons c r =>
    have hblank : isBlank c = true := words_eq_nil_iff.1 hw c (List.mem_cons_self ..)
    exact absurd hblank (by simp [h.head c rfl])

/-- A text that does not end with a blank ends with the last of its words. -/
theorem getLast?_words {cs : List Char} (h : ∀ c ∈ cs.getLast?, isBlank c = false) :
    cs.getLast? = (words cs).getLast?.bind List.getLast? := by
  induction cs using words_induction with
  | nil => rfl
  | @blank c r hc ih =>
    cases r with
    | nil => exact absurd hc (by simp [h c rfl])
    | cons d r =>
      rw [List.getLast?_cons_cons] at h ⊢
      rw [words_cons_blank hc]
      exact ih h
  | @word w r hw hr ih =>
    rw [words_append hw hr]
    by_cases hnil : r = []
    · simp [hnil, words]
    · rw [getLast?_append_of_ne_nil _ hnil] at h ⊢
      obtain ⟨v, vs, hv⟩ : ∃ v vs, words r = v :: vs := by
        apply List.exists_cons_of_ne_nil
        intro hwords
        have hlast := h _ (List.getLast?_eq_some_getLast hnil)
        exact absurd (words_eq_nil_iff.1 hwords _ (List.getLast_mem hnil)) (by simp [hlast])
      rw [ih h, hv, List.getLast?_cons_cons]

/-- A text of one word is that word, but for blanks around it. -/
theorem Trimmed.eq_word {cs w : List Char} (h : Trimmed cs) (hw : words cs = [w]) : cs = w := by
  induction cs using words_induction with
  | nil => exact nomatch hw
  | @blank c r hc => exact absurd hc (by simp [h.head c rfl])
  | @word v r hv hr =>
    rw [words_append hv hr, List.cons.injEq] at hw
    obtain ⟨rfl, hr⟩ := hw
    by_cases hnil : r = []
    · rw [hnil, List.append_nil]
    · have hblank := words_eq_nil_iff.1 hr _ (List.getLast_mem hnil)
      have hsolid := h.last (r.getLast hnil) (by
        rw [getLast?_append_of_ne_nil _ hnil, List.getLast?_eq_some_getLast hnil]
        rfl)
      exact absurd hblank (by simp [hsolid])

/-! ### Letters of either case

Whatever is no letter stays as it is. -/

private theorem upper_cases {c : Char} (h : ('A' ≤ c && c ≤ 'Z') = true) : ∃ k : Fin 26, c = Char.ofNat (65 + k) := by
  simp only [Bool.and_eq_true, decide_eq_true_eq] at h
  have hlow : 65 ≤ c.toNat := h.1
  have hhigh : c.toNat ≤ 90 := h.2
  refine ⟨⟨c.toNat - 65, by omega⟩, ?_⟩
  rw [Nat.add_sub_cancel' hlow, Char.ofNat_toNat]

theorem isLetter_lowerChar (c : Char) : isLetter (lowerChar c) = isLetter c := by
  unfold lowerChar
  split
  · next h =>
    obtain ⟨k, rfl⟩ := upper_cases h
    revert k
    decide
  · rfl

theorem lowerChar_lowerChar (c : Char) : lowerChar (lowerChar c) = lowerChar c := by
  by_cases h : ('A' ≤ c && c ≤ 'Z') = true
  · obtain ⟨k, rfl⟩ := upper_cases h
    revert k
    decide
  · have hc : lowerChar c = c := if_neg h
    rw [hc, hc]

theorem lower_lower (cs : List Char) : lower (lower cs) = lower cs := by
  simp [lower, Function.comp_def, lowerChar_lowerChar]

/-- What holds of no letter does not depend on the case. -/
theorem congr_of_lowerChar {p : Char → Bool} (hp : ∀ c, isLetter c = true → p c = false) {c d : Char}
    (h : lowerChar c = lowerChar d) : p c = p d := by
  have hlower (c : Char) : p (lowerChar c) = p c := by
    cases hc : isLetter c with
    | true => rw [hp c hc, hp _ (by rw [isLetter_lowerChar, hc])]
    | false => rw [lowerChar, if_neg (by simp [(Bool.or_eq_false_iff.1 hc).2])]
  rw [← hlower c, ← hlower d, h]

variable {w w' : List Char}

/-- A kind of characters with no letters in it is as absent from a text in letters of other case. -/
theorem forall_of_lower {p : Char → Bool} (hp : ∀ c, isLetter c = true → p c = false) (h : lower w = lower w')
    (hw : ∀ c ∈ w, p c = false) : ∀ c ∈ w', p c = false := by
  intro c hc
  have hmem : lowerChar c ∈ lower w := h ▸ List.mem_map_of_mem hc
  obtain ⟨d, hd, hdc⟩ := List.mem_map.1 hmem
  rw [← congr_of_lowerChar hp hdc]
  exact hw d hd

theorem isBlank_of_isLetter {c : Char} (h : isLetter c = true) : isBlank c = false :=
  isBlank_of_isWordChar (by simp [isWordChar, h])

theorem isWord_of_lower (hw : IsWord w) (h : lower w = lower w') : IsWord w' := by
  refine ⟨?_, forall_of_lower (fun c => isBlank_of_isLetter) h hw.solid⟩
  rintro rfl
  exact hw.ne_nil (List.map_eq_nil_iff.1 h)

section NoLetter

variable {d : Char} (hd : isLetter d = false)
include hd

theorem beq_of_isLetter {c : Char} (h : isLetter c = true) : (c == d) = false := by
  rw [beq_eq_false_iff_ne]
  rintro rfl
  simp [hd] at h

theorem not_mem_of_lower (h : lower w = lower w') (hw : d ∉ w) : d ∉ w' := by
  have hne : ∀ c ∈ w', (c == d) = false := by
    refine forall_of_lower (fun c => beq_of_isLetter hd) h fun c hc => ?_
    rw [beq_eq_false_iff_ne]
    exact ne_of_mem_of_not_mem hc hw
  intro hm
  exact absurd (hne d hm) (by simp)

theorem getLast?_of_lower (h : lower w = lower w') (hw : w.getLast? ≠ some d) : w'.getLast? ≠ some d := by
  intro hlast
  have hmap : w.getLast?.map lowerChar = w'.getLast?.map lowerChar := by
    rw [← List.getLast?_map, ← List.getLast?_map]
    exact congrArg List.getLast? h
  rw [hlast, Option.map_some] at hmap
  obtain ⟨c, hc, hcd⟩ := Option.map_eq_some_iff.1 hmap
  have heq : (c == d) = (d == d) := congr_of_lowerChar (fun e => beq_of_isLetter hd) hcd
  rw [beq_self_eq_true, beq_iff_eq] at heq
  exact hw (heq ▸ hc)

end NoLetter

end QuantumNode.Text
