import Mathlib.Data.List.Infix
import QuantumNode.Proofs.Program.Filling
import QuantumNode.Proofs.Subroutine.Operand

/-! Words with names in them, once numbers have taken the place of the names. Where names stand apart from what is
written around them, whether a word is read as an operand does not depend on the numbers. -/
namespace QuantumNode.Script

open Text Subroutine

/-- No name follows a letter, a digit, an underscore or another name, and no name follows a minus sign with a letter
before it. -/
def Apart (cs : List Char) : Prop :=
  (∀ c ∈ cs, [c, '$'] <:+: cs → Separates c) ∧ ∀ c ∈ cs, [c, '-', '$'] <:+: cs → isLetter c = false

instance (c : Char) : Decidable (Separates c) := inferInstanceAs (Decidable (_ ∧ _))

instance (cs : List Char) : Decidable (Apart cs) :=
  @instDecidableAnd _ _ (List.decidableBAll _ cs) (List.decidableBAll _ cs)

namespace Apart

variable {a b cs ds : List Char} {c : Char}

theorem of_part (h : Apart cs) (hi : ds <:+: cs) : Apart ds :=
  ⟨fun c hc hs => h.1 c (hi.subset hc) (hs.trans hi), fun c hc hs => h.2 c (hi.subset hc) (hs.trans hi)⟩

theorem separates (h : Apart (a ++ c :: '$' :: b)) : Separates c := h.1 c (by simp) ⟨a, b, by simp⟩

theorem separates_of_getLast? (h : Apart (a ++ '$' :: b)) (hc : c ∈ a.getLast?) : Separates c := by
  obtain ⟨a, rfl⟩ := List.getLast?_eq_some_iff.1 hc
  rw [List.append_assoc] at h
  exact h.separates

theorem isLetter_eq_false (h : Apart (a ++ c :: '-' :: '$' :: b)) : isLetter c = false :=
  h.2 c (by simp) ⟨a, b, by simp⟩

/-- No name follows digits. -/
theorem head?_of_digits (h : Apart (a ++ b)) (ha : a ≠ []) (hd : ∀ c ∈ a, c.isDigit = true) : b.head? ≠ some '$' := by
  intro hb
  obtain ⟨b, rfl⟩ := List.head?_eq_some_iff.1 hb
  have hs : Separates (a.getLast ha) := h.separates_of_getLast? (List.getLast?_eq_some_getLast ha)
  exact absurd (hd _ (List.getLast_mem ha)) (by simp [hs.isDigit_eq_false])

/-- A text is cut at its first name, with separators on both sides of it. -/
theorem exists_name (h : Apart cs) (hm : '$' ∈ cs) : ∃ a w r, cs = a ++ '$' :: (w ++ r) ∧ '$' ∉ a ∧
    (∀ c ∈ w, isWordChar c = true) ∧ (∀ c ∈ a.getLast?, Separates c) ∧ ∀ c ∈ r.head?, Separates c := by
  obtain ⟨a, b, rfl, ha⟩ := List.eq_append_cons_of_mem hm
  have hsplit : b.takeWhile isWordChar ++ b.dropWhile isWordChar = b := List.takeWhile_append_dropWhile
  refine ⟨a, b.takeWhile isWordChar, b.dropWhile isWordChar, by rw [hsplit], ha, fun c => List.mem_takeWhile_imp,
    fun c hc => h.separates_of_getLast? hc, fun c hc => ⟨?_, ?_⟩⟩
  · have hhead := List.head?_dropWhile_not isWordChar b
    rwa [Option.mem_def.1 hc] at hhead
  · rintro rfl
    obtain ⟨r, hr⟩ := List.head?_eq_some_iff.1 hc
    have hname : Apart (a ++ '$' :: b.takeWhile isWordChar ++ '$' :: r) := by
      rw [← hr, List.append_assoc, List.cons_append, hsplit]
      exact h
    obtain ⟨d, hd⟩ : ∃ d, (a ++ '$' :: b.takeWhile isWordChar).getLast? = some d :=
      ⟨_, List.getLast?_eq_some_getLast (by simp)⟩
    have hs := hname.separates_of_getLast? hd
    rw [getLast?_append_of_ne_nil _ (List.cons_ne_nil _ _)] at hd
    obtain rfl | hd := List.mem_cons.1 (List.mem_of_getLast? hd)
    · exact hs.2 rfl
    · exact absurd (List.mem_takeWhile_imp hd) (by simp [hs.1])

end Apart

/-! ### Numbers -/

theorem letter_of_ofLetter? {c : Char} {k : RegisterGroup} (h : RegisterGroup.ofLetter? c = some k) :
    c = k.letter := by
  unfold RegisterGroup.ofLetter? at h
  split at h <;> cases h <;> rfl

section Words

variable {f g : String → List Char} (hf : Numbers f) (hg : Numbers g) {w : List Char} (h : Apart w)

include hf h in
/-- A word that becomes an integer with a number in it is a name, perhaps with a minus sign. -/
theorem integer_name (hm : '$' ∈ w) {v : Int} (hv : int64? (fill f w) = some v) :
    ∃ n, (∀ c ∈ n, isWordChar c = true) ∧ (w = '$' :: n ∨ w = '-' :: '$' :: n) := by
  obtain ⟨a, n, r, rfl, ha, hn, hlast, hhead⟩ := h.exists_name hm
  obtain ⟨d, ds, hds⟩ := List.exists_cons_of_ne_nil (hf.ne_nil (String.ofList n))
  rw [fill_append_of_not_mem ha, fill_name hn fun c hc => (hhead c hc).1, hds] at hv
  obtain ⟨hsign, hdigit⟩ := isDigit_of_int64? hv
  -- Only a sign separates anything within an integer, and a sign comes first.
  obtain rfl : r = [] := by
    cases r with
    | nil => rfl
    | cons c r =>
      have hc : Separates c := hhead c rfl
      have hmem : c ∈ (a ++ (d :: ds ++ fill f (c :: r))).tail := by cases a <;> simp [fill_cons hc.2]
      exact absurd (hdigit c hmem) (by simp [hc.isDigit_eq_false])
  rw [List.append_nil]
  refine ⟨n, hn, ?_⟩
  cases a with
  | nil => exact .inl rfl
  | cons c a =>
    obtain rfl : a = [] := by
      by_contra hne
      have hl : a.getLast? = some (a.getLast hne) := List.getLast?_eq_some_getLast hne
      have hs : Separates (a.getLast hne) := hlast _ (by rwa [List.getLast?_cons_of_ne_nil hne])
      exact absurd (hdigit _ (List.mem_append_left _ (List.getLast_mem hne))) (by simp [hs.isDigit_eq_false])
    have hc : Separates c := hlast c rfl
    obtain rfl | hd := hsign c rfl
    · exact .inr rfl
    · exact absurd hd (by simp [hc.isDigit_eq_false])

include hg in
theorem int64?_name {n : List Char} (hn : ∀ c ∈ n, isWordChar c = true) (hw : w = '$' :: n ∨ w = '-' :: '$' :: n) :
    ∃ v, int64? (fill g w) = some v := by
  have hname : fill g ('$' :: n) = g (String.ofList n) := by
    simpa [(fill_eq_nil hg).2 rfl] using fill_name (f := g) hn (r := []) nofun
  have hread := int64?_digits (hg.digits (String.ofList n)) (hg.fits _)
  obtain rfl | rfl := hw
  · exact ⟨_, hname ▸ hread.1⟩
  · exact ⟨_, by rw [fill_cons (by decide), hname, hread.2]⟩

include hf hg h

theorem int64?_fill {v : Int} (hv : int64? (fill f w) = some v) : ∃ u, int64? (fill g w) = some u := by
  by_cases hm : '$' ∈ w
  · obtain ⟨n, hn, hw⟩ := integer_name hf h hm hv
    exact int64?_name hg hn hw
  · rw [fill_of_not_mem hm] at hv ⊢
    exact ⟨v, hv⟩

omit hg in
/-- There is no name in a register. -/
theorem not_mem_of_register {r : Register} (hr : Register.parse? (fill f w) = some r) : '$' ∉ w := by
  intro hm
  cases w using text_induction with
  | nil => exact absurd hm List.not_mem_nil
  | @literal c w hc =>
    rw [fill_cons hc, Register.parse?] at hr
    split at hr
    · next k i hk hi =>
      have hletter : isLetter c = true := by
        rw [letter_of_ofLetter? hk]
        cases k <;> rfl
      -- The letter of the group would stand before the name, or before its sign.
      obtain ⟨n, -, rfl | rfl⟩ := integer_name hf (h.of_part (List.suffix_cons ..).isInfix)
        (List.mem_of_ne_of_mem (Ne.symm hc) hm) hi
      · exact absurd (h.separates (a := [])).1 (by simp [isWordChar, hletter])
      · exact absurd (h.isLetter_eq_false (a := [])) (by simp [hletter])
    · cases hr
  | @name n w hn hw =>
    obtain ⟨d, ds, hds⟩ := List.exists_cons_of_ne_nil (hf.ne_nil (String.ofList n))
    rw [fill_name hn hw, hds, List.cons_append, Register.parse?] at hr
    split at hr
    · next k i hk hi =>
      have hd : d.isDigit = true := hf.isDigit (hds ▸ List.mem_cons_self ..)
      rw [letter_of_ofLetter? hk] at hd
      cases k <;> cases hd
    · cases hr

omit hg in
theorem register_fill {r : Register} (hr : Register.parse? (fill f w) = some r) :
    Register.parse? (fill g w) = some r := by
  have hm := not_mem_of_register hf h hr
  rwa [fill_of_not_mem hm] at hr ⊢

theorem value_fill {v : Value} (hv : Value.parse? (fill f w) = some v) : ∃ u, Value.parse? (fill g w) = some u := by
  have literal (hi : ∃ u, int64? (fill g w) = some u) : ∃ u, Value.parse? (fill g w) = some u := by
    obtain ⟨u, hu⟩ := hi
    unfold Value.parse?
    split
    · exact ⟨_, rfl⟩
    · exact ⟨_, by rw [hu]; rfl⟩
  unfold Value.parse? at hv
  split at hv
  · next r hr => exact ⟨.register r, by rw [Value.parse?, register_fill hf h hr]⟩
  · obtain ⟨i, hi, -⟩ := Option.map_eq_some_iff.1 hv
    exact literal (int64?_fill hf hg h hi)

omit h hf hg in
theorem cut_digits {d r : List Char} (hd : ∀ c ∈ d, c.isDigit = true)
    (hr : ∀ c ∈ r.head?, c ≠ '$' ∧ c.isDigit = false) :
    (d ++ fill f r).takeWhile Char.isDigit = d ∧ (d ++ fill f r).dropWhile Char.isDigit = fill f r := by
  have hends : ∀ c ∈ (fill f r).head?, c.isDigit = false := by
    cases r with
    | nil => exact nofun
    | cons c r =>
      rw [fill_cons (hr c rfl).1]
      rintro _ ⟨⟩
      exact (hr c rfl).2
  exact ⟨takeWhile_run hd hends, dropWhile_run hd hends⟩

/-- Digits at the front of a word are its own, or all of them stand for a name. -/
theorem digits_fill {v : Int} (hv : int64? ((fill f w).takeWhile Char.isDigit) = some v) :
    ∃ d e r, r <:+ w ∧ fill f w = d ++ fill f r ∧ fill g w = e ++ fill g r ∧ (∀ c ∈ d, c.isDigit = true) ∧
      (∀ c ∈ e, c.isDigit = true) ∧ (∃ u, int64? e = some u) ∧ ∀ c ∈ r.head?, c ≠ '$' ∧ c.isDigit = false := by
  by_cases hd : w.head? = some '$'
  · obtain ⟨a, n, r, rfl, ha, hn, -, hr⟩ := h.exists_name (List.mem_of_head? hd)
    obtain rfl : a = [] := by
      cases a with
      | nil => rfl
      | cons c a => exact absurd (Option.some.inj hd ▸ List.mem_cons_self ..) ha
    have hends : EndsName r := fun c hc => (hr c hc).1
    exact ⟨f (String.ofList n), g (String.ofList n), r, ⟨'$' :: n, by simp⟩, fill_name hn hends, fill_name hn hends,
      fun c => hf.isDigit, fun c => hg.isDigit, ⟨_, (int64?_digits (hg.digits _) (hg.fits _)).1⟩,
      fun c hc => ⟨(hr c hc).2, (hr c hc).isDigit_eq_false⟩⟩
  · have hsplit : w.takeWhile Char.isDigit ++ w.dropWhile Char.isDigit = w := List.takeWhile_append_dropWhile
    have hdigits : ∀ c ∈ w.takeWhile Char.isDigit, c.isDigit = true := fun c => List.mem_takeWhile_imp
    have hm : '$' ∉ w.takeWhile Char.isDigit := fun hm => absurd (hdigits _ hm) (by decide)
    have hhead : ∀ c ∈ (w.dropWhile Char.isDigit).head?, c ≠ '$' ∧ c.isDigit = false := by
      refine fun c hc => ⟨?_, ?_⟩
      · rintro rfl
        by_cases hnil : w.takeWhile Char.isDigit = []
        · rw [hnil, List.nil_append] at hsplit
          exact hd (hsplit ▸ hc)
        · exact (hsplit.symm ▸ h).head?_of_digits hnil hdigits hc
      · have hnot := List.head?_dropWhile_not Char.isDigit w
        rwa [Option.mem_def.1 hc] at hnot
    have hfill (f : String → List Char) :
        fill f w = w.takeWhile Char.isDigit ++ fill f (w.dropWhile Char.isDigit) := by
      rw [← fill_append_of_not_mem hm, hsplit]
    rw [hfill, (cut_digits hdigits hhead).1] at hv
    exact ⟨_, _, _, List.dropWhile_suffix _, hfill f, hfill g, hdigits, hdigits, ⟨v, hv⟩, hhead⟩

/-- An address ends at the same place. -/
theorem address?_fill {a : Int} {s : List Char} (ha : address? (fill f w) = some (a, s)) :
    ∃ b r, r <:+: w ∧ s = fill f r ∧ address? (fill g w) = some (b, fill g r) := by
  unfold address? at ha
  split at ha
  · next t ht =>
    have hhead : w.head? = some '@' := (head?_fill hf (by decide)).1 (by rw [ht]; rfl)
    obtain ⟨w, rfl⟩ := List.head?_eq_some_iff.1 hhead
    rw [fill_cons (by decide)] at ht
    cases ht
    obtain ⟨v, hv, he⟩ := Option.map_eq_some_iff.1 ha
    cases he
    have hw : w <:+ '@' :: w := List.suffix_cons ..
    obtain ⟨d, e, r, hr, hd, he, hdd, hed, ⟨u, hu⟩, hends⟩ := digits_fill hf hg (h.of_part hw.isInfix) hv
    refine ⟨u, r, (hr.trans hw).isInfix, ?_, ?_⟩
    · rw [hd, (cut_digits hdd hends).2]
    · simp only [fill_cons (show '@' ≠ '$' by decide), address?, he, (cut_digits hed hends).1,
        (cut_digits hed hends).2, hu, Option.map_some]
  · cases ha

omit h hf hg in
theorem bracketed?_eq_some {cs s : List Char} : bracketed? cs = some s ↔ s ≠ [] ∧ cs = '[' :: (s ++ [']']) := by
  unfold bracketed?
  split
  · next r =>
    rw [Option.ite_none_right_eq_some, Option.some.injEq]
    constructor
    · rintro ⟨⟨hlast, hlength⟩, rfl⟩
      refine ⟨fun h => ?_, ?_⟩
      · have := congrArg List.length h
        simp at this
        omega
      · rw [List.dropLast_append_getLast? _ hlast]
    · rintro ⟨hne, hr⟩
      cases hr
      have := List.length_pos_iff.2 hne
      exact ⟨⟨List.getLast?_concat, by simp; omega⟩, List.dropLast_concat⟩
  · next hcs => exact iff_of_false nofun fun h => hcs _ h.2

omit h in
theorem bracketed?_fill {s : List Char} (hs : bracketed? (fill f w) = some s) :
    ∃ r, r <:+: w ∧ s = fill f r ∧ bracketed? (fill g w) = some (fill g r) := by
  obtain ⟨hne, hw⟩ := bracketed?_eq_some.1 hs
  have hhead : w.head? = some '[' := (head?_fill hf (by decide)).1 (by rw [hw]; rfl)
  obtain ⟨w, rfl⟩ := List.head?_eq_some_iff.1 hhead
  rw [fill_cons (by decide), List.cons_inj_right] at hw
  have hlast : w.getLast? = some ']' := (getLast?_fill hf (by decide)).1 (by rw [hw, List.getLast?_concat])
  obtain ⟨r, rfl⟩ := List.getLast?_eq_some_iff.1 hlast
  have hclose : Separates ']' := by decide
  have hfill (f : String → List Char) : fill f (r ++ [']']) = fill f r ++ [']'] := by
    rw [fill_append (hclose.endsName []), fill_cons hclose.2]
    rfl
  rw [hfill, List.append_cancel_right_eq] at hw
  subst hw
  refine ⟨r, ⟨['['], [']'], by simp⟩, rfl, bracketed?_eq_some.2 ⟨?_, ?_⟩⟩
  · exact mt (fill_eq_nil hg).1 (mt (fill_eq_nil hf).2 hne)
  · rw [fill_cons (by decide), hfill]

theorem element?_fill {e : ArrayEntry} (he : element? (fill f w) = some e) :
    ∃ e', element? (fill g w) = some e' := by
  simp only [element?, Option.bind_eq_bind, Option.bind_eq_some_iff] at he
  obtain ⟨⟨a, s⟩, ha, t, ht, he⟩ := he
  obtain ⟨hcolon, he⟩ := Option.ite_none_left_eq_some.1 he
  obtain ⟨v, hv, -⟩ := Option.bind_eq_some_iff.1 he
  obtain ⟨b, r, hr, rfl, hb⟩ := address?_fill hf hg h ha
  obtain ⟨x, hx, rfl, hbr⟩ := bracketed?_fill hf hg ht
  obtain ⟨u, hu⟩ := value_fill hf hg (h.of_part (hx.trans hr)) hv
  have hcolon' : ':' ∉ fill g x := by
    rwa [mem_fill hg (by decide), ← mem_fill hf (by decide)]
  exact ⟨⟨b, u⟩, by simp [element?, hb, hbr, hcolon', hu]⟩

theorem slice?_fill {e : ArraySlice} (he : slice? (fill f w) = some e) : ∃ e', slice? (fill g w) = some e' := by
  simp only [slice?, Option.bind_eq_bind, Option.bind_eq_some_iff] at he
  obtain ⟨⟨a, s⟩, ha, t, ht, ⟨p, q⟩, hpq, v, hv, u, hu, -⟩ := he
  obtain ⟨b, r, hr, rfl, hb⟩ := address?_fill hf hg h ha
  obtain ⟨x, hx, rfl, hbr⟩ := bracketed?_fill hf hg ht
  rw [cutAt_fill hf (by decide), Option.map_eq_some_iff] at hpq
  obtain ⟨⟨y, z⟩, hyz, hpq⟩ := hpq
  cases hpq
  obtain ⟨hy, hz⟩ := infix_of_cutAt hyz
  obtain ⟨v', hv'⟩ := value_fill hf hg (h.of_part (hy.trans (hx.trans hr))) hv
  obtain ⟨u', hu'⟩ := value_fill hf hg (h.of_part (hz.trans (hx.trans hr))) hu
  exact ⟨⟨b, v', u'⟩, by simp [slice?, hb, hbr, cutAt_fill hg (show Separates ':' by decide), hyz, hv', hu']⟩

omit hg in
/-- There is no name in the name of a label. -/
theorem not_mem_of_label (hl : Layout.isLabelName (fill f w) = true) : '$' ∉ w := by
  intro hm
  obtain ⟨a, n, r, rfl, ha, hn, hlast, hhead⟩ := h.exists_name hm
  rw [fill_append_of_not_mem ha, fill_name hn fun c hc => (hhead c hc).1] at hl
  cases a using List.reverseRecOn with
  | nil =>
    obtain ⟨d, ds, hds⟩ := List.exists_cons_of_ne_nil (hf.ne_nil (String.ofList n))
    have hd : d.isDigit = true := hf.isDigit (hds ▸ List.mem_cons_self ..)
    rw [hds, List.nil_append, List.cons_append, isLabelName_digit hd] at hl
    exact nomatch hl
  | append_singleton a c =>
    have hc : Separates c := hlast c List.getLast?_concat
    have hword := isWordChar_of_isLabelName hl c (by simp)
    exact absurd hword (by simp [hc.1])

/-- A branch target is read as soon as the labels are the same. -/
theorem target?_fill {l m : Layout} (hlabels : m.labels = l.labels)
    (hnames : ∀ p ∈ l.labels, Layout.isLabelName p.1 = true) {v : Int} (hv : target? l (fill f w) = some v) :
    ∃ u, target? m (fill g w) = some u := by
  unfold target? at hv
  split at hv
  · next i hi =>
    obtain ⟨u, hu⟩ := int64?_fill hf hg h hi
    exact ⟨u, by rw [target?, hu]⟩
  · next hi =>
    obtain ⟨n, hn, -⟩ := Option.map_eq_some_iff.1 hv
    obtain ⟨l₁, l₂, hmem, -⟩ := List.lookup_eq_some_iff.1 hn
    have hname : Layout.isLabelName (fill f w) = true := hnames (fill f w, n) (hmem ▸ by simp)
    have hm := not_mem_of_label hf h hname
    rw [fill_of_not_mem hm] at hi hn ⊢
    rw [Layout.label?, ← hlabels, ← Layout.label?] at hn
    exact ⟨_, by rw [target?, hi, hn]; rfl⟩

omit h hf hg in
theorem exists_map {α β γ : Type} {x : Option α} {y : Option β} {p : α → γ} {q : β → γ}
    (hxy : ∀ a, x = some a → ∃ b, y = some b) {c : γ} (hc : x.map p = some c) : ∃ d, y.map q = some d := by
  obtain ⟨a, ha, -⟩ := Option.map_eq_some_iff.1 hc
  obtain ⟨b, hb⟩ := hxy a ha
  exact ⟨q b, by rw [hb, Option.map_some]⟩

/-- Whether a word is an operand of a kind does not depend on the numbers in it. -/
theorem operand?_fill {l m : Layout} (hlabels : m.labels = l.labels)
    (hnames : ∀ p ∈ l.labels, Layout.isLabelName p.1 = true) {k : OperandKind} {o : Operand}
    (ho : operand? l (fill f w) k = some o) : ∃ o', operand? m (fill g w) k = some o' := by
  cases k with
  | register => exact exists_map (fun r hr => ⟨r, register_fill hf h hr⟩) ho
  | immediate => exact exists_map (fun _ => int64?_fill hf hg h) ho
  | value => exact exists_map (fun _ => value_fill hf hg h) ho
  | target => exact exists_map (fun _ => target?_fill hf hg h hlabels hnames) ho
  | entry => exact exists_map (fun _ => element?_fill hf hg h) ho
  | slice => exact exists_map (fun _ => slice?_fill hf hg h) ho
  | address =>
    simp only [operand?] at ho ⊢
    split at ho
    · next a ha =>
      obtain ⟨b, r, -, hr, hb⟩ := address?_fill hf hg h ha
      rw [(fill_eq_nil hf).1 hr.symm, (fill_eq_nil hg).2 rfl] at hb
      exact ⟨.address b, by rw [hb]⟩
    · cases ho

end Words

end QuantumNode.Script
