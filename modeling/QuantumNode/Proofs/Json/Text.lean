import Mathlib.Data.List.Forall2
import Mathlib.Tactic.IntervalCases
import QuantumNode.Proofs.Json.Reader
import QuantumNode.Proofs.Text.Numeral
import QuantumNode.Program.Results

/-! Texts that are written in the grammar of JSON. Each lemma says when a part of the reader takes a text that is
written one way, and what it makes of it: strings, items with commas between them, and numbers. -/
namespace QuantumNode

open Text

namespace Json

variable {α β : Type}

/-- A reader takes a text just if it is good; what it makes of it is right then, and the rest is left. -/
structure Takes (x : Option (α × List Char)) (good : Prop) (right : α → Prop) (rest : List Char) : Prop where
  taken : good → ∃ a, x = some (a, rest) ∧ right a
  refused : ¬ good → x = none

namespace Takes

variable {x : Option (α × List Char)} {good good' : Prop} {right : α → Prop} {right' : β → Prop}
  {rest rest' : List Char}

theorem map {f : α → β} (h : Takes x good right rest) (hf : ∀ a, right a → right' (f a)) :
    Takes (x.map fun p => (f p.1, p.2)) good right' rest where
  taken hgood := by
    obtain ⟨a, rfl, ha⟩ := h.taken hgood
    exact ⟨f a, rfl, hf a ha⟩
  refused hgood := by
    rw [h.refused hgood]
    rfl

/-- A text behind another: both have to be good. -/
theorem bind {f : α × List Char → Option (β × List Char)} (h : Takes x good right rest')
    (hf : ∀ a, right a → Takes (f (a, rest')) good' right' rest) : Takes (x.bind f) (good ∧ good') right' rest where
  taken := by
    rintro ⟨hgood, hgood'⟩
    obtain ⟨a, rfl, ha⟩ := h.taken hgood
    exact (hf a ha).taken hgood'
  refused hbad := by
    by_cases hgood : good
    · obtain ⟨a, rfl, ha⟩ := h.taken hgood
      exact (hf a ha).refused fun hgood' => hbad ⟨hgood, hgood'⟩
    · rw [h.refused hgood]
      rfl

theorem congr (h : Takes x good right rest) (hgood : good ↔ good') : Takes x good' right rest where
  taken hg := h.taken (hgood.2 hg)
  refused hg := h.refused (mt hgood.1 hg)

end Takes

theorem skip_cons {c : Char} (h : isSpace c = false) (r : List Char) : skip (c :: r) = c :: r :=
  List.dropWhile_cons_of_neg (by simp [h])

/-! ### Strings -/

/-- Characters that a string may hold where only quotation marks, backslashes, line feeds and tabs are escaped. -/
def Printable (c : Char) : Prop := 32 ≤ c.toNat ∨ c = '\n' ∨ c = '\t'

theorem characters_escapeChar {c : Char} (h : Printable c) (r : List Char) :
    characters (RunResults.escapeChar c ++ r) = (characters r).map fun p => (c :: p.1, p.2) := by
  unfold RunResults.escapeChar
  split
  · rfl
  · rfl
  · rfl
  · rfl
  · next hquote hslash hline htab =>
    have hcode : ¬ c.toNat < 32 := by
      rcases h with h | h | h
      · omega
      · exact absurd h hline
      · exact absurd h htab
    rw [List.singleton_append, characters.eq_def]
    simp only [if_neg hquote, if_neg hslash, if_neg hcode]

theorem characters_control {c : Char} (h : ¬ Printable c) (r : List Char) :
    characters (RunResults.escapeChar c ++ r) = none := by
  obtain ⟨hcode, hline, htab⟩ : c.toNat < 32 ∧ c ≠ '\n' ∧ c ≠ '\t' := by
    simpa only [Printable, not_or, Nat.not_le] using h
  have hne (d : Char) (hd : 32 ≤ d.toNat) : c ≠ d := by
    rintro rfl
    omega
  have hquote : c ≠ '\x22' := hne _ (by decide)
  have hslash : c ≠ '\\' := hne _ (by decide)
  unfold RunResults.escapeChar
  split
  · exact absurd rfl hquote
  · exact absurd rfl hslash
  · exact absurd rfl hline
  · exact absurd rfl htab
  · rw [List.singleton_append, characters.eq_def]
    simp only [if_neg hquote, if_neg hslash, if_pos hcode]

theorem characters_takes (cs rest : List Char) :
    Takes (characters (cs.flatMap RunResults.escapeChar ++ '\x22' :: rest)) (∀ c ∈ cs, Printable c) (· = cs) rest := by
  induction cs with
  | nil =>
    have hend : characters ('\x22' :: rest) = some ([], rest) := by
      rw [characters.eq_def]
      simp only [if_true]
    exact ⟨fun _ => ⟨[], hend, rfl⟩, fun h => absurd (List.forall_mem_nil _) h⟩
  | cons c cs ih =>
    rw [List.flatMap_cons, List.append_assoc]
    by_cases hc : Printable c
    · rw [characters_escapeChar hc]
      have hall : (∀ d ∈ cs, Printable d) ↔ ∀ d ∈ c :: cs, Printable d := by simp [hc]
      have hcons : ∀ ds, ds = cs → c :: ds = c :: cs := fun _ h => congrArg (c :: ·) h
      exact (ih.map hcons).congr hall
    · rw [characters_control hc]
      exact ⟨fun h => absurd (h c (List.mem_cons_self ..)) hc, fun _ => rfl⟩


/-! ### Items -/

/-- Texts that stand behind an item: a comma or the end of an array or an object. -/
def Follows (rest : List Char) : Prop := ∃ c r, rest = c :: r ∧ (c = ',' ∨ c = ']' ∨ c = '\x7d')

/-- Texts whose first character begins an item. -/
def Begins (close : Char) (cs : List Char) : Prop := ∃ c r, cs = c :: r ∧ isSpace c = false ∧ c ≠ close

theorem begins_intercalate {f : β → List Char} {close : Char} {l : List β} (hl : l ≠ [])
    (h : ∀ b ∈ l, Begins close (f b)) : ∃ c r, [','].intercalate (l.map f) = c :: r ∧ isSpace c = false ∧
      c ≠ close ∧ l.length ≤ r.length + 1 := by
  induction l with
  | nil => exact absurd rfl hl
  | cons b l ih =>
    obtain ⟨c, r, hcr, hc, hne⟩ := h b (List.mem_cons_self ..)
    cases l with
    | nil => exact ⟨c, r, by rw [List.map_singleton, List.intercalate_singleton, hcr], hc, hne, by simp⟩
    | cons b' l =>
      obtain ⟨c', r', hcr', -, -, hlength⟩ := ih (List.cons_ne_nil _ _) fun d hd => h d (List.mem_cons_of_mem _ hd)
      refine ⟨c, r ++ ',' :: c' :: r', ?_, hc, hne, ?_⟩
      · rw [List.map_cons] at hcr'
        rw [List.map_cons, List.map_cons, List.intercalate_cons_cons, hcr', hcr]
        simp
      · simp only [List.length_cons, List.length_append] at hlength ⊢
        omega

section Items

variable {f : β → List Char} {item : List Char → Option (α × List Char)} {good : β → Prop} {right : β → α → Prop}
  {close : Char} {l : List β} (hclose : close = ']' ∨ close = '\x7d')
  (hitem : ∀ b ∈ l, ∀ rest, Follows rest → Takes (item (f b ++ rest)) (good b) (right b) rest)
include hclose hitem

theorem items_takes (hl : l ≠ []) {n : Nat} (hn : l.length ≤ n) (rest : List Char) :
    Takes (items item close n ([','].intercalate (l.map f) ++ close :: rest)) (∀ b ∈ l, good b)
      (List.Forall₂ right l) rest := by
  have hspace : isSpace close = false := by rcases hclose with rfl | rfl <;> rfl
  have hcomma : ¬ ',' = close := by rcases hclose with rfl | rfl <;> decide
  induction l generalizing n with
  | nil => exact absurd rfl hl
  | cons b l ih =>
    obtain ⟨n, rfl⟩ : ∃ m, n = m + 1 := ⟨n - 1, by simp only [List.length_cons] at hn; omega⟩
    have hb := hitem b (List.mem_cons_self ..)
    cases l with
    | nil =>
      rw [List.map_singleton, List.intercalate_singleton, items]
      have hgood : good b ∧ True ↔ ∀ d ∈ [b], good d := by simp
      refine ((hb _ ⟨close, rest, rfl, .inr hclose⟩).bind fun a ha => ?_).congr hgood
      simp only [skip_cons hspace, if_true]
      exact ⟨fun _ => ⟨[a], rfl, .cons ha .nil⟩, fun h => absurd trivial h⟩
    | cons b' l =>
      have hrest := ih (fun d hd => hitem d (List.mem_cons_of_mem _ hd)) (List.cons_ne_nil _ _)
        (Nat.le_of_succ_le_succ hn)
      rw [List.map_cons] at hrest
      rw [List.map_cons, List.map_cons, List.intercalate_cons_cons, List.append_assoc, List.append_assoc, items]
      refine ((hb _ ⟨',', _, rfl, .inl rfl⟩).bind fun a ha => ?_).congr (List.forall_mem_cons (p := good)).symm
      simp only [skip_cons (show isSpace ',' = false from rfl), if_neg hcomma, if_true]
      exact hrest.map fun as has => List.Forall₂.cons ha has

/-- What is written between an opening and a closing character. -/
theorem enclosed_takes (hbegins : ∀ b ∈ l, Begins close (f b)) (rest : List Char) :
    Takes (enclosed item close ([','].intercalate (l.map f) ++ close :: rest)) (∀ b ∈ l, good b)
      (List.Forall₂ right l) rest := by
  have hspace : isSpace close = false := by rcases hclose with rfl | rfl <;> rfl
  by_cases hl : l = []
  · subst hl
    have hnone : enclosed item close (close :: rest) = some ([], rest) := by
      simp only [enclosed, skip_cons hspace, if_true]
    exact ⟨fun _ => ⟨[], hnone, .nil⟩, fun h => absurd (List.forall_mem_nil _) h⟩
  · obtain ⟨c, r, hcr, hc, hne, hlength⟩ : ∃ c r, [','].intercalate (l.map f) ++ close :: rest = c :: r ∧
        isSpace c = false ∧ c ≠ close ∧ l.length ≤ r.length := by
      obtain ⟨c, r, hcr, hc, hne, hlength⟩ := begins_intercalate hl hbegins
      refine ⟨c, r ++ close :: rest, by rw [hcr, List.cons_append], hc, hne, ?_⟩
      rw [List.length_append, List.length_cons]
      omega
    have hitems := items_takes hclose hitem hl hlength rest
    rw [hcr] at hitems ⊢
    simpa only [enclosed, skip_cons hc, if_neg hne] using hitems

end Items

/-! ### Numbers -/

section Numbers

open Number RealText

theorem head?_toDigits_ne_zero {n : Nat} (hn : 0 < n) : (Nat.toDigits 10 n).head? ≠ some '0' := by
  induction n using Nat.strongRecOn with
  | ind n ih =>
    rw [Nat.toDigits_eq_if (by decide)]
    split
    · next hlt => interval_cases n <;> decide
    · next hge =>
      rw [List.head?_append_of_ne_nil _ Nat.toDigits_ne_nil]
      exact ih (n / 10) (by omega) (by omega)

/-- No zero stands before other digits, also where only the first digits of a number are written. -/
theorem isWhole_take (n : Nat) {k : Nat} (hk : 0 < k) : isWhole ((Nat.toDigits 10 n).take k) = true := by
  obtain ⟨k, rfl⟩ : ∃ j, k = j + 1 := ⟨k - 1, by omega⟩
  obtain rfl | hn := Nat.eq_zero_or_pos n
  · rw [Nat.toDigits_zero]
    cases k <;> rfl
  · have hhead := head?_toDigits_ne_zero hn
    obtain ⟨c, ds, hds⟩ := List.exists_cons_of_ne_nil (Nat.toDigits_ne_nil (b := 10) (n := n))
    rw [hds] at hhead ⊢
    rw [List.take_succ_cons]
    have hc : ¬ c = '0' := by simpa using hhead
    simp [isWhole, hc]

theorem isWhole_toDigits (n : Nat) : isWhole (Nat.toDigits 10 n) = true := by
  have h := isWhole_take n (k := (Nat.toDigits 10 n).length) (List.length_pos_iff.2 Nat.toDigits_ne_nil)
  rwa [List.take_length] at h

/-- Texts before which the digits and the places of a number end. -/
def EndsPlaces (r : List Char) : Prop := ∀ c ∈ r.head?, c.isDigit = false ∧ c ≠ '.'

theorem EndsPlaces.endsNumber {r : List Char} (h : EndsPlaces r) : EndsNumber r := fun c hc => (h c hc).1

theorem endsPlaces_of_follows {rest : List Char} (h : Follows rest) : EndsPlaces rest := by
  obtain ⟨c, r, rfl, rfl | rfl | rfl⟩ := h <;> (rintro _ ⟨⟩; decide)

theorem fraction?_none {r : List Char} (hr : EndsPlaces r) : fraction? r = some ([], r) := by
  unfold fraction?
  split
  · exact absurd rfl (hr '.' rfl).2
  · rfl

theorem fraction?_places {places r : List Char} (hp : ∀ c ∈ places, c.isDigit = true) (hr : EndsPlaces r) :
    fraction? (fraction places ++ r) = some (places, r) := by
  by_cases hempty : places.isEmpty = true
  · rw [fraction, if_pos hempty, List.isEmpty_iff.1 hempty]
    exact fraction?_none hr
  · rw [fraction, if_neg hempty, List.cons_append, fraction?, takeWhile_run hp hr.endsNumber,
      dropWhile_run hp hr.endsNumber, if_neg hempty]

theorem exponent?_follows {rest : List Char} (h : Follows rest) : exponent? rest = some (0, rest) := by
  obtain ⟨c, r, rfl, rfl | rfl | rfl⟩ := h <;> rfl

theorem exponent?_text (x : Int) {rest : List Char} (h : Follows rest) :
    ∃ e, exponent? (exponentText x ++ rest) = some (e, rest) := by
  have hd : ∀ c ∈ padLeft 2 (digits x.natAbs), c.isDigit = true := by
    intro c hc
    obtain hc | hc := List.mem_append.1 hc
    · rw [List.eq_of_mem_replicate hc]
      rfl
    · exact isDigit_of_mem_toDigits hc
  have hne : padLeft 2 (digits x.natAbs) ≠ [] := List.append_ne_nil_of_right_ne_nil _ Nat.toDigits_ne_nil
  have hends := (endsPlaces_of_follows h).endsNumber
  unfold exponentText
  split <;> simp [exponent?, takeWhile_run hd hends, dropWhile_run hd hends, hne]

/-- A number is taken apart into its sign, its digits, its places and its exponent. -/
theorem number?_eq (negative : Bool) {whole places r r' rest : List Char} {e : Int} (hwhole : isWhole whole = true)
    (hd : ∀ c ∈ whole, c.isDigit = true) (hr : EndsNumber r) (hplaces : fraction? r = some (places, r'))
    (hexponent : exponent? r' = some (e, rest)) :
    number? ((if negative then ['-'] else []) ++ (whole ++ r)) =
      some (.number (signed negative (natOfDigits (whole ++ places))) (e - places.length), rest) := by
  have hhead : ((whole ++ r).head? == some '-') = false := by
    obtain ⟨c, ds, rfl⟩ : ∃ c ds, whole = c :: ds := List.exists_cons_of_ne_nil <| by
      rintro rfl
      exact absurd hwhole (by decide)
    rw [List.cons_append, List.head?_cons, beq_eq_false_iff_ne]
    rintro ⟨⟩
    exact absurd (hd '-' (List.mem_cons_self ..)) (by decide)
  cases negative with
  | false =>
    simp only [Bool.false_eq_true, if_false, List.nil_append, number?, hhead]
    simp [takeWhile_run hd hr, dropWhile_run hd hr, hwhole, hplaces, hexponent]
  | true => simp [number?, takeWhile_run hd hr, dropWhile_run hd hr, hwhole, hplaces, hexponent]

theorem number?_integer (v : Int) {rest : List Char} (h : Follows rest) :
    number? ((toString v).toList ++ rest) = some (.number v 0, rest) := by
  have hends := endsPlaces_of_follows h
  have hnumber (negative : Bool) (n : Nat) := number?_eq negative (isWhole_toDigits n)
    (fun _ => isDigit_of_mem_toDigits) hends.endsNumber (fraction?_none hends) (exponent?_follows h)
  simp only [List.append_nil, natOfDigits_toDigits, List.length_nil, Int.natCast_zero, Int.sub_zero] at hnumber
  rw [toList_toString_int]
  split
  · next hv =>
    have hsigned : signed false v.toNat = v := Int.toNat_of_nonneg hv
    have h := hnumber false v.toNat
    rwa [hsigned] at h
  · next hv =>
    have hsigned : signed true (-v).toNat = v := by
      simp only [signed, if_true]
      omega
    have h := hnumber true (-v).toNat
    rwa [hsigned] at h

/-- Texts of numbers without a sign: digits, places and an exponent, or no exponent. -/
inductive Decimal : List Char → Prop
  | plain {whole places : List Char} (hwhole : isWhole whole = true) (hd : ∀ c ∈ whole, c.isDigit = true)
      (hp : ∀ c ∈ places, c.isDigit = true) : Decimal (whole ++ fraction places)
  | scaled {whole places : List Char} (hwhole : isWhole whole = true) (hd : ∀ c ∈ whole, c.isDigit = true)
      (hp : ∀ c ∈ places, c.isDigit = true) (x : Int) : Decimal (whole ++ fraction places ++ exponentText x)

theorem number?_decimal (negative : Bool) {cs rest : List Char} (hcs : Decimal cs) (h : Follows rest) :
    ∃ c x, number? ((if negative then ['-'] else []) ++ (cs ++ rest)) = some (.number c x, rest) := by
  have hends (places : List Char) {r : List Char} (hr : EndsPlaces r) : EndsNumber (fraction places ++ r) := by
    unfold fraction
    split
    · exact hr.endsNumber
    · rintro _ ⟨⟩
      rfl
  cases hcs with
  | @plain whole places hwhole hd hp =>
    have hrest := endsPlaces_of_follows h
    rw [List.append_assoc]
    exact ⟨_, _, number?_eq negative hwhole hd (hends places hrest) (fraction?_places hp hrest) (exponent?_follows h)⟩
  | @scaled whole places hwhole hd hp x =>
    have hrest : EndsPlaces (exponentText x ++ rest) := by
      rintro _ ⟨⟩
      decide
    obtain ⟨e, he⟩ := exponent?_text x h
    rw [List.append_assoc, List.append_assoc]
    exact ⟨_, _, number?_eq negative hwhole hd (hends places hrest) (fraction?_places hp hrest) he⟩

theorem isDigit_of_mem_dropZeros {cs : List Char} (h : ∀ c ∈ cs, c.isDigit = true) :
    ∀ c ∈ dropZeros cs, c.isDigit = true := fun c hc =>
  h c (List.mem_reverse.1 ((List.dropWhile_suffix _).subset (List.mem_reverse.1 hc)))

theorem decimal_generalDigits (p m : Nat) (e : Int) : Decimal (generalDigits p m e) := by
  have hzero : ∀ c ∈ ['0'], c.isDigit = true := List.forall_mem_singleton.2 rfl
  obtain ⟨s, x, hs⟩ : ∃ s x, leadingDigits p m e = (digits s, x) := by
    unfold leadingDigits
    dsimp only
    split
    · exact ⟨_, _, rfl⟩
    · exact ⟨_, _, rfl⟩
  have hd : ∀ c ∈ digits s, c.isDigit = true := fun c => isDigit_of_mem_toDigits
  have htake (k : Nat) : ∀ c ∈ (digits s).take k, c.isDigit = true := fun c hc => hd c (List.mem_of_mem_take hc)
  have hdrop (k : Nat) := isDigit_of_mem_dropZeros fun c hc => hd c (List.mem_of_mem_drop (i := k) hc)
  simp only [generalDigits, hs]
  split
  · change Decimal (['0'] ++ fraction [])
    exact .plain rfl hzero nofun
  · split
    · exact .scaled (isWhole_take s Nat.one_pos) (htake 1) (hdrop 1) x
    · split
      · change Decimal (['0'] ++ fraction _)
        refine .plain rfl hzero (isDigit_of_mem_dropZeros fun c hc => ?_)
        obtain hc | hc := List.mem_append.1 hc
        · rw [List.eq_of_mem_replicate hc]
          rfl
        · exact hd c hc
      · exact .plain (isWhole_take s (Nat.succ_pos _)) (htake _) (hdrop _)

/-- A finite double is a number. -/
theorem number?_general (p : Nat) (negative : Bool) (m : Nat) (e : Int) {rest : List Char} (h : Follows rest) :
    ∃ c x, number? ((general p (.finite negative m e)).toList ++ rest) = some (.number c x, rest) := by
  have htext : (general p (.finite negative m e)).toList = (if negative then ['-'] else []) ++ generalDigits p m e := by
    rw [general, withSign, String.toList_ofList]
    cases negative <;> rfl
  rw [htext, List.append_assoc]
  exact number?_decimal negative (decimal_generalDigits p m e) h

end Numbers

/-! ### Values -/

section Values

open RunResults

variable {γ : Type}

/-- An array of what stands for each of some items, in their order. -/
def IsArrayOf (right : γ → Json → Prop) (l : List γ) (j : Json) : Prop :=
  ∃ js, j = .array js ∧ List.Forall₂ right l js

/-- An object with the names of some entries, in their order, and what stands for the value of each. -/
def IsObjectOf (right : γ → Json → Prop) (l : List (String × γ)) (j : Json) : Prop :=
  ∃ ms, j = .object ms ∧ List.Forall₂ (fun e m => m.1 = e.1 ∧ right e.2 m.2) l ms

/-- Strings of which every character is escaped or may stand for itself. -/
def Legible (s : String) : Prop := ∀ c ∈ s.toList, Printable c

theorem toList_quoted (s : String) : (quoted s).toList = '\x22' :: (s.toList.flatMap escapeChar ++ ['\x22']) := by
  rw [quoted, String.toList_ofList, List.cons_append]

theorem quoted_append (s : String) (rest : List Char) :
    (quoted s).toList ++ rest = '\x22' :: (s.toList.flatMap escapeChar ++ '\x22' :: rest) := by
  rw [toList_quoted, List.cons_append, List.append_assoc, List.singleton_append]

theorem value_quote (depth : Nat) (cs : List Char) : value (depth + 1) ('\x22' :: cs) =
    (characters cs).map fun p => (string (String.ofList p.1), p.2) := rfl

theorem value_bracket (depth : Nat) (cs : List Char) : value (depth + 1) ('[' :: cs) =
    (enclosed (value depth) ']' cs).map fun p => (array p.1, p.2) := rfl

theorem value_brace (depth : Nat) (cs : List Char) : value (depth + 1) ('\x7b' :: cs) =
    (enclosed (member (value depth)) '\x7d' cs).map fun p => (object p.1, p.2) := rfl

theorem value_string (depth : Nat) (s : String) (rest : List Char) :
    Takes (value (depth + 1) ((quoted s).toList ++ rest)) (Legible s) (· = string s) rest := by
  rw [quoted_append, value_quote]
  refine (characters_takes s.toList rest).map (f := fun cs => string (String.ofList cs)) fun cs hcs => ?_
  rw [hcs, String.ofList_toList]

/-- A number starts with a sign or with a digit. -/
theorem exists_cons_of_number? {cs rest : List Char} {j : Json} (h : number? cs = some (j, rest)) :
    ∃ c r, cs = c :: r ∧ (c = '-' ∨ c.isDigit = true) := by
  cases cs with
  | nil => cases h
  | cons c r =>
    refine ⟨c, r, rfl, ?_⟩
    by_contra hc
    rw [not_or, Bool.not_eq_true] at hc
    have hsign : ((c :: r).head? == some '-') = false := by simpa using hc.1
    have hdigits : (c :: r).takeWhile Char.isDigit = [] := List.takeWhile_cons_of_neg (by simp [hc.2])
    simp only [number?, hsign, Bool.false_eq_true, if_false, hdigits] at h
    cases h

theorem value_number (depth : Nat) {cs rest : List Char} {j : Json} (h : number? cs = some (j, rest)) :
    value (depth + 1) cs = some (j, rest) := by
  obtain ⟨c, r, rfl, hc⟩ := exists_cons_of_number? h
  have hne (d : Char) (hd : ¬ (d = '-' ∨ d.isDigit = true)) : c ≠ d := fun hcd => hd (hcd ▸ hc)
  have hspace : isSpace c = false := by
    simp [isSpace, hne ' ' (by decide), hne '\t' (by decide), hne '\n' (by decide), hne '\r' (by decide)]
  have hname : name? (c :: r) = none := by
    simp [name?, List.isPrefixOf, (hne 'n' (by decide)).symm, (hne 't' (by decide)).symm, (hne 'f' (by decide)).symm]
  have hquote := hne '\x22' (by decide)
  have hbracket := hne '[' (by decide)
  have hbrace := hne '\x7b' (by decide)
  rw [value, skip_cons hspace]
  split
  · next heq => exact absurd (List.cons.inj heq).1 hquote
  · next heq => exact absurd (List.cons.inj heq).1 hbracket
  · next heq => exact absurd (List.cons.inj heq).1 hbrace
  · rw [hname, Option.none_or, h]

theorem member_takes {f : List Char → Option (Json × List Char)} {cs rest : List Char} {good : Prop}
    {right : Json → Prop} (s : String) (h : Takes (f (cs ++ rest)) good right rest) :
    Takes (member f ((quoted s).toList ++ ':' :: cs ++ rest)) (Legible s ∧ good)
      (fun m => m.1 = s ∧ right m.2) rest := by
  rw [List.append_assoc, quoted_append]
  refine (characters_takes s.toList (':' :: (cs ++ rest))).bind fun name hname => ?_
  exact h.map fun j hj => ⟨hname ▸ String.ofList_toList, hj⟩

variable (text : γ → List Char) (good : γ → Prop) (right : γ → Json → Prop) {depth : Nat}

theorem value_array {l : List γ} (hbegins : ∀ b ∈ l, Begins ']' (text b))
    (h : ∀ b ∈ l, ∀ rest, Follows rest → Takes (value depth (text b ++ rest)) (good b) (right b) rest)
    (rest : List Char) : Takes (value (depth + 1) ('[' :: ([','].intercalate (l.map text) ++ ']' :: rest)))
      (∀ b ∈ l, good b) (IsArrayOf right l) rest := by
  rw [value_bracket]
  exact (enclosed_takes (.inl rfl) h hbegins rest).map fun js hjs => ⟨js, rfl, hjs⟩

theorem value_object {l : List (String × γ)}
    (h : ∀ e ∈ l, ∀ rest, Follows rest → Takes (value depth (text e.2 ++ rest)) (good e.2) (right e.2) rest)
    (rest : List Char) : Takes (value (depth + 1) ('\x7b' ::
      ([','].intercalate (l.map fun e => (quoted e.1).toList ++ ':' :: text e.2) ++ '\x7d' :: rest)))
      (∀ e ∈ l, Legible e.1 ∧ good e.2) (IsObjectOf right l) rest := by
  have hbegins : ∀ e ∈ l, Begins '\x7d' ((quoted e.1).toList ++ ':' :: text e.2) := fun e _ =>
    ⟨'\x22', _, quoted_append _ _, rfl, by decide⟩
  have hmember : ∀ e ∈ l, ∀ rest, Follows rest → Takes (member (value depth)
      ((quoted e.1).toList ++ ':' :: text e.2 ++ rest)) (Legible e.1 ∧ good e.2)
      (fun m => m.1 = e.1 ∧ right e.2 m.2) rest := fun e he rest hrest => member_takes e.1 (h e he rest hrest)
  rw [value_brace]
  exact (enclosed_takes (.inr rfl) hmember hbegins rest).map fun ms hms => ⟨ms, rfl, hms⟩

end Values

end Json

end QuantumNode
