import QuantumNode.Proofs.Number.Word
import QuantumNode.Proofs.Text.Basic

/-! Numbers at the front of a text. The lenient readers give back an integer that was written after blanks, and what
follows it, as long as no digit does. -/
namespace QuantumNode.Text

/-- Texts before which a number ends: empty ones and those that start with no digit. -/
def EndsNumber (r : List Char) : Prop := ∀ c ∈ r.head?, c.isDigit = false

theorem endsNumber_of_endsWord {r : List Char} (h : EndsWord r) : EndsNumber r := fun c hc =>
  Bool.eq_false_iff.2 fun hd => absurd (h c hc) (by simp [isBlank_of_isDigit hd])

theorem endsNumber_nil : EndsNumber [] := nofun

theorem isWord_toString (v : Int) : IsWord (toString v).toList where
  ne_nil := toString_int_ne_nil v
  solid c hc := by
    obtain rfl | hd := sign_or_digit_of_mem_toString hc
    · decide
    · exact isBlank_of_isDigit hd

theorem isWord_toString_nat (n : Nat) : IsWord (toString n).toList := isWord_toString (n : Int)

/-- A number starts with no blank and no sign but its own. -/
theorem head?_toDigits (n : Nat) (r : List Char) :
    ∃ c, (Nat.toDigits 10 n ++ r).head? = some c ∧ c.isDigit = true := by
  obtain ⟨c, cs, h⟩ := List.exists_cons_of_ne_nil (Nat.toDigits_ne_nil (b := 10) (n := n))
  exact ⟨c, by rw [h]; rfl, isDigit_of_mem_toDigits (n := n) (h ▸ List.mem_cons_self)⟩

/-- A number after blanks is taken apart into its sign, its digits and what follows. -/
theorem numeral?_toString {v : Int} {b r : List Char} (hb : ∀ c ∈ b, isBlank c = true) (hr : EndsNumber r) :
    numeral? (b ++ ((toString v).toList ++ r)) = some ⟨decide (v < 0), v.natAbs, r⟩ := by
  have hdigits (n : Nat) : ∀ c ∈ Nat.toDigits 10 n, c.isDigit = true := fun c => isDigit_of_mem_toDigits
  rw [toList_toString_int]
  split
  · next hv =>
    obtain ⟨c, hc, hd⟩ := head?_toDigits v.toNat r
    have hne : ∀ s : Char, s.isDigit = false → (some c == some s) = false := fun s hs => by
      rw [beq_eq_false_iff_ne]
      rintro ⟨rfl⟩
      exact absurd hd (by simp [hs])
    have hdrop : (b ++ (Nat.toDigits 10 v.toNat ++ r)).dropWhile isBlank = Nat.toDigits 10 v.toNat ++ r :=
      dropWhile_run hb fun d h => by
        rw [hc] at h
        cases h
        exact isBlank_of_isDigit hd
    simp only [numeral?, hdrop, hc, hne '-' (by decide), hne '+' (by decide), Bool.or_self, Bool.false_eq_true,
      if_false, takeWhile_run (hdigits _) hr, dropWhile_run (hdigits _) hr, natOfDigits_toDigits, List.isEmpty_iff,
      Nat.toDigits_ne_nil]
    rw [decide_eq_false (by omega), show v.natAbs = v.toNat by omega]
  · next hv =>
    have hdrop : (b ++ '-' :: (Nat.toDigits 10 (-v).toNat ++ r)).dropWhile isBlank =
        '-' :: (Nat.toDigits 10 (-v).toNat ++ r) :=
      dropWhile_run hb fun d h => by
        cases h
        decide
    rw [List.cons_append]
    simp only [numeral?, hdrop, List.head?_cons, BEq.rfl, Bool.true_or, if_true, List.drop_succ_cons,
      List.drop_zero, takeWhile_run (hdigits _) hr, dropWhile_run (hdigits _) hr, natOfDigits_toDigits, List.isEmpty_iff,
      Nat.toDigits_ne_nil, if_false]
    rw [decide_eq_true (by omega), show v.natAbs = (-v).toNat by omega]

private theorem signed_natAbs (v : Int) : signed (decide (v < 0)) v.natAbs = v := by
  unfold signed
  split
  · next h => have := of_decide_eq_true h; omega
  · next h => have := of_decide_eq_false (Bool.eq_false_iff.2 h); omega

section Lenient

variable {b r : List Char} (hb : ∀ c ∈ b, isBlank c = true) (hr : EndsNumber r)
include hb hr

theorem leadingInt64?_toString {v : Int} (h : Word.fitsSigned64 v = true) :
    leadingInt64? (b ++ ((toString v).toList ++ r)) = some (v, r) := by
  rw [leadingInt64?, numeral?_toString hb hr]
  simp [signed_natAbs, h]

theorem leadingInt32?_toString {v : Int} (h : Word.fitsSigned32 v = true) :
    leadingInt32? (b ++ ((toString v).toList ++ r)) = some (v, r) := by
  rw [leadingInt32?, numeral?_toString hb hr]
  simp [signed_natAbs, h]

theorem leadingNat64?_toString {n : Nat} (h : n < Word.size64) :
    leadingNat64? (b ++ ((toString n).toList ++ r)) = some (n, r) := by
  have hn : (toString n).toList = (toString (n : Int)).toList := rfl
  have h0 : ¬ (n : Int) < 0 := by omega
  rw [hn, leadingNat64?, numeral?_toString hb hr]
  simp [h, h0]

end Lenient

/-! ### The first of several fields, with a space before each -/

section Fields

variable (ws : List (List Char))

private theorem blank_space : ∀ c ∈ [' '], isBlank c = true := List.forall_mem_singleton.2 rfl

theorem leadingInt64?_flatMap {v : Int} (h : Word.fitsSigned64 v = true) :
    leadingInt64? (((toString v).toList :: ws).flatMap (' ' :: ·)) = some (v, ws.flatMap (' ' :: ·)) :=
  leadingInt64?_toString blank_space (endsNumber_of_endsWord (endsWord_flatMap ws)) h

theorem leadingInt32?_flatMap {v : Int} (h : Word.fitsSigned32 v = true) :
    leadingInt32? (((toString v).toList :: ws).flatMap (' ' :: ·)) = some (v, ws.flatMap (' ' :: ·)) :=
  leadingInt32?_toString blank_space (endsNumber_of_endsWord (endsWord_flatMap ws)) h

theorem leadingNat64?_flatMap {n : Nat} (h : n < Word.size64) :
    leadingNat64? (((toString n).toList :: ws).flatMap (' ' :: ·)) = some (n, ws.flatMap (' ' :: ·)) :=
  leadingNat64?_toString blank_space (endsNumber_of_endsWord (endsWord_flatMap ws)) h

end Fields

/-! ### What is read fits its word -/

section Range

variable {cs r : List Char}

theorem fits_of_leadingInt64? {v : Int} (h : leadingInt64? cs = some (v, r)) : Word.fitsSigned64 v = true := by
  obtain ⟨n, -, h⟩ := Option.bind_eq_some_iff.1 h
  obtain ⟨hv, h⟩ := Option.ite_none_right_eq_some.1 h
  cases h
  exact hv

theorem fits_of_leadingInt32? {v : Int} (h : leadingInt32? cs = some (v, r)) : Word.fitsSigned32 v = true := by
  obtain ⟨n, -, h⟩ := Option.bind_eq_some_iff.1 h
  obtain ⟨hv, h⟩ := Option.ite_none_right_eq_some.1 h
  cases h
  exact hv

theorem lt_of_leadingNat64? {n : Nat} (h : leadingNat64? cs = some (n, r)) : n < Word.size64 := by
  obtain ⟨m, -, h⟩ := Option.bind_eq_some_iff.1 h
  obtain ⟨hm, h⟩ := Option.ite_none_right_eq_some.1 h
  cases h
  split
  · exact Nat.mod_lt _ (by decide)
  · exact hm

end Range

end QuantumNode.Text
