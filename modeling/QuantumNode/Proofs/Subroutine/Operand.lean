import QuantumNode.Subroutine.Printer
import QuantumNode.Proofs.Number.Word
import QuantumNode.Proofs.Subroutine.Signature
import QuantumNode.Proofs.Text.Basic

/-! Operands as words: those that can be written down are read back, and only such operands are read. -/
namespace QuantumNode

open Text

/-- Registers that exist. -/
def Register.Legible (r : Register) : Prop := 0 ≤ r.index ∧ r.index < perGroup

theorem Register.slot?_of_legible {r : Register} (h : r.Legible) : ∃ i, r.slot? = some i :=
  ⟨_, dif_pos h⟩

def Value.Legible : Value → Prop
  | literal v => Word.fitsSigned64 v = true
  | register r => r.Legible

/-- Addresses have no sign. -/
def LegibleAddress (a : Int) : Prop := 0 ≤ a ∧ Word.fitsSigned64 a = true

def Operand.Legible : Operand → Prop
  | immediate v => Word.fitsSigned64 v = true
  | register r => r.Legible
  | address a => LegibleAddress a
  | entry e => LegibleAddress e.address ∧ e.index.Legible
  | slice s => LegibleAddress s.address ∧ s.start.Legible ∧ s.stop.Legible

theorem Operand.legible_operand {v : Value} : v.operand.Legible ↔ v.Legible := by cases v <;> rfl

def Instruction.Legible (i : Instruction) : Prop := ∀ o ∈ i.operands, o.Legible

/-! ### What is read was legible -/

theorem Register.legible_of_parse? {cs : List Char} {r : Register} (h : parse? cs = some r) : r.Legible := by
  unfold parse? at h
  split at h
  · split at h
    · obtain ⟨hi, h⟩ := Option.ite_none_right_eq_some.1 h
      cases h
      exact hi
    · exact nomatch h
  · exact nomatch h

theorem Value.legible_of_parse? {cs : List Char} {v : Value} (h : parse? cs = some v) : v.Legible := by
  unfold parse? at h
  split at h
  · next r hr =>
    cases h
    exact Register.legible_of_parse? hr
  · obtain ⟨i, hi, rfl⟩ := Option.map_eq_some_iff.1 h
    exact fits_of_int64? hi

namespace Subroutine

theorem legible_of_address? {cs r : List Char} {a : Int} (h : address? cs = some (a, r)) : LegibleAddress a := by
  unfold address? at h
  split at h
  · obtain ⟨b, hb, he⟩ := Option.map_eq_some_iff.1 h
    cases he
    exact ⟨nonneg_of_int64? hb fun c hc => List.mem_takeWhile_imp hc, fits_of_int64? hb⟩
  · exact nomatch h

theorem legible_of_element? {cs : List Char} {e : ArrayEntry} (h : element? cs = some e) :
    LegibleAddress e.address ∧ e.index.Legible := by
  simp only [element?, Option.bind_eq_bind, Option.bind_eq_some_iff] at h
  obtain ⟨⟨a, r⟩, ha, inner, -, h⟩ := h
  obtain ⟨-, h⟩ := Option.ite_none_left_eq_some.1 h
  obtain ⟨v, hv, h⟩ := Option.bind_eq_some_iff.1 h
  cases h
  exact ⟨legible_of_address? ha, Value.legible_of_parse? hv⟩

theorem legible_of_slice? {cs : List Char} {s : ArraySlice} (h : slice? cs = some s) :
    LegibleAddress s.address ∧ s.start.Legible ∧ s.stop.Legible := by
  simp only [slice?, Option.bind_eq_bind, Option.bind_eq_some_iff] at h
  obtain ⟨⟨a, r⟩, ha, inner, -, ⟨b, c⟩, -, v, hv, w, hw, h⟩ := h
  cases h
  exact ⟨legible_of_address? ha, Value.legible_of_parse? hv, Value.legible_of_parse? hw⟩

theorem fits_of_target? {l : Layout} {cs : List Char} {v : Int} (h : target? l cs = some v) :
    Word.fitsSigned64 v = true := by
  unfold target? at h
  split at h
  · next w hw =>
    cases h
    exact fits_of_int64? hw
  · obtain ⟨n, -, rfl⟩ := Option.map_eq_some_iff.1 h
    exact Word.fitsSigned64_signed64 n

/-- A word is read as an operand of the kind asked for. -/
theorem legible_of_operand? {l : Layout} {cs : List Char} {k : OperandKind} {o : Operand}
    (h : operand? l cs k = some o) : k.admits o = true ∧ o.Legible := by
  cases k with
  | register =>
    obtain ⟨r, hr, rfl⟩ := Option.map_eq_some_iff.1 h
    exact ⟨rfl, Register.legible_of_parse? hr⟩
  | immediate =>
    obtain ⟨v, hv, rfl⟩ := Option.map_eq_some_iff.1 h
    exact ⟨rfl, fits_of_int64? hv⟩
  | value =>
    obtain ⟨v, hv, rfl⟩ := Option.map_eq_some_iff.1 h
    exact ⟨OperandKind.admits_value.2 ⟨v, rfl⟩, Operand.legible_operand.2 (Value.legible_of_parse? hv)⟩
  | target =>
    obtain ⟨v, hv, rfl⟩ := Option.map_eq_some_iff.1 h
    exact ⟨rfl, fits_of_target? hv⟩
  | entry =>
    obtain ⟨e, he, rfl⟩ := Option.map_eq_some_iff.1 h
    exact ⟨rfl, legible_of_element? he⟩
  | slice =>
    obtain ⟨s, hs, rfl⟩ := Option.map_eq_some_iff.1 h
    exact ⟨rfl, legible_of_slice? hs⟩
  | address =>
    simp only [operand?] at h
    split at h
    · next a ha =>
      cases h
      exact ⟨rfl, legible_of_address? ha⟩
    · exact nomatch h

/-- No label starts with a digit. -/
theorem isLabelName_digit {c : Char} (h : c.isDigit = true) (cs : List Char) :
    Layout.isLabelName (c :: cs) = false := by
  have hne : c ≠ '_' := by
    rintro rfl
    exact nomatch h
  simp [Layout.isLabelName, isLetter_of_isDigit h, hne]

theorem isWordChar_of_isLabelName {cs : List Char} (h : Layout.isLabelName cs = true) :
    ∀ c ∈ cs, isWordChar c = true := by
  cases cs with
  | nil => exact nofun
  | cons c cs => exact List.all_eq_true.1 (Bool.and_eq_true_iff.1 h).2

end Subroutine

/-! ### What is legible is read back -/

namespace Text

/-- Characters of a word that neither end a line's words nor make the line a comment or a label. -/
def isPlain (c : Char) : Bool := !isBlank c && c != '#' && c != ':'

/-- Words that can stand in the line of an instruction, its end included. -/
structure IsToken (w : List Char) : Prop extends IsWord w where
  no_comment : '#' ∉ w
  no_label : w.getLast? ≠ some ':'

theorem isPlain_of_isDigit {c : Char} (h : c.isDigit = true) : isPlain c = true := by
  have hb : isBlank c = false := isBlank_of_isDigit h
  rw [Char.isDigit_iff_toNat] at h
  have hne (d : Char) (hd : d.toNat < 48 ∨ 57 < d.toNat) : c ≠ d := by
    rintro rfl
    simp at h
    omega
  simp [isPlain, hb, hne '#' (by decide), hne ':' (by decide)]

/-- Within a word only its last character has to differ from a colon. -/
theorem isToken_append {w : List Char} {d : Char} (hw : ∀ c ∈ w, isPlain c = true ∨ c = ':')
    (hd : isPlain d = true) : IsToken (w ++ [d]) := by
  have hall : ∀ c ∈ w ++ [d], isPlain c = true ∨ c = ':' := by
    intro c hc
    obtain hc | hc := List.mem_append.1 hc
    · exact hw c hc
    · rw [List.mem_singleton.1 hc]
      exact .inl hd
  refine ⟨⟨by simp, fun c hc => ?_⟩, fun hc => ?_, ?_⟩
  · obtain hc | rfl := hall c hc
    · simp only [isPlain, Bool.and_eq_true, Bool.not_eq_true'] at hc
      exact hc.1.1
    · decide
  · obtain hc | hc := hall _ hc
    · exact absurd hc (by decide)
    · exact absurd hc (by decide)
  · rw [List.getLast?_concat]
    rintro ⟨⟩
    exact absurd hd (by decide)

theorem isToken_of_isPlain {w : List Char} (hne : w ≠ []) (hw : ∀ c ∈ w, isPlain c = true) : IsToken w := by
  rw [← List.dropLast_concat_getLast hne]
  exact isToken_append (fun c hc => .inl (hw c (List.dropLast_subset _ hc))) (hw _ (List.getLast_mem hne))

theorem isToken_of_all {w : List Char} (hne : w ≠ []) (h : w.all isPlain = true) : IsToken w :=
  isToken_of_isPlain hne (List.all_eq_true.1 h)

theorem isPlain_of_mem_toString {v : Int} {c : Char} (h : c ∈ (toString v).toList) : isPlain c = true := by
  obtain rfl | h := sign_or_digit_of_mem_toString h
  · decide
  · exact isPlain_of_isDigit h

end Text

theorem Register.toList_text (r : Register) : r.text.toList = r.group.letter :: (toString r.index).toList := by
  simp [text]

theorem Value.isPlain_of_mem_text {v : Value} {c : Char} (h : c ∈ v.text.toList) : isPlain c = true := by
  cases v with
  | literal v => exact isPlain_of_mem_toString h
  | register r =>
    rw [text, Register.toList_text] at h
    obtain rfl | h := List.mem_cons.1 h
    · cases r.group <;> decide
    · exact isPlain_of_mem_toString h

theorem Value.text_ne_nil (v : Value) : v.text.toList ≠ [] := by
  cases v with
  | literal v => exact toString_int_ne_nil v
  | register r => simp [text, Register.toList_text]

/-- What an operand is written as is one word of a line. -/
theorem Operand.isToken_text (o : Operand) : IsToken o.text.toList := by
  have hat : isPlain '@' = true := by decide
  have hopen : isPlain '[' = true := by decide
  have hclose : isPlain ']' = true := by decide
  cases o with
  | immediate v => exact isToken_of_isPlain (Value.text_ne_nil (.literal v)) fun _ => isPlain_of_mem_toString
  | register r =>
    exact isToken_of_isPlain (Value.text_ne_nil (.register r)) fun _ => Value.isPlain_of_mem_text (v := .register r)
  | address a =>
    refine isToken_of_isPlain (by simp [text]) fun c hc => ?_
    obtain rfl | hc : c = '@' ∨ c ∈ (toString a).toList := by simpa [text] using hc
    · exact hat
    · exact isPlain_of_mem_toString hc
  | entry e =>
    have he : (Operand.entry e).text.toList =
        '@' :: (toString e.address).toList ++ '[' :: e.index.text.toList ++ [']'] := by simp [text]
    rw [he]
    refine isToken_append (fun c hc => .inl ?_) hclose
    simp only [List.cons_append, List.mem_cons, List.mem_append] at hc
    obtain rfl | hc | rfl | hc := hc
    · exact hat
    · exact isPlain_of_mem_toString hc
    · exact hopen
    · exact Value.isPlain_of_mem_text hc
  | slice s =>
    have he : (Operand.slice s).text.toList = '@' :: (toString s.address).toList ++ '[' :: s.start.text.toList ++
        ':' :: s.stop.text.toList ++ [']'] := by simp [text]
    rw [he]
    refine isToken_append (fun c hc => ?_) hclose
    simp only [List.cons_append, List.mem_cons, List.mem_append] at hc
    obtain rfl | (hc | rfl | hc) | rfl | hc := hc
    · exact .inl hat
    · exact .inl (isPlain_of_mem_toString hc)
    · exact .inl hopen
    · exact .inl (Value.isPlain_of_mem_text hc)
    · exact .inr rfl
    · exact .inl (Value.isPlain_of_mem_text hc)

theorem Register.parse?_text {r : Register} (h : r.Legible) : parse? r.text.toList = some r := by
  obtain ⟨h₀, h₁⟩ := h
  have hi : Word.fitsSigned64 r.index = true := by
    simp only [perGroup] at h₁
    simp [Word.fitsSigned64]
    omega
  rw [toList_text, parse?]
  simp only [RegisterGroup.ofLetter?_letter, int64?_toString hi, if_pos (And.intro h₀ h₁)]

/-- No integer is written like a register. -/
theorem Register.parse?_toString (v : Int) : parse? (toString v).toList = none := by
  obtain ⟨c, cs, hc⟩ := List.exists_cons_of_ne_nil (toString_int_ne_nil v)
  have hd : c = '-' ∨ c.isDigit = true := sign_or_digit_of_mem_toString (hc ▸ List.mem_cons_self ..)
  have hg : RegisterGroup.ofLetter? c = none := by
    unfold RegisterGroup.ofLetter?
    split
    case h_5 => rfl
    all_goals revert hd; decide
  rw [hc, parse?, hg]

theorem Value.parse?_text {v : Value} (h : v.Legible) : parse? v.text.toList = some v := by
  cases v with
  | literal v => rw [parse?, text, Register.parse?_toString, int64?_toString h]; rfl
  | register r => rw [parse?, text, Register.parse?_text h]

namespace Subroutine

theorem address?_append {a : Int} (h : LegibleAddress a) {r : List Char} (hr : ∀ c ∈ r.head?, c.isDigit = false) :
    address? ('@' :: (toString a).toList ++ r) = some (a, r) := by
  obtain ⟨h₀, h⟩ := h
  have hd : ∀ c ∈ (toString a).toList, c.isDigit = true := by
    rw [toList_toString_int, if_pos h₀]
    exact fun c => isDigit_of_mem_toDigits
  simp only [address?, List.cons_append, takeWhile_run hd hr, dropWhile_run hd hr, int64?_toString h, Option.map_some]

theorem bracketed?_append {w : List Char} (h : w ≠ []) : bracketed? ('[' :: w ++ [']']) = some w := by
  have hl : 2 ≤ (w ++ [']']).length := by
    have := List.length_pos_iff.2 h
    rw [List.length_append, List.length_singleton]
    omega
  simp only [bracketed?, List.cons_append, List.getLast?_concat, hl, and_self, if_true, List.dropLast_concat]

theorem not_colon_of_mem_text {v : Value} : ':' ∉ v.text.toList := fun h =>
  absurd (Value.isPlain_of_mem_text h) (by decide)

theorem element?_text {e : ArrayEntry} (h : (Operand.entry e).Legible) :
    element? (Operand.entry e).text.toList = some e := by
  obtain ⟨ha, hi⟩ := h
  have ht : (Operand.entry e).text.toList =
      '@' :: (toString e.address).toList ++ ('[' :: e.index.text.toList ++ [']']) := by
    simp [Operand.text]
  rw [element?, ht, address?_append ha (by simp)]
  simp only [Option.bind_eq_bind, Option.bind_some, bracketed?_append (Value.text_ne_nil _),
    if_neg not_colon_of_mem_text, Value.parse?_text hi]
  rfl

theorem slice?_text {s : ArraySlice} (h : (Operand.slice s).Legible) :
    slice? (Operand.slice s).text.toList = some s := by
  obtain ⟨ha, hi, hj⟩ := h
  have ht : (Operand.slice s).text.toList = '@' :: (toString s.address).toList ++
      ('[' :: (s.start.text.toList ++ ':' :: s.stop.text.toList) ++ [']']) := by
    simp [Operand.text]
  have hcut : cutAt ':' (s.start.text.toList ++ ':' :: s.stop.text.toList) =
      some (s.start.text.toList, s.stop.text.toList) := cutAt_append not_colon_of_mem_text _
  rw [slice?, ht, address?_append ha (by simp)]
  simp only [Option.bind_eq_bind, Option.bind_some, bracketed?_append (by simp : _ ++ _ :: _ ≠ []), hcut,
    Value.parse?_text hi, Value.parse?_text hj]
  rfl

/-- Operands of the kind asked for are read back, whatever the labels are. -/
theorem operand?_text (l : Layout) {k : OperandKind} {o : Operand} (hk : k.admits o = true) (h : o.Legible) :
    operand? l o.text.toList k = some o := by
  cases k with
  | register =>
    obtain ⟨r, rfl⟩ := OperandKind.admits_register.1 hk
    simp [operand?, Operand.text, Register.parse?_text h]
  | immediate =>
    obtain ⟨v, rfl⟩ := OperandKind.admits_immediate.1 hk
    simp only [operand?, Operand.text, int64?_toString h, Option.map_some]
  | value =>
    obtain ⟨v, rfl⟩ := OperandKind.admits_value.1 hk
    have ht : v.operand.text = v.text := by cases v <;> rfl
    simp [operand?, ht, Value.parse?_text (Operand.legible_operand.1 h)]
  | target =>
    obtain ⟨v, rfl⟩ := OperandKind.admits_target.1 hk
    simp only [operand?, target?, Operand.text, int64?_toString h, Option.map_some]
  | entry =>
    obtain ⟨e, rfl⟩ := OperandKind.admits_entry.1 hk
    simp [operand?, element?_text h]
  | slice =>
    obtain ⟨s, rfl⟩ := OperandKind.admits_slice.1 hk
    simp [operand?, slice?_text h]
  | address =>
    obtain ⟨a, rfl⟩ := OperandKind.admits_address.1 hk
    have ht : (Operand.address a).text.toList = '@' :: (toString a).toList ++ [] := by simp [Operand.text]
    simp only [operand?, ht, address?_append h (r := []) (by simp)]

end Subroutine

end QuantumNode
