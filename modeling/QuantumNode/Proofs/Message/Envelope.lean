import QuantumNode.Message.Envelope
import QuantumNode.Proofs.Text.Numeral

/-! Envelopes as text. The length in front of the first colon says where the header ends, so what the header and the
payload are made of does not matter: envelopes are read back as they were, and no two of them are written alike. -/
namespace QuantumNode.Envelope

open Text

/-- A text with the tag, cut at the first colon behind it. -/
structure Framed (text : String) (number body : List Char) : Prop where
  toList : text.toList = tag ++ (number ++ ':' :: body)
  colon : ':' ∉ number

/-- Where the body of a text starts. -/
def bodyStart (number : List Char) : Nat := tag.length + number.length + 1

variable {text : String} {number body : List Char} {e : Envelope}

namespace Framed

theorem length_eq (h : Framed text number body) : text.toList.length = bodyStart number + body.length := by
  rw [h.toList]
  simp only [bodyStart, List.length_append, List.length_cons]
  omega

theorem drop_bodyStart (h : Framed text number body) (k : Nat) : text.toList.drop (bodyStart number + k) = body.drop k := by
  have hsplit : tag ++ (number ++ ':' :: body) = (tag ++ number ++ [':']) ++ body := by simp
  have hlength : bodyStart number = (tag ++ number ++ [':']).length := by
    simp only [bodyStart, List.length_append, List.length_singleton]
  rw [h.toList, hsplit, hlength, List.drop_length_add_append]

/-- The length that is read decides where the text is split. -/
theorem decode_eq (h : Framed text number body) {n : Nat} {rest : List Char}
    (hn : leadingNat64? number = some (n, rest)) : decode text = split text.toList (bodyStart number) n := by
  have htag : tag.isPrefixOf text.toList = true := by
    rw [h.toList, List.isPrefixOf_iff_prefix]
    exact List.prefix_append _ _
  have hcut : cutAt ':' (text.toList.drop tag.length) = some (number, body) := by
    rw [h.toList, List.drop_left, cutAt_append h.colon]
  simp only [decode, htag, Bool.not_true, Bool.false_eq_true, if_false, hcut, hn]
  rfl

/-- A length that leaves the offset behind the header in a word splits the body, if the body is long enough. -/
theorem split_of_lt (h : Framed text number body) {n : Nat} (hn : bodyStart number + n < Word.size64) :
    split text.toList (bodyStart number) n =
      if body.length < n then .error .envelopeTruncated
      else .ok ⟨String.ofList (body.take n), String.ofList (body.drop n)⟩ := by
  have hstart := h.drop_bodyStart 0
  rw [Nat.add_zero, List.drop_zero] at hstart
  simp only [split, Nat.mod_eq_of_lt hn, hstart, h.drop_bodyStart, h.length_eq, Nat.add_lt_add_iff_left]

/-- A longer one makes the offset wrap around: all of the body is the header, and the payload starts wherever that
offset is in the text. -/
theorem split_of_le (h : Framed text number body) {n : Nat} (htext : text.length < Word.size64)
    (hword : n < Word.size64) (hn : Word.size64 ≤ bodyStart number + n) :
    split text.toList (bodyStart number) n =
      if text.length < bodyStart number + n - Word.size64 then .error .envelopeTruncated
      else .ok ⟨String.ofList body, String.ofList (text.toList.drop (bodyStart number + n - Word.size64))⟩ := by
  have hlength := h.length_eq
  rw [String.length_toList] at hlength
  have hstart := h.drop_bodyStart 0
  rw [Nat.add_zero, List.drop_zero] at hstart
  have hstop : (bodyStart number + n) % Word.size64 = bodyStart number + n - Word.size64 := by
    rw [Nat.mod_eq_sub_mod hn, Nat.mod_eq_of_lt (by omega)]
  have hall : body.take n = body := List.take_of_length_le (by omega)
  simp only [split, hstop, hstart, hall, String.length_toList]

/-- A text is cut in one way only. -/
theorem unique {number' body' : List Char} (h : Framed text number body) (h' : Framed text number' body') :
    number = number' ∧ body = body' := by
  have hsame : number ++ ':' :: body = number' ++ ':' :: body' := List.append_cancel_left (h.toList.symm.trans h'.toList)
  have hcut := cutAt_append h.colon body
  rw [hsame, cutAt_append h'.colon] at hcut
  cases hcut
  exact ⟨rfl, rfl⟩

end Framed

/-- Texts that are accepted have the tag and the number of a length. -/
theorem framed_of_decode (h : decode text = .ok e) : ∃ number body n rest,
    Framed text number body ∧ leadingNat64? number = some (n, rest) := by
  unfold decode at h
  simp only at h
  split at h
  · exact nomatch h
  · next htag =>
    obtain ⟨r, hr⟩ : tag <+: text.toList := by simpa [List.isPrefixOf_iff_prefix] using htag
    split at h
    · exact nomatch h
    · next number body hcut =>
      rw [← hr, List.drop_left, cutAt_eq_some] at hcut
      split at h
      · exact nomatch h
      · next n rest hn =>
        exact ⟨number, body, n, rest, ⟨by rw [← hr, hcut.1], hcut.2⟩, hn⟩

/-- Where an accepted text is split: behind a header of the length that was read, if the offset of the payload is a word,
so that nothing is lost and nothing is there twice. From there on the number is longer than any header, and the payload
is a part of the text that may start anywhere, in the header as well as in front of it. -/
theorem accepted_texts_are_split (htext : text.length < Word.size64) (h : decode text = .ok e) :
    ∃ number body n rest, Framed text number body ∧ leadingNat64? number = some (n, rest) ∧
      (bodyStart number + n < Word.size64 → e.header.length = n ∧ body = e.header.toList ++ e.payload.toList) ∧
      (Word.size64 ≤ bodyStart number + n →
        e.header.toList = body ∧ e.payload.toList = text.toList.drop (bodyStart number + n - Word.size64)) := by
  obtain ⟨number, body, n, rest, hframe, hn⟩ := framed_of_decode h
  rw [hframe.decode_eq hn] at h
  refine ⟨number, body, n, rest, hframe, hn, fun hlt => ?_, fun hle => ?_⟩
  · rw [hframe.split_of_lt hlt] at h
    split at h
    · exact nomatch h
    · cases h
      simp only [String.toList_ofList, String.length_ofList, List.length_take, List.take_append_drop, and_true]
      omega
  · rw [hframe.split_of_le htext (lt_of_leadingNat64? hn) hle] at h
    split at h
    · exact nomatch h
    · cases h
      exact ⟨String.toList_ofList, String.toList_ofList⟩

/-- The colon in front of the body is taken for a part of the payload. -/
example : decode "#STRUCT 18446744073709551615:ab" = .ok ⟨"ab", ":ab"⟩ := by decide +kernel

/-! ### What is written -/

theorem framed_encode (e : Envelope) :
    Framed e.encode (toString e.header.length).toList (e.header.toList ++ e.payload.toList) where
  toList := by
    have htext : e.encode = "#STRUCT " ++ toString e.header.length ++ ":" ++ e.header ++ e.payload := rfl
    rw [htext]
    simp only [String.toList_append, List.append_assoc]
    rfl
  colon h := by
    rw [toList_toString_nat] at h
    exact absurd (isDigit_of_mem_toDigits h) (by decide)

theorem leadingNat64?_header {e : Envelope} (h : e.header.length < Word.size64) :
    leadingNat64? (toString e.header.length).toList = some (e.header.length, []) := by
  have hread := leadingNat64?_toString (b := []) (r := []) nofun endsNumber_nil h
  rwa [List.nil_append, List.append_nil] at hread

/-- Envelopes whose text has a length that fits a word, as every text in memory has. -/
def Sized (e : Envelope) : Prop := e.encode.length < Word.size64

theorem Sized.decode_encode (h : e.Sized) : decode e.encode = .ok e := by
  have hlength : e.encode.length =
      bodyStart (toString e.header.length).toList + (e.header.toList ++ e.payload.toList).length := by
    rw [← e.framed_encode.length_eq, String.length_toList]
  rw [Sized, hlength, List.length_append, String.length_toList] at h
  have hfits : ¬ (e.header.toList ++ e.payload.toList).length < e.header.length := by
    simp only [List.length_append, String.length_toList]
    omega
  rw [e.framed_encode.decode_eq (leadingNat64?_header (by omega)), e.framed_encode.split_of_lt (by omega),
    if_neg hfits, ← String.length_toList, List.take_left, List.drop_left, String.ofList_toList, String.ofList_toList]

/-- The number in front of the first colon is the length of the header, so the header ends where it ended. -/
theorem eq_of_encode_eq {e e' : Envelope} (h : e.encode = e'.encode) : e = e' := by
  obtain ⟨hnumber, hbody⟩ := (h ▸ e.framed_encode).unique e'.framed_encode
  have hlength : e.header.toList.length = e'.header.toList.length := by
    rw [toList_toString_nat, toList_toString_nat] at hnumber
    rw [String.length_toList, String.length_toList, ← natOfDigits_toDigits e.header.length, hnumber,
      natOfDigits_toDigits]
  obtain ⟨hheader, hpayload⟩ := List.append_inj hbody hlength
  obtain ⟨header, payload⟩ := e
  obtain ⟨header', payload'⟩ := e'
  exact congrArg₂ mk (String.toList_inj.1 hheader) (String.toList_inj.1 hpayload)

/-- Envelopes survive the wire, whatever their header and their payload are made of: each is read back from its text,
and no two have the same text. -/
theorem envelopes_survive_the_wire :
    (∀ e : Envelope, e.Sized → decode e.encode = .ok e) ∧ ∀ e e' : Envelope, e.encode = e'.encode → e = e' :=
  ⟨fun _ => Sized.decode_encode, fun _ _ => eq_of_encode_eq⟩

/-- A header that starts like the rest of a length and holds a line feed, a NUL and an octet that is no text, with an
envelope for its payload. -/
theorem envelopes_survive_the_wire_nested :
    let e : Envelope := ⟨"3:#STRUCT 2:\n\x00\xff", (⟨":", "0:"⟩ : Envelope).encode⟩
    e.Sized ∧ decode e.encode = .ok e := by
  intro e
  have h : e.Sized := by
    rw [Sized]
    decide +kernel
  exact ⟨h, envelopes_survive_the_wire.1 e h⟩

end QuantumNode.Envelope
