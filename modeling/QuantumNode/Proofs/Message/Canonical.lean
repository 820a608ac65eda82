import QuantumNode.Proofs.Memory.Canonical
import QuantumNode.Proofs.Message.RoundTrip

/-! What texts are read as, and that writing it down settles its form. Readers pass over blanks, signs, leading zeros,
repeated lines and text behind numbers; what they make of a text has none of it left, so it is written as a text that is
read as the same message again. -/
namespace QuantumNode

open Text

theorem fits_of_appIdField? {cs : List Char} {id : Int} (h : appIdField? cs = some id) :
    Word.fitsSigned32 id = true := by
  obtain ⟨⟨i, r⟩, hread, h⟩ := Option.bind_eq_some_iff.1 h
  obtain ⟨-, h⟩ := Option.ite_none_right_eq_some.1 h
  cases h
  exact fits_of_leadingInt32? hread

theorem newline_not_mem_firstLine (cs : List Char) : '\n' ∉ (splitFirstLine cs).1 := by
  unfold splitFirstLine cutAt
  split
  · intro h
    simpa using List.mem_takeWhile_imp h
  · assumption

namespace HostMessage

theorem sized_of_initNewApp? {cs : List Char} {m : HostMessage} (h : initNewApp? cs = some m) : m.Sized := by
  obtain ⟨⟨n, r⟩, hread, h⟩ := Option.bind_eq_some_iff.1 h
  obtain ⟨-, h⟩ := Option.ite_none_right_eq_some.1 h
  cases h
  exact lt_of_leadingNat64? hread

theorem sized_of_openSocket? {cs : List Char} {m : HostMessage} (h : openSocket? cs = some m) : m.Sized := by
  obtain ⟨⟨app, r₁⟩, happ, h⟩ := Option.bind_eq_some_iff.1 h
  obtain ⟨⟨socket, r₂⟩, hsocket, h⟩ := Option.bind_eq_some_iff.1 h
  obtain ⟨⟨remote, r₃⟩, hremote, h⟩ := Option.bind_eq_some_iff.1 h
  obtain ⟨-, h⟩ := Option.ite_none_right_eq_some.1 h
  cases h
  exact ⟨fits_of_leadingInt32? happ, fits_of_leadingInt32? hsocket, fits_of_leadingInt32? hremote⟩

private theorem eq_some_of_elim {m? : Option HostMessage} {e : MessageError} {m : HostMessage}
    (h : m?.elim (.error e) .ok = (.ok m : Except MessageError HostMessage)) : m? = some m := by
  cases m? with
  | none => exact nomatch h
  | some _ =>
    cases h
    rfl

/-- The numbers of a message that was read fit their words. -/
theorem sized_of_decode {text : String} {m : HostMessage} (h : decode text = .ok m) : m.Sized := by
  unfold decode at h
  simp only at h
  split at h
  · exact sized_of_initNewApp? (eq_some_of_elim h)
  · split at h
    · exact sized_of_openSocket? (eq_some_of_elim h)
    · split at h
      · cases h
        trivial
      · split at h
        · obtain ⟨id, hid, rfl⟩ := Option.map_eq_some_iff.1 (eq_some_of_elim h)
          exact fits_of_appIdField? hid
        · exact nomatch h

end HostMessage

namespace NodeMessage

/-- Messages in the form in which they are read: numbers fit their words, snapshots are settled, and the reason of an
abort is one line that does not start with a blank. -/
def Settled : NodeMessage → Prop
  | appId id => Word.fitsSigned32 id = true
  | memory s => Word.fitsSigned32 s.appId = true ∧ s.Settled
  | abort reason => '\n' ∉ reason.toList ∧ ∀ c ∈ reason.toList.head?, isBlank c = false

theorem Settled.decode_encode {m : NodeMessage} (h : m.Settled) : decode m.encode = .ok m := by
  cases m with
  | appId id => exact decode_appId h
  | memory s =>
    rw [decode_memory h.1, h.2.parse_text]
    rfl
  | abort reason => exact decode_abort h.1 h.2

theorem settled_abort {head : List Char} (h : '\n' ∉ head) :
    (abort (String.ofList ((nextWord head).2.dropWhile isBlank))).Settled := by
  have hsuffix : (nextWord head).2.dropWhile isBlank <:+ head :=
    (List.dropWhile_suffix _).trans ⟨_, by rw [List.append_assoc, nextWord_eq]⟩
  refine ⟨fun hc => ?_, fun c hc => ?_⟩
  · rw [String.toList_ofList] at hc
    exact h (hsuffix.mem hc)
  · rw [String.toList_ofList] at hc
    have hhead := List.head?_dropWhile_not isBlank (nextWord head).2
    rw [Option.mem_def] at hc
    rw [hc] at hhead
    simpa using hhead

theorem settled_of_decode {text : String} {m : NodeMessage} (h : decode text = .ok m) : m.Settled := by
  unfold decode at h
  simp only at h
  split at h
  · split at h
    · next hid =>
      cases h
      exact fits_of_appIdField? hid
    · exact nomatch h
  · split at h
    · split at h
      · next id hid =>
        cases hs : MemorySnapshot.parse id (splitFirstLine text.toList).2 with
        | error e =>
          rw [hs] at h
          exact nomatch h
        | ok s =>
          rw [hs] at h
          cases h
          obtain ⟨rfl, hsettled⟩ := MemorySnapshot.settled_of_parse hs
          exact ⟨fits_of_appIdField? hid, hsettled⟩
      · exact nomatch h
    · split at h
      · cases h
        exact settled_abort (newline_not_mem_firstLine _)
      · exact nomatch h

end NodeMessage

/-- Reading brings every message to a form of its own, once and for all: whatever text a message was read from, the text
that it is written as is accepted, and is read as the same message. -/
theorem reading_settles_the_text :
    (∀ (text : String) (m : HostMessage), HostMessage.decode text = .ok m → HostMessage.decode m.encode = .ok m) ∧
    ∀ (text : String) (m : NodeMessage), NodeMessage.decode text = .ok m → NodeMessage.decode m.encode = .ok m :=
  ⟨fun _ _ h => HostMessage.decode_encode (HostMessage.sized_of_decode h),
    fun _ _ h => (NodeMessage.settled_of_decode h).decode_encode⟩

/-- A request whose numbers have signs and zeros in front, and an answer with a register named twice, an array that is
given again with other entries, text behind numbers, a number below zero for a physical qubit, and qubits out of order. -/
theorem reading_settles_untidy_texts :
    let request := "\t OPEN_EPR_SOCKET  +007 -0\t-2147483648 \nno more is read"
    let answer := "APP_MEMORY  +3\nREG R007 +5x\nREG R7 -6\nARRAY -02 _ 1\nQUBIT 2 -1 and so on\n\nARRAY -2_ 12x +4\n" ++
      "QUBIT -18446744073709551615 00"
    let memory : MemorySnapshot := ⟨3, [(⟨.R, 7⟩, 5), (⟨.R, 7⟩, -6)], ⟨[(-2, #[none, some 12, some 4])]⟩,
      #[none, some 0, some 18446744073709551615]⟩
    (HostMessage.decode request = .ok (.openSocket 7 0 (-2147483648)) ∧
      HostMessage.decode (HostMessage.openSocket 7 0 (-2147483648)).encode = .ok (.openSocket 7 0 (-2147483648))) ∧
    (NodeMessage.decode answer = .ok (.memory memory) ∧ (NodeMessage.memory memory).encode ≠ answer ∧
      NodeMessage.decode (NodeMessage.memory memory).encode = .ok (.memory memory)) := by
  intro request answer memory
  obtain ⟨host, node⟩ := reading_settles_the_text
  have hrequest : HostMessage.decode request = .ok (.openSocket 7 0 (-2147483648)) := by decide +kernel
  have hanswer : NodeMessage.decode answer = .ok (.memory memory) := by decide +kernel
  exact ⟨⟨hrequest, host _ _ hrequest⟩, hanswer, by decide +kernel, node _ _ hanswer⟩

end QuantumNode
