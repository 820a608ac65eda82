import QuantumNode.Host.Session
import QuantumNode.Proofs.Dialogue.Dispatch
import QuantumNode.Proofs.Message.Canonical
import QuantumNode.Proofs.Node.Total

/-! The reason of an abort, from the node that gives it to the host that raises it. It is a field of the message's first
line, and fields begin after the blanks before them: a line that starts with no blank arrives as it is. -/
namespace QuantumNode

open Node Text Work

variable {n m : Nat}

namespace NodeMessage

/-- What there is to be read of a reason: its first line, from the first letter that is no blank. -/
def legible (reason : String) : String := String.ofList ((splitFirstLine reason.toList).1.dropWhile isBlank)

/-- A line feed at the end of a text ends its first line, or comes after it. -/
theorem exists_body (cs : List Char) : ∃ body, cs ++ ['\n'] = (splitFirstLine cs).1 ++ '\n' :: body := by
  by_cases h : '\n' ∈ cs
  · obtain ⟨l, body, rfl, hl⟩ := List.eq_append_cons_of_mem h
    exact ⟨body ++ ['\n'], by rw [splitFirstLine_line hl, List.append_assoc, List.cons_append]⟩
  · exact ⟨[], by rw [splitFirstLine, cutAt, if_neg h, Option.getD_none]⟩

theorem decode_encode_abort (reason : String) : decode (abort reason).encode = .ok (abort (legible reason)) := by
  obtain ⟨body, hbody⟩ := exists_body reason.toList
  have htext : (abort reason).encode.toList =
      "ABORT".toList ++ ' ' :: (splitFirstLine reason.toList).1 ++ '\n' :: body := by
    rw [toList_encode_abort, hbody, List.append_assoc, List.cons_append]
  exact decode_of_abort (newline_not_mem_firstLine reason.toList) htext

/-- Reasons that arrive as they are. -/
theorem legible_eq_iff {reason : String} :
    legible reason = reason ↔ '\n' ∉ reason.toList ∧ ∀ c ∈ reason.toList.head?, isBlank c = false := by
  constructor
  · intro h
    have hsettled := settled_of_decode (decode_encode_abort reason)
    rwa [h] at hsettled
  · rintro ⟨hline, hstart⟩
    have h : Except.ok (abort (legible reason)) = Except.ok (abort reason) :=
      (decode_encode_abort reason).symm.trans (decode_abort hline hstart)
    exact NodeMessage.abort.inj (Except.ok.inj h)

/-- What has been read once is not changed when it is passed on. -/
theorem legible_legible (reason : String) : legible (legible reason) = legible reason :=
  legible_eq_iff.2 (settled_of_decode (decode_encode_abort reason))

end NodeMessage

open NodeMessage

/-! At the host. -/

namespace Session

theorem takeReply_abort (s : Session) (collect : Option Subroutine) (reason : String) (w : Working (Host n) n m) :
    ∃ w', (s.takeReply collect (abort reason).encode).exec w =
      (.ok (.go { s with flushes := s.flushes + 1, assembler := s.assembler.resetQubits,
                         stage := .raising (.aborted (legible reason)) }), w') := by
  simp only [takeReply, decode_encode_abort]
  exact ⟨_, rfl⟩

/-- A fault ends a session, or is noted by the innermost of its blocks that guards against faults. -/
theorem exec_step_raising {s : Session} {f : Fault} (h : s.stage = .raising f) (p : ProcessId) (wake : Wake)
    (w : Working (Host n) n m) : (s.step p wake).exec w = (match unwind s.blocks with
      | none => .error f
      | some (as, outer) =>
        .ok (.go ({ s with blocks := outer, stage := .ready }.setResult as (.text f.report))), w) := by
  simp only [step, h, recover]
  cases unwind s.blocks with
  | none => rfl
  | some _ => rfl

end Session

/-! At the node. -/

namespace Dispatch

/-- The reason that a node gives. -/
theorem legible_answer (app : Int) :
    legible s!"entanglement request of app {app} failed" = s!"entanglement request of app {app} failed" := by
  have htext : s!"entanglement request of app {app} failed".toList =
      "entanglement request of app ".toList ++ (toString app).toList ++ " failed".toList := by
    change ("entanglement request of app " ++ toString app ++ " failed").toList = _
    simp
  have hnumber : '\n' ∉ (toString app).toList := newline_not_mem_of_solid (isWord_toString app).solid
  rw [legible_eq_iff, htext]
  refine ⟨List.not_mem_append (List.not_mem_append (by decide) hnumber) (by decide), ?_⟩
  rintro _ ⟨⟩
  rfl

theorem answer_aborted_ends (app : Int) (w : Working (Node n m) n m) :
    Ends (answer app .aborted) w fun _ w' => ∃ reason, legible reason = reason ∧
      w'.replies w.part.id = w.replies w.part.id ++ [(abort reason).encode] := by
  refine .modifyPart <| (clearApp_aside app).next fun _ w₁ h₁ => .bind ?_
  refine (reply_ends h₁.books.id _).mono fun _ w' ⟨_, hsaid⟩ => .pure ⟨_, legible_answer app, ?_⟩
  rw [hsaid, h₁.replies]
  rfl

end Dispatch

/-- A host gets to read the reason of every abort, up to the end of its first line and without the blanks before it: a
reason of one line that starts with no blank as it is, and no other. That is what its session raises. A node gives only
reasons that arrive as they are. -/
theorem aborts_are_raised_for_what_is_legible (s : Session) (collect : Option Subroutine) (app : Int) :
    (∀ reason, NodeMessage.decode (abort reason).encode = .ok (abort (legible reason))) ∧
    (∀ reason, legible reason = reason ↔ '\n' ∉ reason.toList ∧ ∀ c ∈ reason.toList.head?, isBlank c = false) ∧
    (∀ reason (w : Working (Host n) n m), ∃ s' w',
      (s.takeReply collect (abort reason).encode).exec w = (.ok (.go s'), w') ∧ s'.blocks = s.blocks ∧
      ∀ p wake, (s'.step p wake).exec w' = (match Session.unwind s.blocks with
        | none => .error (.aborted (legible reason))
        | some (as, outer) => .ok (.go ({ s' with blocks := outer, stage := .ready }.setResult as
            (.text (Fault.aborted (legible reason)).report))), w')) ∧
    ∀ w : Working (Node n m) n m, Ends (Dispatch.answer app .aborted) w fun _ w' => ∃ reason, legible reason = reason ∧
      w'.replies w.part.id = w.replies w.part.id ++ [(abort reason).encode] := by
  refine ⟨decode_encode_abort, fun reason => legible_eq_iff, fun reason w => ?_, Dispatch.answer_aborted_ends app⟩
  obtain ⟨w', h⟩ := s.takeReply_abort collect reason w
  exact ⟨_, w', h, rfl, fun p wake => Session.exec_step_raising rfl p wake w'⟩

/-- A reason with blanks before and within its first line, and a node with an application that it aborts. -/
theorem aborts_are_raised_for_what_is_legible_in_part :
    NodeMessage.decode (abort "\t no  pair\r\nat all").encode = .ok (.abort "no  pair\r") ∧
    ∃ flow w', (Dispatch.answer 3 .aborted).exec (atWork (lone 3 2)) = (.ok flow, w') ∧
      ∃ reason, NodeMessage.decode (abort reason).encode = .ok (.abort reason) ∧
        w'.replies 0 = [(abort reason).encode] := by
  obtain ⟨hread, -, -, hgive⟩ := aborts_are_raised_for_what_is_legible (n := 1) (m := 0)
    (.new 3 ⟨⟨"", [], [], 2⟩, []⟩ .empty) none 3
  have hlegible : legible "\t no  pair\r\nat all" = "no  pair\r" := by decide
  refine ⟨hlegible ▸ hread _, _, _, rfl, ?_⟩
  obtain ⟨reason, hreason, hsaid⟩ := hgive (atWork (lone 3 2)) _ _ rfl
  exact ⟨reason, (hread reason).trans (by rw [hreason]), hsaid⟩

/-- Neither what follows a line feed nor the blanks before a reason arrive. -/
theorem reasons_need_not_arrive_as_they_are :
    NodeMessage.decode (abort "a\nb").encode = .ok (.abort "a") ∧
    NodeMessage.decode (abort " a").encode = .ok (.abort "a") ∧
    ¬ ∀ reason, NodeMessage.decode (abort reason).encode = .ok (.abort reason) := by
  refine ⟨by decide, by decide, fun h => ?_⟩
  exact absurd (h "a\nb") (by decide)

end QuantumNode
