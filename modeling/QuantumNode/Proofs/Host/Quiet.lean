import Mathlib.Algebra.BigOperators.Fin
import QuantumNode.Host.Run
import QuantumNode.Proofs.Node.Frame
import QuantumNode.Proofs.Work.Run

/-! A host neither talks to pair services nor asks links: a step of it brings about nothing that they notice. Nobody
begins to wait at a host but its own process. -/
namespace QuantumNode

open Work Working

variable {n m : Nat} {q : ProcessId}

/-- How often a process stands in the lines of a host. -/
def Host.lines (h : Host n) (q : ProcessId) : Nat :=
  h.fromNode.waiters.count q + ∑ source, (h.fromPeers.get source).waiters.count q

namespace Working

/-- What pair services and links do not notice, and only one process comes to wait by. -/
structure Solitary (p : ProcessId) (w w' : Working (Host n) n m) : Prop where
  quiet : w'.loud = w.loud
  resumed : ∀ q, q ≠ p → w'.resumed q = w.resumed q
  later : ∀ q, w.resumed q ≤ w'.resumed q
  lines : ∀ q, q ≠ p → w'.part.lines q = w.part.lines q

namespace Solitary

variable {p : ProcessId}

instance : Std.Refl (Solitary p : Working (Host n) n m → Working (Host n) n m → Prop) :=
  ⟨fun _ => ⟨rfl, fun _ _ => rfl, fun _ => Nat.le_refl _, fun _ _ => rfl⟩⟩

instance : IsTrans (Working (Host n) n m) (Solitary p) :=
  ⟨fun _ _ _ h h' => ⟨h'.quiet.trans h.quiet, fun q hq => (h'.resumed q hq).trans (h.resumed q hq),
    fun q => Nat.le_trans (h.later q) (h'.later q), fun q hq => (h'.lines q hq).trans (h.lines q hq)⟩⟩

end Solitary

end Working

/-- A receiver that finds nothing stands in line once more. -/
theorem Channel.count_receive {τ : Type} (c : Channel τ ProcessId) (p q : ProcessId) :
    (c.receive p).2.waiters.count q = c.waiters.count q + if (c.receive p).1.isNone ∧ q = p then 1 else 0 := by
  unfold receive
  split
  · simp
  · simp [List.count_singleton, eq_comm (a := q)]

namespace Host

theorem emit_solitary {e : Effect n m} (hl : e.isLoud = false) (hr : ∀ p, e.resumed? = some p → p = q) :
    Within (Solitary q) (emit e : HostWork n m Unit) := fun w => by
  refine ⟨loud_push_of_not hl, fun p hp => ?_, fun p => ?_, fun _ _ => rfl⟩
  · have hne : e.resumed? ≠ some p := fun h => hp (hr p h)
    change ({ w with effects := w.effects.push e } : Working (Host n) n m).resumed p = _
    rw [resumed_push, if_neg hne]
    rfl
  · change _ ≤ ({ w with effects := w.effects.push e } : Working (Host n) n m).resumed p
    rw [resumed_push]
    exact Nat.le_add_right _ _

theorem log_solitary (level : LogLevel) (text : String) : Within (Solitary q) (log level text : HostWork n m Unit) :=
  Within.part.bind fun _ => emit_solitary rfl nofun

theorem tellNode_solitary (message : HostMessage) : Within (Solitary q) (tellNode message : HostWork n m Unit) :=
  Within.part.bind fun _ => emit_solitary rfl nofun

theorem takeReply_solitary (p : ProcessId) :
    Within (Solitary p) (takeReply p : HostWork n m (Option String)) := fun w => by
  refine ⟨rfl, fun _ _ => rfl, fun _ => Nat.le_refl _, fun q hq => ?_⟩
  change (w.part.fromNode.receive p).2.waiters.count q + _ = w.part.fromNode.waiters.count q + _
  rw [Channel.count_receive, if_neg fun h => hq h.2]
  rfl

theorem takeMessage_solitary (p : ProcessId) (source : Fin n) :
    Within (Solitary p) (takeMessage p source : HostWork n m (Option String)) := fun w => by
  refine ⟨rfl, fun _ _ => rfl, fun _ => Nat.le_refl _, fun q hq => congrArg _ (Finset.sum_congr rfl fun x _ => ?_)⟩
  change ((w.part.fromPeers.set source ((w.part.fromPeers.get source).receive p).2 source.isLt).get x).waiters.count q = _
  rw [vector_get_set]
  split
  · rename_i hx
    rw [hx, Channel.count_receive, if_neg fun h => hq h.2, Nat.add_zero]
  · rfl

theorem modifyPart_solitary {f : Host n → Host n} (hn : ∀ h, (f h).fromNode = h.fromNode)
    (hp : ∀ h, (f h).fromPeers = h.fromPeers) : Within (Solitary q) (modifyPart f : HostWork n m Unit) := fun w => by
  refine ⟨rfl, fun _ _ => rfl, fun _ => Nat.le_refl _, fun q _ => ?_⟩
  change lines (f w.part) q = _
  rw [lines, hn, hp]
  rfl

end Host

namespace Session

open Host

theorem submit_solitary (s : Session) (subroutine : Subroutine) (collect : Bool) :
    Within (Solitary q) (submit s subroutine collect : HostWork n m (Step m)) :=
  (log_solitary _ _).bind fun _ => (tellNode_solitary _).bind fun _ => .pure _

theorem flush_solitary (s : Session) : Within (Solitary q) (flush s : HostWork n m (Step m)) :=
  .ite (.pure _) (submit_solitary _ _ _)

theorem execute_solitary (s : Session) (text : String) : Within (Solitary q) (execute s text : HostWork n m (Step m)) := by
  unfold execute
  split
  · exact submit_solitary _ _ _
  · exact .fail _

theorem runScripted_solitary (s : Session) (index : Nat) (body : String) :
    Within (Solitary q) (runScripted s index body : HostWork n m (Step m)) :=
  Within.part.bind fun _ => Within.bind (.ofExcept _) fun text => by
    split
    · exact submit_solitary _ _ _
    · exact .fail _

theorem takeReply_solitary (s : Session) (collect : Option Subroutine) (text : String) :
    Within (Solitary q) (takeReply s collect text : HostWork n m (Step m)) := by
  unfold takeReply
  dsimp only
  split
  · exact .pure _
  · exact .pure _
  · exact (log_solitary _ _).bind fun _ => .pure _
  · exact .pure _

theorem classicalPeer_solitary (s : Session) (peer : String) :
    Within (Solitary q) (classicalPeer s peer : HostWork n m (Fin n)) :=
  Within.part.bind fun _ => by
    split
    · exact .ite (.pure _) (.fail _)
    · exact .fail _

theorem send_solitary (s : Session) (peer text : String) : Within (Solitary q) (send s peer text : HostWork n m (Step m)) :=
  (classicalPeer_solitary _ _).bind fun _ => (log_solitary _ _).bind fun _ => Within.part.bind fun _ =>
    (emit_solitary rfl (by nofun)).bind fun _ => .pure _

theorem takeMessage_solitary (s : Session) (form : MessageForm) (peer as text : String) :
    Within (Solitary q) (takeMessage s form peer as text : HostWork n m (Step m)) :=
  (log_solitary _ _).bind fun _ => Within.bind (.ofExcept _) fun _ => .pure _

theorem receive_solitary (p : ProcessId) (s : Session) (form : MessageForm) (peer as : String) :
    Within (Solitary p) (receive p s form peer as : HostWork n m (Step m)) :=
  (classicalPeer_solitary _ _).bind fun _ => (Host.takeMessage_solitary _ _).bind fun text => by
    cases text with
    | some _ => exact takeMessage_solitary _ _ _ _ _
    | none => exact .pure _

theorem recover_solitary (s : Session) (f : Fault) : Within (Solitary q) (recover s f : HostWork n m (Step m)) := by
  unfold recover
  split
  · exact .pure _
  · exact .fail _

theorem perform_solitary (p : ProcessId) (s : Session) (step : PlanStep) :
    Within (Solitary p) (perform p s step : HostWork n m (Step m)) := by
  unfold perform
  split
  · exact Within.bind (.ofExcept _) fun _ => .pure _
  · cases step with
    | flush => exact flush_solitary _
    | execute _ => exact execute_solitary _ _
    | scripted _ _ => exact runScripted_solitary _ _ _
    | read _ _ => exact Within.bind (.ofExcept _) fun _ => .pure _
    | readAt _ _ _ => exact Within.bind (.ofExcept _) fun _ => .pure _
    | tryRead _ _ => exact Within.bind (.ofExcept _) fun _ => .pure _
    | send _ _ => exact send_solitary _ _ _
    | sendInteger _ _ => exact send_solitary _ _ _
    | sendReal _ _ => exact send_solitary _ _ _
    | sendEnvelope _ _ => exact send_solitary _ _ _
    | receive _ _ _ => exact receive_solitary _ _ _ _ _
    | note _ _ => exact Within.now.bind fun _ => .pure _
    | sleep _ => exact (emit_solitary rfl (by rintro _ ⟨⟩; rfl)).bind fun _ => .pure _
    | _ => exact .pure _

theorem proceed_solitary (p : ProcessId) (s : Session) : Within (Solitary p) (proceed p s : HostWork n m (Step m)) := by
  unfold proceed
  split
  · exact .pure _
  · exact .pure _
  · refine Within.bind (perform_solitary _ _ _).attempt fun r => ?_
    cases r with
    | ok _ => exact .pure _
    | error _ => exact recover_solitary _ _

theorem step_solitary (p : ProcessId) (s : Session) (wake : Wake) :
    Within (Solitary p) (step p s wake : HostWork n m (Step m)) := by
  unfold step
  split
  · exact proceed_solitary _ _
  · exact .pure _
  · exact recover_solitary _ _
  · exact takeReply_solitary _ _ _
  · refine (Host.takeReply_solitary _).bind fun text => ?_
    cases text with
    | some _ => exact takeReply_solitary _ _ _
    | none => exact .pure _
  · refine Within.bind (takeMessage_solitary _ _ _ _ _).attempt fun r => ?_
    cases r with
    | ok _ => exact .pure _
    | error _ => exact recover_solitary _ _
  · exact .pure _

/-! Links are not asked. -/

/-- Work on a session that asks no link. -/
def Local (x : HostWork n m (Step m)) : Prop := Yields (fun flow => flow.asks = false) x

theorem submit_local (s : Session) (subroutine : Subroutine) (collect : Bool) :
    Local (submit s subroutine collect : HostWork n m (Step m)) :=
  .bind fun _ => .bind fun _ => .pure rfl

theorem flush_local (s : Session) : Local (flush s : HostWork n m (Step m)) := .ite (.pure rfl) (submit_local _ _ _)

theorem takeReply_local (s : Session) (collect : Option Subroutine) (text : String) :
    Local (takeReply s collect text : HostWork n m (Step m)) := by
  unfold takeReply
  dsimp only
  split
  · exact .pure rfl
  · exact .pure rfl
  · exact .bind fun _ => .pure rfl
  · exact .pure rfl

theorem send_local (s : Session) (peer text : String) : Local (send s peer text : HostWork n m (Step m)) :=
  .bind fun _ => .bind fun _ => .bind fun _ => .bind fun _ => .pure rfl

theorem takeMessage_local (s : Session) (form : MessageForm) (peer as text : String) :
    Local (takeMessage s form peer as text : HostWork n m (Step m)) :=
  .bind fun _ => .bind fun _ => .pure rfl

theorem recover_local (s : Session) (f : Fault) : Local (recover s f : HostWork n m (Step m)) := by
  unfold recover
  split
  · exact .pure rfl
  · exact .fail _

theorem perform_local (p : ProcessId) (s : Session) (step : PlanStep) :
    Local (perform p s step : HostWork n m (Step m)) := by
  unfold perform
  split
  · exact .bind fun _ => .pure rfl
  · cases step with
    | flush => exact flush_local s
    | execute text =>
      change Local (execute s text)
      unfold execute
      split
      · exact submit_local _ _ _
      · exact .fail _
    | scripted _ _ =>
      refine .bind fun _ => .bind fun _ => ?_
      split
      · exact submit_local _ _ _
      · exact .fail _
    | read _ _ => exact .bind fun _ => .pure rfl
    | readAt _ _ _ => exact .bind fun _ => .pure rfl
    | tryRead _ _ => exact .bind fun _ => .pure rfl
    | send peer _ => exact send_local s peer _
    | sendInteger peer _ => exact send_local s peer _
    | sendReal peer _ => exact send_local s peer _
    | sendEnvelope peer _ => exact send_local s peer _
    | receive _ _ _ =>
      refine .bind fun _ => .bind fun text => ?_
      cases text with
      | some _ => exact takeMessage_local _ _ _ _ _
      | none => exact .pure rfl
    | note _ _ => exact .bind fun _ => .pure rfl
    | sleep _ => exact .bind fun _ => .pure rfl
    | _ => exact .pure rfl

theorem proceed_local (p : ProcessId) (s : Session) : Local (proceed p s : HostWork n m (Step m)) := by
  unfold proceed
  split
  · exact .pure rfl
  · exact .pure rfl
  · refine .bind_of (perform_local _ _ _).attempt fun r hr => ?_
    cases r with
    | ok _ => exact .pure (hr _ rfl)
    | error _ => exact recover_local _ _

theorem step_local (p : ProcessId) (s : Session) (wake : Wake) : Local (step p s wake : HostWork n m (Step m)) := by
  unfold step
  split
  · exact proceed_local _ _
  · exact .pure rfl
  · exact recover_local _ _
  · exact takeReply_local _ _ _
  · refine .bind fun text => ?_
    cases text with
    | some _ => exact takeReply_local _ _ _
    | none => exact .pure rfl
  · refine .bind_of (takeMessage_local _ _ _ _ _).attempt fun r hr => ?_
    cases r with
    | ok _ => exact .pure (hr _ rfl)
    | error _ => exact recover_local _ _
  · exact .pure rfl

end Session

namespace HostRun

open Host

theorem requireChannels_solitary (info : ProgramMeta) : Within (Solitary q) (requireChannels info : HostWork n m Unit) :=
  Within.part.bind fun _ => by
    split
    · exact .fail _
    · exact .pure _

theorem openSockets_solitary (app : Int) (info : ProgramMeta) :
    Within (Solitary q) (openSockets app info : HostWork n m (SortedMap String (Int × Int))) :=
  Within.part.bind fun h => by
    generalize (SortedMap.empty : SortedMap String (Int × Int)) = sockets
    induction info.pairPeers.zipIdx generalizing sockets with
    | nil => exact .pure _
    | cons e peers ih =>
      obtain ⟨peer, i⟩ := e
      rw [List.foldlM_cons]
      refine Within.bind ?_ fun _ => ih _
      dsimp only
      split
      · exact .fail _
      · exact (tellNode_solitary _).bind fun _ => .pure _

theorem beginSession_solitary (p : Program) (left : Nat) (text : String) :
    Within (Solitary q) (beginSession p left text : HostWork n m (Step m)) :=
  Within.bind (.ofExcept _) fun _ => (log_solitary _ _).bind fun _ => (requireChannels_solitary _).bind fun _ =>
    (openSockets_solitary _ _).bind fun _ => .pure _

theorem stepSession_solitary (process : ProcessId) (p : Program) (left : Nat) (s : Session) (wake : Wake) :
    Within (Solitary process) (stepSession process p left s wake : HostWork n m (Step m)) := by
  refine Within.bind (Session.step_solitary _ _ _).attempt fun r => ?_
  split
  · exact (tellNode_solitary _).bind fun _ => .fail _
  · refine (tellNode_solitary _).bind fun _ => (log_solitary _ _).bind fun _ => ?_
    exact Within.bind (modifyPart_solitary (fun _ => rfl) fun _ => rfl) fun _ => .pure _
  · exact .pure _
  · exact .pure _
  · exact .pure _

/-- A step of a host is noticed by no pair service and no link. -/
theorem step_solitary (process : ProcessId) (stage : HostStage) (wake : Wake) :
    Within (Solitary process) (step process stage wake : HostWork n m (Step m)) := by
  unfold step
  split
  · refine Within.part.bind fun h => ?_
    split
    · exact .pure _
    · exact Within.bind (modifyPart_solitary (fun _ => rfl) fun _ => rfl) fun _ => .pure _
  · exact .pure _
  · exact (tellNode_solitary _).bind fun _ => .pure _
  · exact beginSession_solitary _ _ _
  · refine (takeReply_solitary _).bind fun text => ?_
    cases text with
    | some _ => exact beginSession_solitary _ _ _
    | none => exact .pure _
  · exact stepSession_solitary _ _ _ _ _

theorem stepSession_local (process : ProcessId) (p : Program) (left : Nat) (s : Session) (wake : Wake) :
    Yields (fun flow => flow.asks = false) (stepSession process p left s wake : HostWork n m (Step m)) := by
  refine .bind_of (Session.step_local _ _ _).attempt fun r hr => ?_
  split
  · exact .bind fun _ => .fail _
  · exact .bind fun _ => .bind fun _ => .bind fun _ => .pure rfl
  · exact .pure rfl
  · exact .pure rfl
  · exact nomatch hr _ rfl

/-- A host asks no link. -/
theorem step_local (process : ProcessId) (stage : HostStage) (wake : Wake) :
    Yields (fun flow => flow.asks = false) (step process stage wake : HostWork n m (Step m)) := by
  have hbegin : ∀ p left text, Yields (fun flow => flow.asks = false)
      (beginSession p left text : HostWork n m (Step m)) :=
    fun _ _ _ => .bind fun _ => .bind fun _ => .bind fun _ => .bind fun _ => .pure rfl
  unfold step
  split
  · refine .bind fun h => ?_
    split
    · exact .pure rfl
    · exact .bind fun _ => .pure rfl
  · exact .pure rfl
  · exact .bind fun _ => .pure rfl
  · exact hbegin _ _ _
  · refine .bind fun text => ?_
    cases text with
    | some _ => exact hbegin _ _ _
    | none => exact .pure rfl
  · exact stepSession_local _ _ _ _ _

end HostRun

end QuantumNode
