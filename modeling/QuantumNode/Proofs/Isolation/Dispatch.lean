import QuantumNode.Proofs.Dialogue.Dispatch
import QuantumNode.Proofs.Ownership.Execution

/-! Whose subroutine a dispatcher executes. A subroutine waits in the queue of the application that it names, and the
dispatcher that takes it from there clears no other application when it is aborted. -/
namespace QuantumNode

open Node Work Working

variable {n m : Nat}

/-- Subroutines wait in the queues of the applications that they name. -/
def Dispatcher.Attributed (d : Dispatcher) : Prop := ∀ app, ∀ s ∈ d.queue app, s.appId = app

/-- A subroutine is executed for the application that it names. -/
def DispatchStage.Attributed (stage : DispatchStage) : Prop := ∀ app e, stage = .running app e → e.app = app

theorem Node.NoBusier.attributed {x y : Node n m} (h : x.NoBusier y) (hx : x.dispatcher.Attributed) :
    y.dispatcher.Attributed := fun app s hs => by
  rcases h.queue app with hq | hq
  · rw [hq] at hs
    exact nomatch hs
  · exact hx app s (hq ▸ hs)

namespace Working

/-- Queues that are in order remain so. -/
def Attributes (w w' : Working (Node n m) n m) : Prop := w.part.dispatcher.Attributed → w'.part.dispatcher.Attributed

instance : Std.Refl (Attributes : Working (Node n m) n m → Working (Node n m) n m → Prop) := ⟨fun _ h => h⟩

instance : IsTrans (Working (Node n m) n m) Attributes := ⟨fun _ _ _ h h' hw => h' (h hw)⟩

theorem Aside.attributes {w w' : Working (Node n m) n m} (h : Aside w w') : Attributes w w' := h.books.attributed

end Working

namespace Dispatch

theorem reply_attributes (message : NodeMessage) : Within Attributes (reply message : NodeWork n m Unit) := fun _ h => h

theorem addSubroutine_attributes (s : Subroutine) :
    Within Attributes (addSubroutine s.appId s : NodeWork n m Unit) := by
  refine .of_ends (fun w => ?_) fun w => .part ?_
  · refine (addSubroutine_ends s.appId s).mono fun _ w' ⟨_, _, _, _, hq⟩ h app s' hs' => ?_
    rw [hq] at hs'
    split at hs'
    · rename_i happ
      rcases List.mem_append.1 hs' with hs' | hs'
      · exact (h _ s' hs').trans happ.symm
      · obtain rfl := List.mem_singleton.1 hs'
        exact happ.symm
    · exact h app s' hs'
  · split
    · exact fun _ _ he => nomatch he
    · exact .fail id

theorem apply_attributes (message : HostMessage) : Within Attributes (apply message : NodeWork n m Unit) := by
  cases message with
  | initNewApp maxQubits =>
    exact ((initApp_aside maxQubits).mono fun _ _ h => h.attributes).bind fun _ => reply_attributes _
  | openSocket app socket remote =>
    have haside : Within Aside (apply (.openSocket app socket remote) : NodeWork n m Unit) :=
      Within.bind (log_mild _ _ _) fun _ => openSocket_mild app socket remote
    exact haside.mono fun _ _ h => h.attributes
  | subroutine text =>
    unfold apply
    dsimp only
    split
    · exact addSubroutine_attributes _
    · exact ((log_mild _ _ _).mono fun _ _ h => Aside.attributes h).bind fun _ => .fail _
  | stopApp app => exact (stopApp_aside app).mono fun _ _ h => h.attributes

theorem takeMessage_attributes (text : String) : Within Attributes (takeMessage text : NodeWork n m (Step m)) := by
  unfold takeMessage
  split
  · exact ((log_mild _ _ _).mono fun _ _ h => Aside.attributes h).bind fun _ => .fail _
  · refine (apply_attributes _).bind fun _ => Within.part.bind fun _ => ?_
    split
    · exact .pure _
    · exact .pure _

theorem awaitMessage_attributes (p : ProcessId) : Within Attributes (awaitMessage p : NodeWork n m (Step m)) :=
  .of_part fun w => by
    obtain ⟨text, inbox⟩ := w.part.inbox.receive p
    refine Within.setPart_bind id ?_
    split
    · exact takeMessage_attributes _
    · exact .pure _

theorem serve_attributes (app : Int) : Within Attributes (serve app : NodeWork n m (Step m)) := .of_part fun w => by
  split
  · rename_i maxQubits s pending hget
    have hqueue : w.part.dispatcher.queue app = s :: pending := by
      rw [Dispatcher.queue, hget]
      rfl
    intro h other s' hs'
    change s' ∈ Dispatcher.queue { w.part.dispatcher with apps := _ } other at hs'
    rw [queue_insert] at hs'
    split at hs'
    · rename_i ho
      exact (h app s' (hqueue ▸ List.mem_cons_of_mem _ hs')).trans ho.symm
    · exact h other s' hs'
  · exact id

theorem answer_attributes (app : Int) (status : ExecutionStatus) :
    Within Attributes (answer app status : NodeWork n m (Step m)) := by
  have hcount : Within Attributes (modifyDispatcher fun d => { d with subroutinesRun := d.subroutinesRun + 1 } :
      NodeWork n m Unit) := fun _ h => h
  refine hcount.bind fun _ => ?_
  cases status with
  | ok =>
    exact ((memory_mild app).mono fun _ _ h => Aside.attributes h).bind fun _ => (reply_attributes _).bind fun _ => .pure _
  | aborted =>
    exact ((clearApp_aside app).mono fun _ _ h => h.attributes).bind fun _ => (reply_attributes _).bind fun _ => .pure _

/-- A step of a dispatcher keeps the queues in order, be it that it meets a fault. -/
theorem step_attributes (p : ProcessId) (stage : DispatchStage) (wake : Wake) :
    Within Attributes (step p stage wake : NodeWork n m (Step m)) := by
  unfold step
  split
  · exact takeMessage_attributes _
  · exact awaitMessage_attributes p
  · exact serve_attributes _
  · rename_i app e
    refine ((Execution.step_aside p e).mono fun _ _ h => h.attributes).bind fun flow => ?_
    cases flow with
    | go _ => exact .pure _
    | rest _ => exact .pure _
    | call _ _ _ _ => exact .pure _
    | finished status => exact answer_attributes _ status

variable {w : Working (Node n m) n m}

/-- The stage at which a step of a dispatcher leaves it: a subroutine is executed for the application that it names, and
has just been taken or goes on. -/
structure Proceeds (p : ProcessId) (stage : DispatchStage) (w : Working (Node n m) n m) (flow : Step m) : Prop where
  running : flow.stage.Attributed
  origin : ∀ app e', flow.stage = .running app e' → (∃ s, e' = .new s) ∨
    ∃ e flow₀ w₀, stage = .running app e ∧ (Execution.step p e).exec w = (.ok flow₀, w₀) ∧ flow₀.going? = some e'

/-- No subroutine is executed next. -/
theorem proceeds_of_rest {p : ProcessId} {stage : DispatchStage} {flow : Step m}
    (hs : flow.stage = .idle ∨ ∃ app, flow.stage = .serving app) : Proceeds p stage w flow := by
  have hne : ∀ app e, flow.stage ≠ .running app e := fun app e h => by
    rcases hs with hs | ⟨other, hs⟩
    · rw [hs] at h
      exact nomatch h
    · rw [hs] at h
      exact nomatch h
  exact ⟨fun app e h => absurd h (hne app e), fun app e h => absurd h (hne app e)⟩

theorem takeMessage_proceeds (p : ProcessId) (stage : DispatchStage) (text : String) :
    Yields (Proceeds p stage w) (takeMessage text : NodeWork n m (Step m)) := by
  unfold takeMessage
  split
  · exact .bind fun _ => .fail _
  · refine .bind fun _ => .bind fun _ => ?_
    split
    · exact .pure (proceeds_of_rest (.inr ⟨_, rfl⟩))
    · exact .pure (proceeds_of_rest (.inl rfl))

theorem awaitMessage_proceeds (p : ProcessId) (stage : DispatchStage) :
    Yields (Proceeds p stage w) (awaitMessage p : NodeWork n m (Step m)) := by
  refine .bind fun node => ?_
  obtain ⟨text, inbox⟩ := node.inbox.receive p
  refine .bind fun _ => ?_
  split
  · exact takeMessage_proceeds p stage _
  · exact .pure (proceeds_of_rest (.inl rfl))

theorem serve_proceeds (p : ProcessId) (stage : DispatchStage) (app : Int) (h : w.part.dispatcher.Attributed) :
    Ends (serve app) w fun flow _ => Proceeds p stage w flow := by
  refine .part ?_
  split
  · rename_i maxQubits s pending hget
    have hqueue : w.part.dispatcher.queue app = s :: pending := by
      rw [Dispatcher.queue, hget]
      rfl
    refine .modifyPart <| .pure ⟨?_, ?_⟩
    · rintro _ _ ⟨⟩
      exact h app s (hqueue ▸ List.mem_cons_self)
    · rintro _ _ ⟨⟩
      exact .inl ⟨s, rfl⟩
  · exact .pure (proceeds_of_rest (.inl rfl))

theorem answer_proceeds (p : ProcessId) (stage : DispatchStage) (app : Int) (status : ExecutionStatus) :
    Yields (Proceeds p stage w) (answer app status : NodeWork n m (Step m)) := .bind fun _ => by
  cases status with
  | ok => exact .bind fun _ => .bind fun _ => .pure (proceeds_of_rest (.inr ⟨app, rfl⟩))
  | aborted => exact .bind fun _ => .bind fun _ => .pure (proceeds_of_rest (.inr ⟨app, rfl⟩))

theorem step_proceeds (p : ProcessId) {stage : DispatchStage} (wake : Wake) (h : w.part.dispatcher.Attributed)
    (hs : stage.Attributed) (hsame : ∀ app e, stage = .running app e → Ends (Execution.step p e) w fun flow _ =>
      ∀ e', flow.going? = some e' → e'.subroutine = e.subroutine) :
    Ends (step p stage wake) w fun flow _ => Proceeds p stage w flow := by
  unfold step
  split
  · exact takeMessage_proceeds p _ _ w
  · exact awaitMessage_proceeds p _ w
  · exact serve_proceeds p _ _ h
  · rename_i app e
    refine .bind fun flow w₁ hx => ?_
    have hgo : ∀ e', flow.going? = some e' → DispatchStage.Attributed (.running app e') := fun e' he' => by
      rintro _ _ ⟨⟩
      rw [Execution.app, hsame app e rfl flow w₁ hx e' he']
      exact hs app e rfl
    have horigin : ∀ e', flow.going? = some e' → ∀ app' e'', DispatchStage.running app e' = .running app' e'' →
        (∃ s, e'' = .new s) ∨ ∃ e₀ flow₀ w₀, DispatchStage.running app e = .running app' e₀ ∧
          (Execution.step p e₀).exec w = (.ok flow₀, w₀) ∧ flow₀.going? = some e'' := by
      rintro e' he' _ _ ⟨⟩
      exact .inr ⟨e, flow, w₁, rfl, hx, he'⟩
    cases flow with
    | go e' => exact .pure ⟨hgo e' rfl, horigin e' rfl⟩
    | rest e' => exact .pure ⟨hgo e' rfl, horigin e' rfl⟩
    | call e' l s c => exact .pure ⟨hgo e' rfl, horigin e' rfl⟩
    | finished status => exact answer_proceeds p _ app status w₁

end Dispatch

end QuantumNode
