import QuantumNode.Node.Dispatch
import QuantumNode.Proofs.Node.Execution

/-! A dispatcher takes no part in the exchange between pair services. -/
namespace QuantumNode

open Node Work Working

variable {n m : Nat} {R : Working (Node n m) n m → Working (Node n m) n m → Prop} [Placid R]

namespace Pairing

omit [Placid R] in
/-- Opening a socket closes none. -/
theorem openSocket_alike {π : Type} (s : PairService n π) (app socket remote : Int) :
    s.Alike (s.openSocket app socket remote) := by
  refine ⟨rfl, rfl, rfl, rfl, rfl, fun _ h => h, fun _ h => h, fun app' socket' remote' h => ?_⟩
  simp only [PairService.hasSocket, PairService.openSocket, List.contains_iff_mem] at h ⊢
  by_cases happ : app' = app
  · subst happ
    rw [SortedMap.get?_insert_self]
    exact List.mem_append_left _ h
  · rwa [SortedMap.get?_insert_of_ne _ happ]

theorem openSocket_mild (app socket remote : Int) :
    Within R (openSocket app socket remote : NodeWork n m Unit) :=
  (log_mild _ _ _).bind fun _ => modifyService_mild (fun s => openSocket_alike s app socket remote) fun _ => rfl

omit [Placid R] in
theorem removeApp_rousing [Rousing R] (app : Int) : Within R (removeApp app : NodeWork n m Unit) :=
  fun w => Rousing.gone w app

end Pairing

namespace Dispatch

omit [Placid R] in
theorem modifyDispatcher_steering [Steering R] (f : Dispatcher → Dispatcher)
    (h : ∀ d, d.nextApp ≤ (f d).nextApp := by exact fun _ => Nat.le_refl _) :
    Within R (modifyDispatcher f : NodeWork n m Unit) :=
  fun w => Steering.dispatcher w (f w.part.dispatcher) (h _)

omit [Placid R] in
theorem reply_steering [Steering R] (message : NodeMessage) : Within R (reply message : NodeWork n m Unit) :=
  fun w => Steering.reply w w.part.id message.encode

omit [Placid R] in
theorem announce_mild [Bland R] (app : Int) (count maxQubits : Nat) :
    Within R (do
      if count < maxQubits then
        Node.log .warning "Handler" s!"app {app} asks for {maxQubits} qubits, the node has {count}"
      Node.log .debug "Handler" s!"registered app with ID {app}"
      return app : NodeWork n m Int) :=
  .ite ((log_mild _ _ _).bind fun _ => (log_mild _ _ _).bind fun _ => .pure _)
    ((log_mild _ _ _).bind fun _ => .pure _)

theorem initApp_clearing [Steering R] [Clearing R] (maxQubits : Nat) : Within R (initApp maxQubits : NodeWork n m Int) :=
  Within.part.bind fun _ => (modifyDispatcher_steering _ fun _ => Nat.le_succ _).bind fun _ => (addApp_clearing _).bind fun _ =>
    (modifyDispatcher_steering _).bind fun _ => Within.part.bind fun _ => (announce_mild _ _ _)

/-- Relations that put up with applications that are registered. -/
class Enrolling (R : Working (Node n m) n m → Working (Node n m) n m → Prop) : Prop where
  enrol (maxQubits : Nat) : Within R (initApp maxQubits)

instance [Steering R] [Clearing R] : Enrolling R := ⟨initApp_clearing⟩

theorem openSocket_mild (app socket remote : Int) :
    Within R (openSocket app socket remote : NodeWork n m Unit) :=
  Within.part.bind fun _ => .ite (Pairing.openSocket_mild _ _ _) (.fail _)

theorem addSubroutine_mild [Steering R] (app : Int) (s : Subroutine) : Within R (addSubroutine app s : NodeWork n m Unit) :=
  Within.part.bind fun _ => .ite (modifyDispatcher_steering _) (.fail _)

theorem clearApp_wiping [Pooling R] (app : Int) [Wiping app R] (remove : Bool) :
    Within R (clearApp app remove : NodeWork n m Unit) :=
  Within.part.bind fun _ => .ite
    (unmapAll_within app (fun w mem h => Wiping.unmapped w mem h) fun _ =>
      (Within.forM (fun _ => freeQubit_pooling _) _).bind fun _ => .ite (removeApp_wiping _) (.pure _))
    (.pure _)

theorem stopApp_wiping [Steering R] [Pooling R] (app : Int) [Wiping app R] : Within R (stopApp app : NodeWork n m Unit) := by
  have hrest : Within R (do
      Pairing.removeApp app
      modifyDispatcher fun d => { d with apps := d.apps.erase app } : NodeWork n m Unit) :=
    (Pairing.removeApp_rousing app).bind fun _ => (modifyDispatcher_steering _)
  exact (log_mild _ _ _).bind fun _ => Within.part.bind fun _ => .ite
    ((log_mild _ _ _).bind fun _ => (clearApp_wiping _ _).bind fun _ => hrest)
    ((log_mild _ _ _).bind fun _ => hrest)

theorem apply_enrolling [Steering R] [Pooling R] [Enrolling R] [∀ app, Wiping app R] (message : HostMessage) :
    Within R (apply message : NodeWork n m Unit) := by
  cases message with
  | initNewApp _ => exact (Enrolling.enrol _).bind fun _ => (reply_steering _)
  | openSocket _ _ _ => exact (log_mild _ _ _).bind fun _ => (openSocket_mild _ _ _)
  | subroutine text =>
    unfold apply
    dsimp only
    split
    · exact (addSubroutine_mild _ _)
    · exact (log_mild _ _ _).bind fun _ => .fail _
  | stopApp _ => exact stopApp_wiping _

theorem takeMessage_enrolling [Steering R] [Pooling R] [Enrolling R] [∀ app, Wiping app R] (text : String) :
    Within R (takeMessage text : NodeWork n m (Step m)) := by
  unfold takeMessage
  split
  · exact (log_mild _ _ _).bind fun _ => .fail _
  · refine (apply_enrolling _).bind fun _ => Within.part.bind fun _ => ?_
    split
    · exact .pure _
    · exact .pure _

theorem awaitMessage_enrolling [Steering R] [Pooling R] [Enrolling R] [∀ app, Wiping app R] (p : ProcessId) [Drowsy p R] :
    Within R (awaitMessage p : NodeWork n m (Step m)) :=
  .of_part fun w => by
    dsimp only
    refine Within.setPart_bind (Drowsy.text w) ?_
    split
    · exact takeMessage_enrolling _
    · exact .pure _

theorem serve_mild [Steering R] (app : Int) : Within R (serve app : NodeWork n m (Step m)) :=
  Within.part.bind fun _ => by
    split
    · exact (modifyDispatcher_steering _).bind fun _ => .pure _
    · exact .pure _

theorem answer_wiping [Steering R] [Pooling R] (app : Int) [Wiping app R] (status : ExecutionStatus) :
    Within R (answer app status : NodeWork n m (Step m)) :=
  (modifyDispatcher_steering _).bind fun _ => by
    cases status with
    | ok => exact (memory_mild _).bind fun _ => (reply_steering _).bind fun _ => .pure _
    | aborted => exact (clearApp_wiping _ _).bind fun _ => (reply_steering _).bind fun _ => .pure _

/-- What a dispatcher does beside its subroutine changes no memory but by clearing it. -/
theorem step_enrolling [Steering R] [Pooling R] [Enrolling R] [∀ app, Wiping app R] (p : ProcessId) [Drowsy p R]
    (stage : DispatchStage) (wake : Wake)
    (he : ∀ app e, stage = .running app e → Within R (Execution.step p e : NodeWork n m (Execution.Step m))) :
    Within R (step p stage wake : NodeWork n m (Step m)) := by
  unfold step
  split
  · exact takeMessage_enrolling _
  · exact awaitMessage_enrolling _
  · exact (serve_mild _)
  · rename_i app e
    refine (he app e rfl).bind fun flow => ?_
    cases flow with
    | go _ => exact .pure _
    | rest _ => exact .pure _
    | call _ _ _ _ => exact .pure _
    | finished _ => exact answer_wiping _ _

/-- A step of a dispatcher tells no pair service anything. -/
theorem step_lavish [Steering R] [Lavish R]
    (p : ProcessId) [Drowsy p R] (stage : DispatchStage) (wake : Wake) :
    Within R (step p stage wake : NodeWork n m (Step m)) :=
  step_enrolling p stage wake fun _ e _ => Execution.step_lavish p e

theorem takeMessage_local (text : String) :
    Yields (fun flow => flow.asks = false) (takeMessage text : NodeWork n m (Step m)) := by
  unfold takeMessage
  split
  · exact .bind fun _ => .fail _
  · refine .bind fun _ => .bind fun _ => ?_
    split
    · exact .pure rfl
    · exact .pure rfl

theorem answer_local (app : Int) (status : ExecutionStatus) :
    Yields (fun flow => flow.asks = false) (answer app status : NodeWork n m (Step m)) :=
  .bind fun _ => by
    cases status with
    | ok => exact .bind fun _ => .bind fun _ => .pure rfl
    | aborted => exact .bind fun _ => .bind fun _ => .pure rfl

/-- A dispatcher asks no link. -/
theorem step_local (p : ProcessId) (stage : DispatchStage) (wake : Wake) :
    Yields (fun flow => flow.asks = false) (step p stage wake : NodeWork n m (Step m)) := by
  unfold step
  split
  · exact takeMessage_local _
  · refine .bind fun _ => .bind fun _ => ?_
    split
    · exact takeMessage_local _
    · exact .pure rfl
  · refine .bind fun _ => ?_
    split
    · exact .bind fun _ => .pure rfl
    · exact .pure rfl
  · refine .bind_of (Execution.step_local _ _) fun flow hflow => ?_
    cases flow with
    | go _ => exact .pure rfl
    | rest _ => exact .pure rfl
    | call _ _ _ _ => exact nomatch hflow
    | finished _ => exact answer_local _ _

end Dispatch

end QuantumNode
