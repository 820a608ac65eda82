import QuantumNode.Proofs.Dialogue.Dispatch
import QuantumNode.Proofs.Node.Rows
import QuantumNode.Proofs.Network.Bystander

/-! How an application comes to go. Its memory stays until the application is stopped, by its host or by hand. -/
namespace QuantumNode

open Node Work Working

variable {n m : Nat} {app : Int}

instance : Steering (Houses app : Working (Node n m) n m → Working (Node n m) n m → Prop) where
  dispatcher _ _ _ h := h
  reply _ _ _ h := h

namespace Dispatch

instance : Enrolling (Houses app : Working (Node n m) n m → Working (Node n m) n m → Prop) where
  enrol maxQubits := by
    have hadd : ∀ other, Within (Houses app) (addApp other : NodeWork n m Unit) := fun other w => by
      rw [exec_addApp]
      split
      · exact id
      · rename_i hother
        refine fun happ => ?_
        have hne : app ≠ other := fun h => hother (by rwa [← h])
        rwa [hasApp, SortedMap.contains, SortedMap.get?_insert_of_ne _ hne]
    exact Within.part.bind fun _ => (modifyDispatcher_steering _ fun _ => Nat.le_succ _).bind fun _ => (hadd _).bind fun _ =>
      (modifyDispatcher_steering _).bind fun _ => Within.part.bind fun _ => announce_mild _ _ _

/-- An application that is cleared loses its memory only if it is to. -/
theorem clearApp_houses {other : Int} {remove : Bool} (h : remove = true → app ≠ other) :
    Within (Houses app) (clearApp other remove : NodeWork n m Unit) := by
  refine Within.part.bind fun _ => .ite (unmapAll_within other (fun _ _ => .of_insert) fun _ => ?_) (.pure _)
  refine (Within.forM (fun _ => freeQubit_pooling _) _).bind fun _ => ?_
  split
  · rename_i hr
    intro w happ
    change ((w.part.apps.erase other).get? app).isSome = true
    rwa [SortedMap.get?_erase_of_ne _ (h hr)]
  · exact .pure _

theorem stopApp_houses {other : Int} (h : app ≠ other) : Within (Houses app) (stopApp other : NodeWork n m Unit) := by
  have hrest : Within (Houses app) (do
      Pairing.removeApp other
      modifyDispatcher fun d => { d with apps := d.apps.erase other } : NodeWork n m Unit) :=
    (Pairing.removeApp_rousing other).bind fun _ => modifyDispatcher_steering _
  exact (log_mild _ _ _).bind fun _ => Within.part.bind fun _ => .ite
    ((log_mild _ _ _).bind fun _ => (clearApp_houses fun _ => h).bind fun _ => hrest)
    ((log_mild _ _ _).bind fun _ => hrest)

theorem apply_houses {message : HostMessage} (h : message ≠ .stopApp app) :
    Within (Houses app) (apply message : NodeWork n m Unit) := by
  cases message with
  | initNewApp _ => exact (Enrolling.enrol _).bind fun _ => reply_steering _
  | openSocket _ _ _ => exact (log_mild _ _ _).bind fun _ => openSocket_mild _ _ _
  | subroutine text =>
    unfold apply
    dsimp only
    split
    · exact addSubroutine_mild _ _
    · exact (log_mild _ _ _).bind fun _ => .fail _
  | stopApp _ => exact stopApp_houses fun ha => h (ha ▸ rfl)

theorem takeMessage_houses {text : String} (h : HostMessage.decode text ≠ .ok (.stopApp app)) :
    Within (Houses app) (takeMessage text : NodeWork n m (Step m)) := by
  unfold takeMessage
  split
  · exact (log_mild _ _ _).bind fun _ => .fail _
  · rename_i hd
    refine (apply_houses fun hm => h (hm ▸ hd)).bind fun _ => Within.part.bind fun _ => ?_
    split
    · exact .pure _
    · exact .pure _

theorem answer_houses (other : Int) (status : ExecutionStatus) :
    Within (Houses app) (answer other status : NodeWork n m (Step m)) :=
  (modifyDispatcher_steering _).bind fun _ => by
    cases status with
    | ok => exact (memory_mild _).bind fun _ => (reply_steering _).bind fun _ => .pure _
    | aborted =>
      refine (clearApp_houses fun h => ?_).bind fun _ => (reply_steering _).bind fun _ => .pure _
      exact absurd h Bool.false_ne_true

theorem awaitMessage_houses (p : ProcessId) {w : Working (Node n m) n m}
    (h : ∀ text, w.part.inbox.items.head? = some text → HostMessage.decode text ≠ .ok (.stopApp app)) :
    Houses app w ((awaitMessage p).exec w).2 := by
  rw [Channel.head?_receive w.part.inbox p] at h
  rw [awaitMessage, exec_bind, exec_part]
  rcases hr : w.part.inbox.receive p with ⟨text, inbox⟩
  rw [hr] at h
  dsimp only
  rw [hr]
  refine Within.setPart_bind id ?_
  cases text with
  | some text => exact takeMessage_houses (h text rfl)
  | none => exact .pure _

/-- A dispatcher drops the memory of an application when it is told that the application stops. -/
theorem step_houses (p : ProcessId) {stage : DispatchStage} {wake : Wake} {w : Working (Node n m) n m}
    (h : ∀ text, heard? w.part stage wake = some text → HostMessage.decode text ≠ .ok (.stopApp app)) :
    Houses app w ((step p stage wake).exec w).2 := by
  cases stage with
  | idle =>
    cases wake with
    | text text => exact takeMessage_houses (h text rfl) w
    | _ => exact awaitMessage_houses p h
  | serving other => exact serve_mild other w
  | running other e =>
    refine Within.bind (Execution.step_granting p e fun _ _ _ _ _ => inferInstance) (fun flow => ?_) w
    cases flow with
    | go _ => exact .pure _
    | rest _ => exact .pure _
    | call _ _ _ _ => exact .pure _
    | finished status => exact answer_houses other status

end Dispatch

/-- What a client does to a node drops the memory of no application but one that it stops. -/
theorem NodeAct.work_houses {a : NodeAct} (h : a ≠ .stop app) : Within (Houses app) (a.work : NodeWork n m Unit) := by
  cases a with
  | register maxQubits => exact (Dispatch.Enrolling.enrol maxQubits).bind fun _ => .pure _
  | declare other address values =>
    refine updateMemory_filling other fun mem mem' h => ?_
    cases h
    exact ⟨rfl, rfl⟩
  | openSocket other socket remote => exact Pairing.openSocket_mild other socket remote
  | submit r => exact submit_mild r
  | abort other => exact Pairing.abort_sociable other
  | stop other => exact Dispatch.stopApp_houses fun ha => h (ha ▸ rfl)
  | clearOnStop clear => exact Dispatch.modifyDispatcher_steering _

namespace Network

/-- What the dispatcher of a node, if it is to go on, takes from its host. -/
def heard? (s : Network n m) (i : Fin n) : Option String :=
  match s.current with
  | some (p, wake) => if p = dispatchId i then Dispatch.heard? (s.node i) (s.dispatchStage i) wake else none
  | none => none

theorem heard?_of_current {s : Network n m} {i : Fin n} {wake : Wake} (hc : s.current = some (dispatchId i, wake)) :
    s.heard? i = Dispatch.heard? (s.node i) (s.dispatchStage i) wake := by
  simp only [heard?, hc, if_true]

/-- An application of a node is stopped, by hand or by a message of its host. -/
def Stride.Stops (x : Stride n m) (i : Fin n) (app : Int) : Prop :=
  x.cause = .client (.atNode i (.stop app)) ∨
    ∃ text, x.before.heard? i = some text ∧ HostMessage.decode text = .ok (.stopApp app)

variable {s s' : Network n m} {i : Fin n} {cause : Cause n}

/-- In a step in which it is not stopped an application keeps its memory. -/
theorem Reaches.hasApp (h : s.Reaches i cause s') (happ : (s.node i).hasApp app = true)
    (hstop : ¬ (⟨s, cause, s'⟩ : Stride n m).Stops i app) : (s'.node i).hasApp app = true := by
  cases h with
  | spares hs _ _ _ => rwa [Node.hasApp, hs.apps]
  | works hshift hs _ =>
    rw [Node.hasApp, hs.apps]
    cases hshift with
    | @labour _ x hc hx now =>
      have hhouses : Within (Houses app) x := by
        cases hx with
        | news => exact notifyNews_rousing
        | act a => exact a.work_houses fun ha => hstop (.inl (ha ▸ rfl))
        | slots a => exact a.work_pooling
      exact hhouses _ happ
    | @pairing wake hc =>
      exact Pairing.step_within (R := Houses app) _ _ wake (fun _ _ => inferInstance) (fun _ _ => inferInstance) _ happ
    | @dispatch wake hc =>
      refine Dispatch.step_houses _ (fun text hheard hd => hstop (.inr ⟨text, ?_, hd⟩)) happ
      rwa [heard?_of_current hc]

/-- Along every run, an application that has no memory has been stopped, or has never had one. -/
theorem Course.stopped {c : NetworkConfig} {past : List (Stride c.nodes.length c.links.length)}
    {s : Network c.nodes.length c.links.length} (h : Course c past s) {i : Fin c.nodes.length}
    (hgone : (s.node i).hasApp app = false) :
    (∃ x ∈ past, x.Stops i app) ∨ ∀ x ∈ past, (x.before.node i).hasApp app = false := by
  induction h with
  | built h => exact .inr fun _ hx => nomatch hx
  | @step past s s' cause h hf ih =>
    by_cases hstop : (⟨s, cause, s'⟩ : Stride c.nodes.length c.links.length).Stops i app
    · exact .inl ⟨_, List.mem_cons_self, hstop⟩
    · have hbefore : (s.node i).hasApp app = false := Bool.eq_false_iff.2 fun happ =>
        absurd (((hf.happens h.crewed).reaches i).hasApp happ hstop) (by simp [hgone])
      rcases ih hbefore with ⟨x, hx, hs⟩ | hnever
      · exact .inl ⟨x, List.mem_cons_of_mem _ hx, hs⟩
      · exact .inr (List.forall_mem_cons.2 ⟨hbefore, hnever⟩)

end Network

end QuantumNode
