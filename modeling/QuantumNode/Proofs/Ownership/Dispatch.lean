import QuantumNode.Proofs.Node.Dispatch
import QuantumNode.Proofs.Node.Total
import QuantumNode.Proofs.Ownership.Execution

/-! A dispatcher holds what its subroutine holds. Clearing an application returns every slot that it maps. -/
namespace QuantumNode

open Node Work Working

variable {n m : Nat}

/-- The slots that a dispatcher holds. -/
def DispatchStage.held : DispatchStage → List Nat
  | .running _ e => e.stage.held
  | _ => []

/-- What a dispatcher's subroutine relies on. -/
def Node.Serves (node : Node n m) : DispatchStage → Prop
  | .running _ e => node.Sound e.app e.stage
  | _ => True

namespace Dispatch

variable {w : Working (Node n m) n m}

/-- What a step of a dispatcher comes to, given the slots it held. -/
def Outcome (held : List Nat) (w : Working (Node n m) n m) (flow : Step m) (w' : Working (Node n m) n m) : Prop :=
  match flow with
  | .go stage | .rest stage => Trades held stage.held w w' ∧ w'.part.Serves stage
  | .call .. => False

theorem Outcome.of_trades {a b : List Nat} {w₁ w' : Working (Node n m) n m} {flow : Step m} (h : Trades a b w w₁)
    (ho : Outcome b w₁ flow w') : Outcome a w flow w' := by
  cases flow with
  | go stage => exact ⟨h.trans ho.1, ho.2⟩
  | rest stage => exact ⟨h.trans ho.1, ho.2⟩
  | call a l e c => exact ho
  | finished x => exact nomatch x

theorem Outcome.of_still {a : List Nat} {w₁ w' : Working (Node n m) n m} {flow : Step m} (h : Still w w₁)
    (ho : Outcome a w₁ flow w') : Outcome a w flow w' :=
  ho.of_trades (h.toThrifty.trades a)

theorem addApp_lodges (app : Int) : Within (Lodges [] []) (addApp app : NodeWork n m Unit) := .of_part fun w => by
  split
  · exact Within.fail _ w
  · rename_i happ
    have hnone : w.part.apps.get? app = none := by
      simpa [hasApp, SortedMap.contains] using happ
    have hmaps : ∀ a v q, ({ w.part with apps := w.part.apps.insert app (.new app w.part.pool.size) } : Node n m).Maps
        a v q ↔ w.part.Maps a v q := by
      intro a v q
      rw [maps_insert]
      split
      · rename_i ha
        subst ha
        simp [Maps, hnone]
      · rfl
    exact ⟨⟨fun _ h => h.of_same (h.ascending.insert _ _) hmaps rfl, rfl, fun _ => rfl⟩, (hmaps ..).2⟩

theorem initApp_lodges (maxQubits : Nat) : Within (Lodges [] []) (initApp maxQubits : NodeWork n m Int) :=
  Within.part.bind fun _ => Within.bind (modifyDispatcher_steering (R := Thrifty) _ fun _ => Nat.le_succ _).lodges fun _ =>
    (addApp_lodges _).bind fun _ => Within.bind (modifyDispatcher_steering (R := Thrifty) _).lodges fun _ =>
      Within.part.bind fun _ => Within.lodges (announce_mild _ _ _)

/-! Clearing an application. -/

/-- An application gives up all its qubits; their slots are held until they are freed. -/
theorem unmapAll_ends {app : Int} {mem : AppMemory} (hmem : w.part.apps.get? app = some mem) :
    Ends (setMemory app mem.unmapAll) w fun _ w' =>
      Trades [] mem.mapped w w' ∧ ∀ v q, ¬ w'.part.Maps app v q := fun _ w' he => by
  obtain ⟨-, rfl⟩ := Prod.mk.inj he
  have hmaps : ∀ a v q, ({ w.part with apps := w.part.apps.insert app mem.unmapAll } : Node n m).Maps a v q ↔
      w.part.Maps a v q ∧ ¬ a = app := by
    intro a v q
    rw [maps_insert]
    split
    · rename_i ha
      simp [ha]
    · rename_i ha
      simp [ha]
  refine ⟨⟨fun others h => ?_, rfl, fun _ => rfl⟩, fun v q h => ((hmaps ..).1 h).2 rfl⟩
  refine h.unmap rfl (h.ascending.insert _ _) (fun q => ?_) ?_ hmaps
  · rw [mem_mapped_iff hmem]
    constructor
    · rintro ⟨v, hv⟩
      exact ⟨app, v, rfl, hv⟩
    · rintro ⟨_, v, rfl, hv⟩
      exact ⟨v, hv⟩
  · refine AppMemory.nodup_mapped fun u v p hu hv => ?_
    have := (h.injective (maps_iff.2 ⟨mem, hmem, u, rfl, hu⟩) (maps_iff.2 ⟨mem, hmem, v, rfl, hv⟩)).2
    omega

theorem freeAll_ends (l : List Nat) : Ends (l.forM freeQubit) w fun _ w' =>
    Trades l [] w w' ∧ ∀ a v q, w'.part.Maps a v q ↔ w.part.Maps a v q := by
  induction l generalizing w with
  | nil => exact .pure ⟨(Std.Refl.refl w : Thrifty w w).trades [], fun _ _ _ => Iff.rfl⟩
  | cons p l ih =>
    exact .bind <| (freeQubit_ends p).mono fun _ w₁ ⟨h₁, hm₁⟩ => ih.mono fun _ w₂ ⟨h₂, hm₂⟩ =>
      ⟨(h₁.frame l).trans h₂, fun a v q => (hm₂ a v q).trans (hm₁ a v q)⟩

/-- An application without qubits can be forgotten. -/
theorem removeApp_trades {app : Int} (h : ∀ v q, ¬ w.part.Maps app v q) :
    Ends (removeApp app) w fun _ w' => Trades [] [] w w' := fun _ w' he => by
  obtain ⟨-, rfl⟩ := Prod.mk.inj he
  refine ⟨fun _ hacc => hacc.of_same (hacc.ascending.erase _) (fun a v q => ?_) rfl, rfl, fun _ => rfl⟩
  by_cases ha : a = app
  · subst ha
    exact iff_of_false (by simp [Maps]) (h v q)
  · simp only [Maps]
    rw [SortedMap.get?_erase_of_ne _ ha]

theorem clearApp_trades (app : Int) (remove : Bool) :
    Ends (clearApp app remove) w fun _ w' => Trades [] [] w w' := by
  refine .part ?_
  split
  · refine .bind <| (Execution.memory_ends app).mono fun mem w₁ ⟨hw, hmem⟩ => ?_
    subst hw
    refine .bind <| (unmapAll_ends hmem).mono fun _ w₂ ⟨h₂, hm₂⟩ => .bind <|
      (freeAll_ends mem.mapped).mono fun _ w₃ ⟨h₃, hm₃⟩ => ?_
    split
    · exact (removeApp_trades fun v q hq => hm₂ v q ((hm₃ ..).1 hq)).mono fun _ _ h₄ => (h₂.trans h₃).trans h₄
    · exact .pure (h₂.trans h₃)
  · exact .pure ((Std.Refl.refl w : Thrifty w w).trades [])

theorem stopApp_trades (app : Int) : Ends (stopApp app) w fun _ w' => Trades [] [] w w' := by
  have hrest : ∀ w₁, Trades [] [] w w₁ → Ends (do
      Pairing.removeApp app
      modifyDispatcher fun d => { d with apps := d.apps.erase app } : NodeWork n m Unit) w₁
        fun _ w' => Trades [] [] w w' :=
    fun _ h => (Pairing.removeApp_rousing app).still.next fun _ _ h₂ _ _ he =>
      h.trans ((h₂.toThrifty.trans ((modifyDispatcher_steering _).still.of_exec he).toThrifty).trades [])
  refine (log_mild _ _ _).still.next fun _ _ h₁ => .part ?_
  dsimp only
  split
  · exact (log_mild _ _ _).still.next fun _ _ h₂ => .bind <| (clearApp_trades app true).mono fun _ _ h₃ =>
      hrest _ (((h₁.toThrifty.trans h₂.toThrifty).trades []).trans h₃)
  · exact (log_mild _ _ _).still.next fun _ _ h₂ => hrest _ ((h₁.toThrifty.trans h₂.toThrifty).trades [])

/-! An application whose slots are accounted for can be cleared and stopped. -/

theorem freeAll_attains (l : List Nat) {others : List Nat} (h : w.part.Accounted (l ++ others)) :
    Attains (l.forM freeQubit) w fun _ _ => True := by
  induction l generalizing w with
  | nil => exact .pure trivial
  | cons p l ih =>
    refine .bind <| ((freeQubit_attains (h.heldAllocated List.mem_cons_self)).ends (freeQubit_ends p)).mono ?_
    exact fun _ w₁ ⟨⟨ht, _⟩, _⟩ => ih (ht.accounted _ h)

theorem clearApp_attains {held : List Nat} (h : w.part.Accounted held) (app : Int) (remove : Bool) :
    Attains (clearApp app remove) w fun _ w' => w'.part.Accounted held := by
  have hok : Attains (clearApp app remove) w fun _ _ => True := by
    refine .part ?_
    split
    · rename_i happ
      obtain ⟨mem, hmem⟩ : ∃ mem, w.part.apps.get? app = some mem := Option.isSome_iff_exists.1 happ
      refine .bind <| (memory_attains hmem).mono fun mem' w₁ ⟨hm, hw⟩ => ?_
      subst hm hw
      have hunmap := (unmapAll_ends hmem () _ rfl).1.accounted held h
      refine .next rfl <| .bind <| (freeAll_attains mem'.mapped hunmap).mono fun _ _ _ => ?_
      split
      · exact ⟨_, _, rfl, trivial⟩
      · exact .pure trivial
    · exact .pure trivial
  exact (hok.ends (clearApp_trades app remove)).mono fun _ _ ⟨ht, _⟩ => ht.accounted held h

theorem stopApp_attains {held : List Nat} (h : w.part.Accounted held) (app : Int) :
    Attains (stopApp app) w fun _ w' => w'.part.Accounted held := by
  have hrest : ∀ w₁ : Working (Node n m) n m, Attains (do
      Pairing.removeApp app
      modifyDispatcher fun d => { d with apps := d.apps.erase app } : NodeWork n m Unit) w₁ fun _ _ => True := fun w₁ => by
    have hgone : Attains (Pairing.removeApp app) w₁ fun _ _ => True := .modifyPart notifyNews_attains
    exact .bind <| hgone.mono fun _ _ _ => ⟨_, _, rfl, trivial⟩
  have hok : Attains (stopApp app) w fun _ _ => True := by
    refine .bind <| (log_attains _ _ _).mono fun _ w₁ hw₁ => .part ?_
    split
    · refine .bind <| (log_attains _ _ _).mono fun _ w₂ hw₂ => .bind ?_
      have h₂ : w₂.part.Accounted held := by
        rw [hw₂, hw₁]
        exact h
      exact (clearApp_attains h₂ app true).mono fun _ w₃ _ => hrest w₃
    · exact .bind <| (log_attains _ _ _).mono fun _ w₂ _ => hrest w₂
  exact (hok.ends (stopApp_trades app)).mono fun _ _ ⟨ht, _⟩ => ht.accounted held h

theorem apply_trades (message : HostMessage) : Ends (apply message) w fun _ w' => Trades [] [] w w' := by
  cases message with
  | initNewApp _ =>
    exact (initApp_lodges _).next fun _ _ h₁ _ _ he =>
      h₁.toTrades.trans (((reply_steering _).still.of_exec he).toThrifty.trades [])
  | openSocket _ _ _ =>
    exact (log_mild _ _ _).still.next fun _ _ h₁ _ _ he =>
      (h₁.toThrifty.trans ((openSocket_mild _ _ _).still.of_exec he).toThrifty).trades []
  | subroutine text =>
    unfold apply
    dsimp only
    split
    · exact fun _ _ he => ((addSubroutine_mild _ _).still.of_exec he).toThrifty.trades []
    · exact .bind fun _ _ _ => .fail _
  | stopApp app => exact stopApp_trades app

theorem takeMessage_outcome (text : String) : Ends (takeMessage text) w (Outcome [] w) := by
  unfold takeMessage
  split
  · exact .bind fun _ _ _ => .fail _
  · refine .bind <| (apply_trades _).mono fun _ _ h₁ => .part ?_
    split
    · exact .pure ⟨h₁, trivial⟩
    · exact .pure ⟨h₁, trivial⟩

theorem awaitMessage_outcome (p : ProcessId) : Ends (awaitMessage p) w (Outcome [] w) := by
  refine .part ?_
  obtain ⟨text, inbox⟩ := w.part.inbox.receive p
  have h₁ : Thrifty w { w with part := { w.part with inbox := inbox } } := .of_eq rfl rfl rfl
  refine .setPart (Ends.mono ?_ fun _ _ ho => Outcome.of_trades (h₁.trades []) ho)
  split
  · exact takeMessage_outcome _
  · exact .pure ⟨(Std.Refl.refl _ : Thrifty _ _).trades [], trivial⟩

theorem serve_outcome (app : Int) : Ends (serve app) w (Outcome [] w) := by
  refine .part ?_
  split
  · exact (modifyDispatcher_steering _).still.next fun _ _ h₁ => .pure ⟨h₁.toThrifty.trades [], trivial⟩
  · exact .pure ⟨(Std.Refl.refl w : Thrifty w w).trades [], trivial⟩

theorem answer_outcome (app : Int) (status : ExecutionStatus) : Ends (answer app status) w (Outcome [] w) := by
  refine (modifyDispatcher_steering _).still.next fun _ w₁ h₁ => ?_
  refine Ends.mono ?_ fun _ _ ho => Outcome.of_still h₁ ho
  cases status with
  | ok =>
    exact (memory_mild _).still.next fun _ _ h₂ => (reply_steering _).still.next fun _ _ h₃ =>
      .pure ⟨(h₂.toThrifty.trans h₃.toThrifty).trades [], trivial⟩
  | aborted =>
    exact .bind <| (clearApp_trades app false).mono fun _ _ h₂ => (reply_steering _).still.next fun _ _ h₃ =>
      .pure ⟨h₂.trans (h₃.toThrifty.trades []), trivial⟩

/-- A step of a dispatcher trades the slots of its stage for those of the next. -/
theorem step_outcome (p : ProcessId) (stage : DispatchStage) (wake : Wake) (hasc : w.part.apps.Ascending)
    (hel : w.part.Electron) (hs : w.part.Serves stage) :
    Ends (step p stage wake) w (Outcome stage.held w) := by
  unfold step
  split
  · exact takeMessage_outcome _
  · exact awaitMessage_outcome p
  · exact serve_outcome _
  · refine .bind <| (Execution.step_outcome p _ hasc hel hs).mono fun flow w₁ ho => ?_
    cases flow with
    | go e' => exact .pure ⟨ho.2.1, ho.2.2⟩
    | rest e' => exact .pure ⟨ho.2.1, ho.2.2⟩
    | call _ _ _ _ => exact absurd ho id
    | finished status => exact (answer_outcome _ status).mono fun _ _ h => Outcome.of_trades ho h

end Dispatch

end QuantumNode
