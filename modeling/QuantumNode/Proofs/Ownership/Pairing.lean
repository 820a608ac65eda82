import QuantumNode.Proofs.Node.Pairing
import QuantumNode.Proofs.Ownership.Primitive

/-! A pair service holds the slot of the pair it is about, and gives it up where the pair becomes an application's
or comes to nothing. -/
namespace QuantumNode

open Work Working

variable {n m : Nat} {α : Type}

/-- The slots that a pair service holds. -/
def PairStage.held : PairStage → List Nat
  | .linking _ _ position | .correcting _ _ position .. => [position]
  | _ => []

namespace Pairing

open Node

variable {w : Working (Node n m) n m}

/-- Work that leaves qubits alone and ends in a stage without a slot. -/
private theorem lodges_of_thrifty {x : NodeWork n m (Step m)} (h : Within Thrifty x)
    (hs : Yields (fun flow => flow.stage.held = []) x) : Ends x w fun flow w' => Lodges [] flow.stage.held w w' :=
  fun flow w' he => by
    have hstage := hs w flow w' he
    dsimp only at hstage ⊢
    rw [hstage]
    exact (h.of_exec he).lodges []

theorem tryPair_lodges (p : ProcessId) (t : PairTask) (k : Nat) :
    Ends (tryPair p t k) w fun flow w' => Lodges [] flow.stage.held w w' := by
  refine service_mild.still.next fun s w₁ h₁ => ?_
  have ht₁ := h₁.toThrifty
  split
  · refine (log_mild _ _ _).still.next fun _ w₂ h₂ => .pure ?_
    exact (ht₁.trans h₂.toThrifty).lodges []
  · refine .attempt (fun position w₂ h₂ => ?_) fun e w₂ h₂ => ?_
    · have hl : Lodges [] [position] w₁ w₂ := allocateCommunication_lodges position w₂ h₂
      refine (modifyService_thrifty _).next fun _ w₃ h₃ => (log_mild _ _ _).still.next fun _ w₄ h₄ =>
        (linkCall_mild _ _ _ _).still.next fun ⟨l, e, c⟩ w₅ h₅ => .pure ?_
      exact ((ht₁.lodges []).trans hl).trans
        (((h₃.trans h₄.toThrifty).trans h₅.toThrifty).lodges [position])
    · obtain rfl := allocateCommunication_halts e w₂ h₂
      refine countWait_still.next fun _ w₃ h₃ => (log_mild _ _ _).still.next fun _ w₄ h₄ =>
        (waitForFree_still p).next fun _ w₅ h₅ => .pure ?_
      exact ((ht₁.trans h₃.toThrifty).trans (h₄.toThrifty.trans h₅.toThrifty)).lodges []

theorem beginPair_lodges (p : ProcessId) (t : PairTask) (k : Nat) :
    Ends (beginPair p t k) w fun flow w' => Lodges [] flow.stage.held w w' := by
  unfold beginPair
  split
  · exact (log_mild _ _ _).still.next fun _ w₁ h₁ => (tryPair_lodges p t k).mono fun _ _ h =>
      (h₁.toThrifty.lodges []).trans h
  · exact .pure ((Std.Refl.refl w : Thrifty w w).lodges [])

theorem takeRefusal_lodges (t : PairTask) (k position : Nat) (cause : LinkRefusal) :
    Ends (takeRefusal t k position cause) w fun flow w' => Lodges [position] flow.stage.held w w' := by
  refine .bind <| (freeQubit_lodges position).mono fun _ w₁ h₁ => ?_
  have hrest : ∀ w₂, Lodges [position] [] w w₂ → Ends (do
      notifyArrayWritten
      return Flow.go (.settling t.request) : NodeWork n m (Step m)) w₂
        fun flow w' => Lodges [position] flow.stage.held w w' :=
    fun w₂ h₂ => notifyArrayWritten_still.next fun _ w₃ h₃ => .pure (h₂.trans (h₃.toThrifty.lodges []))
  dsimp only
  split
  · exact (log_mild _ _ _).still.next fun _ w₂ h₂ => (setAborted_still _).next fun _ w₃ h₃ =>
      hrest w₃ (h₁.trans ((h₂.toThrifty.trans h₃.toThrifty).lodges []))
  · exact (log_mild _ _ _).still.next fun _ w₂ h₂ => (markFailed_blaming _).still.next fun _ w₃ h₃ =>
      hrest w₃ (h₁.trans ((h₂.toThrifty.trans h₃.toThrifty).lodges []))

theorem finishPair_stage (t : PairTask) (k : Nat) (pair : Pair) (virt : Option Int) :
    Yields (fun flow => flow.stage.held = []) (finishPair t k pair virt : NodeWork n m (Step m)) :=
  .bind fun _ => .bind fun _ => .bind fun _ => .bind fun _ => .pure rfl

theorem finishPair_lodges (t : PairTask) (k : Nat) (pair : Pair) (virt : Option Int) :
    Ends (finishPair t k pair virt) w fun flow w' => Lodges [] flow.stage.held w w' :=
  lodges_of_thrifty (finishPair_noting t k pair virt).thrifty (finishPair_stage t k pair virt)

theorem keepHalf_lodges (t : PairTask) (k position : Nat) (pair : Pair) :
    Ends (keepHalf t k position pair) w fun flow w' => Lodges [position] flow.stage.held w w' := by
  refine .part ?_
  split
  · refine (memory_mild _).still.next fun mem w₁ h₁ => .ofExcept fun virt _ => ?_
    split
    · exact .fail _
    · refine .bind <| (mapQubit_lodges _ _ _).mono fun _ w₂ h₂ => (log_mild _ _ _).still.next fun _ w₃ h₃ =>
        (finishPair_lodges _ _ _ _).mono fun _ _ h => ?_
      exact ((h₁.toThrifty.lodges [position]).trans h₂).trans ((h₃.toThrifty.lodges []).trans h)
  · exact .bind <| (freeQubit_lodges position).mono fun _ _ h => .pure h

theorem dropHalf_lodges (t : PairTask) (k position : Nat) (pair : Pair) :
    Ends (dropHalf t k position pair) w fun flow w' => Lodges [position] flow.stage.held w w' := by
  refine .bind <| (freeQubit_lodges position).mono fun _ w₁ h₁ => .part ?_
  split
  · exact (finishPair_lodges _ _ _ _).mono fun _ _ h => h₁.trans h
  · exact .pure h₁

theorem correct_lodges (p : ProcessId) (t : PairTask) (k position : Nat) (pair : Pair) (calls : List DeviceCall) :
    Ends (correct p t k position pair calls) w fun flow w' => Lodges [position] flow.stage.held w w' := by
  cases calls with
  | nil => exact keepHalf_lodges _ _ _ _
  | cons c calls => exact (startGate_mild _ _).still.next fun _ w₁ h₁ => .pure (h₁.toThrifty.lodges [position])

theorem takePair_lodges (p : ProcessId) (t : PairTask) (k position : Nat) (pair : Pair) :
    Ends (takePair p t k position pair) w fun flow w' => Lodges [position] flow.stage.held w w' := by
  refine (log_mild _ _ _).still.next fun _ w₁ h₁ => ?_
  have h₁ := h₁.toThrifty.lodges [position]
  split
  · exact (correct_lodges _ _ _ _ _ _).mono fun _ _ h => h₁.trans h
  · exact (keepHalf_lodges _ _ _ _).mono fun _ _ h => h₁.trans h
  · exact (dropHalf_lodges _ _ _ _).mono fun _ _ h => h₁.trans h

theorem takeAnswer_lodges (p : ProcessId) (t : PairTask) (k position : Nat) (answer : LinkAnswer) :
    Ends (takeAnswer p t k position answer) w fun flow w' => Lodges [position] flow.stage.held w w' := by
  refine (modifyService_thrifty _).next fun _ w₁ h₁ => ?_
  have h₁ := h₁.lodges [position]
  cases answer with
  | refused cause kind => exact (takeRefusal_lodges _ _ _ _).mono fun _ _ h => h₁.trans h
  | pair pair => exact (takePair_lodges _ _ _ _ _).mono fun _ _ h => h₁.trans h

/-! Stages before and after the exchange of pairs. -/

private theorem beginCreate_holds (r : EntanglementRequest) :
    Yields (fun flow => flow.stage.held = []) (beginCreate r : NodeWork n m (Step m)) :=
  .bind fun _ => .bind fun _ => .ite (.bind fun _ => .pure rfl) (.bind fun _ => .bind fun _ => .pure rfl)

private theorem takeReply_holds (r : EntanglementRequest) (task : Option PairTask) (reply : PeerMessage) :
    Yields (fun flow => flow.stage.held = []) (takeReply r task reply : NodeWork n m (Step m)) := by
  unfold takeReply
  split
  · exact .fail _
  · exact .bind fun _ => .pure rfl
  · exact .bind fun _ => .bind fun _ => .ite (.bind fun _ => .bind fun _ => .pure rfl) (.bind fun _ => .pure rfl)
  · exact .bind fun _ => .pure rfl

private theorem awaitReply_holds (p : ProcessId) (r : EntanglementRequest) (task : Option PairTask) :
    Yields (fun flow => flow.stage.held = []) (awaitReply p r task : NodeWork n m (Step m)) :=
  .bind fun message => by
    cases message with
    | some _ => exact takeReply_holds _ _ _
    | none => exact .bind fun _ => .pure rfl

private theorem takeDescriptor_holds (r : EntanglementRequest) (message : PeerMessage) :
    Yields (fun flow => flow.stage.held = []) (takeDescriptor r message : NodeWork n m (Step m)) := by
  cases message with
  | acknowledge _ => exact .fail _
  | cancel _ => exact .bind fun _ => .bind fun _ => .bind fun _ => .bind fun _ => .pure rfl
  | descriptor _ _ _ =>
    exact .bind fun _ => .bind fun _ => .ite (.bind fun _ => .bind fun _ => .pure rfl)
      (.bind fun _ => .bind fun _ => .pure rfl)

private theorem awaitDescriptor_holds (p : ProcessId) (r : EntanglementRequest) :
    Yields (fun flow => flow.stage.held = []) (awaitDescriptor p r : NodeWork n m (Step m)) :=
  .bind fun message => by
    cases message with
    | some _ => exact takeDescriptor_holds _ _
    | none => exact .bind fun _ => .ite (.bind fun _ => .pure rfl) (.bind fun _ => .pure rfl)

private theorem beginRequest_holds (r : EntanglementRequest) :
    Yields (fun flow => flow.stage.held = []) (beginRequest r : NodeWork n m (Step m)) :=
  .bind fun _ => by
    split
    · exact beginCreate_holds r
    · exact .bind fun _ => .pure rfl

private theorem awaitRequest_holds (p : ProcessId) :
    Yields (fun flow => flow.stage.held = []) (awaitRequest p : NodeWork n m (Step m)) :=
  .bind fun _ => .bind fun _ => by
    split
    · exact beginRequest_holds _
    · exact .pure rfl

/-- A step of a pair service trades the slots of its stage for those of the next. -/
theorem step_lodges (p : ProcessId) (stage : PairStage) (wake : Wake) :
    Ends (step p stage wake) w fun flow w' => Lodges stage.held flow.stage.held w w' := by
  unfold step
  split
  · exact lodges_of_thrifty (beginRequest_sociable _) (beginRequest_holds _)
  · exact lodges_of_thrifty (awaitRequest_standing p) (awaitRequest_holds p)
  · exact lodges_of_thrifty (awaitReply_listening _ _ _) (awaitReply_holds _ _ _)
  · exact lodges_of_thrifty (awaitDescriptor_listening _ _) (awaitDescriptor_holds _ _)
  · exact beginPair_lodges _ _ _
  · exact (log_mild _ _ _).still.next fun _ w₁ h₁ => (tryPair_lodges _ _ _).mono fun _ _ h =>
      (h₁.toThrifty.lodges []).trans h
  · exact takeAnswer_lodges _ _ _ _ _
  · exact .pure ((Std.Refl.refl w : Thrifty w w).lodges _)
  · exact (finishCall_mild _).still.next fun _ w₁ h₁ => (correct_lodges _ _ _ _ _ _).mono fun _ _ h =>
      (h₁.toThrifty.lodges _).trans h
  · exact lodges_of_thrifty (settle_rousing _).thrifty (.bind fun _ => .bind fun _ => .pure rfl)

end Pairing

end QuantumNode
