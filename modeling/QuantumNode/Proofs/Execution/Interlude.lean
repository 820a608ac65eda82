import QuantumNode.Proofs.Node.Rows
import QuantumNode.Proofs.Node.Starvation
import QuantumNode.Proofs.Ownership.Fault
import QuantumNode.Proofs.Solo.Basic

/-! An instruction may rest, and then the rest of its node goes on: the pair service takes and returns slots, maps qubits
and writes results. What an instruction comes to is said of whatever may happen there meanwhile. -/
namespace QuantumNode

open Node Work Working

variable {n m : Nat}

/-! ### A pair service for which there is no slot -/

namespace Pairing

variable {w : Working (Node n m) n m} {stage : PairStage} {wake : Wake}

/-- A pair service that looks for a slot when none that communicates is free finds none. -/
theorem Finds.of_exhausted {t : PairTask} {k : Nat} {w' : Working (Node n m) n m} {result : Except Fault (Step m)}
    (h : Finds t k w w' result) (he : w.part.pool.Exhausted) :
    w'.part.pool = w.part.pool ∧ result = .ok (.go (.settling t.request)) := by
  cases h with
  | aborted _ hp => exact ⟨hp, rfl⟩
  | slot _ hc ht _ =>
    have htaken := he _ hc
    rw [ht.free] at htaken
    exact nomatch htaken

/-- A pair service that holds no slot, at a node without a free one that communicates, leaves qubits alone. -/
theorem step_of_exhausted (p : ProcessId) (hs : stage.held = []) (he : w.part.pool.Exhausted) :
    Thrifty w ((step p stage wake).exec w).2 := by
  have hbooks : SameBooks w ((step p stage wake).exec w).2 := step_sameBooks p (fun t k pair hg => by
    cases hg with
    | answered position => exact nomatch hs
    | corrected position c calls wake => exact nomatch hs) w
  rcases step_tries p stage wake w with ⟨t, k, w', ha, hx, hw⟩ | hf
  · rw [hx] at hbooks ⊢
    exact .of_eq hw.config hw.pool hbooks.apps
  · by_cases ha : ∃ t k, Asks t k stage
    · obtain ⟨t, k, ha⟩ := ha
      exact .of_eq hf.stirs.config ((hf.finds t k ha).of_exhausted he).1 hbooks.apps
    · -- Nothing is asked for: the request is only about to begin, or over.
      cases stage with
      | idle =>
        cases wake with
        | request r => exact beginRequest_sociable (R := Thrifty) r w
        | _ => exact awaitRequest_standing (R := Thrifty) p w
      | awaitingReply r task => exact awaitReply_listening (R := Thrifty) p r task w
      | awaitingDescriptor r => exact awaitDescriptor_listening (R := Thrifty) p r w
      | next t k =>
        have hk : ¬ (k : Int) < t.count := fun hk => ha ⟨t, k, .next hk⟩
        have hx : (step p (.next t k) wake : NodeWork n m (Step m)) = return .go (.settling t.request) := if_neg hk
        rw [hx]
        exact Std.Refl.refl w
      | starving t k => exact absurd ⟨t, k, .starving⟩ ha
      | settling r => exact (settle_rousing (R := Thrifty) r) w
      | linking t k position => exact nomatch hs
      | correcting t k position pair c calls => exact nomatch hs

/-- Nor does it come to hold one. -/
theorem step_held_of_exhausted (p : ProcessId) (hs : stage.held = []) (he : w.part.pool.Exhausted) :
    Ends (step p stage wake) w fun flow _ => flow.stage.held = [] := fun flow w' hx => by
  obtain ⟨took, told, -, hd⟩ := step_deed p stage wake flow w' hx
  cases hd with
  | ask ha hl hr hc =>
    rcases step_tries p stage wake w with ⟨t, k, w₁, -, hx₁, -⟩ | hf
    · rw [hx] at hx₁
      cases hx₁
    · have hfind := (hf.finds _ _ ha).of_exhausted he
      rw [hx] at hfind
      exact nomatch hfind.2
  | bide ha => exact nomatch hs
  | correct hg =>
    cases hg with
    | answered position => exact nomatch hs
    | corrected position c calls wake => exact nomatch hs
  | conclude hj hm =>
    rename_i r task j message
    simp only [Flow.stage]
    unfold EntanglementRequest.concluded
    split
    · rfl
    · rfl
  | _ => rfl

end Pairing

namespace Execution

/-! ### Interludes -/

/-- What happens at a node while a subroutine of it rests. The pair service makes steps, and may end in one of them; all
else leaves the device, the slots and the memories alone. -/
inductive Interlude (stage : PairStage) (w : Working (Node n m) n m) : PairStage → Working (Node n m) n m → Prop where
  | quiet : Interlude stage w stage w
  | pairing {stage₁ stage₂ : PairStage} {w₁ w₂ : Working (Node n m) n m} (h : Interlude stage w stage₁ w₁) (q : ProcessId)
      (wake : Wake) {result : Except Fault (Pairing.Step m)} (hx : (Pairing.step q stage₁ wake).exec w₁ = (result, w₂))
      (hst : stage₂ = .idle ∨ ∃ flow, result = .ok flow ∧ stage₂ = flow.stage) : Interlude stage w stage₂ w₂
  | beside {stage₁ : PairStage} {w₁ w₂ : Working (Node n m) n m} (h : Interlude stage w stage₁ w₁) (hi : Idle w₁ w₂) :
      Interlude stage w stage₁ w₂

namespace Interlude

variable {stage stage' : PairStage} {w w' : Working (Node n m) n m}

theorem outlines (h : Interlude stage w stage' w') : Outlines w w' := by
  induction h with
  | quiet => exact .of_apps rfl
  | pairing _ q wake hx _ ih => exact ih.trans ((Pairing.step_outlines q _ wake).of_exec hx)
  | beside _ hi ih => exact ih.trans (.of_apps hi.apps)

/-- As long as no slot that communicates is free, an interlude leaves qubits alone. -/
theorem thrifty (h : Interlude stage w stage' w') (hs : stage.held = []) (he : w.part.pool.Exhausted) :
    Thrifty w w' ∧ stage'.held = [] := by
  induction h with
  | quiet => exact ⟨Std.Refl.refl w, hs⟩
  | @pairing stage₁ stage₂ w₁ w₂ _ q wake result hx hst ih =>
    obtain ⟨ht, hs₁⟩ := ih
    have he₁ : w₁.part.pool.Exhausted := ht.pool ▸ he
    have hstep : Thrifty _ ((Pairing.step q _ wake).exec _).2 := Pairing.step_of_exhausted q hs₁ he₁
    rw [hx] at hstep
    refine ⟨ht.trans hstep, ?_⟩
    rcases hst with rfl | ⟨flow, rfl, rfl⟩
    · rfl
    · exact Pairing.step_held_of_exhausted q hs₁ he₁ flow w₂ hx
  | beside _ hi ih => exact ⟨ih.1.trans (.of_eq hi.config hi.pool hi.apps), ih.2⟩

end Interlude

/-! ### The course of an instruction -/

/-- The call that has been made of the device, which is busy with it. -/
def issued? : ExecutionStage → Option DeviceCall
  | .operating c | .reading c _ | .moving _ _ c _ _ => some c
  | _ => none

/-- Whatever happens at the node whenever it rests, an instruction comes to its end in one of the states described, or
raises a fault and leaves one of those described; and the device permits every call that is made of it. -/
inductive Ensues (p : ProcessId) (Done : Working (Node n m) n m → Prop) (Raised : Fault → Working (Node n m) n m → Prop) :
    Execution → PairStage → Working (Node n m) n m → Prop where
  | raises {e : Execution} {stage : PairStage} {w w' : Working (Node n m) n m} {f : Fault}
      (hx : (step p e).exec w = (.error f, w')) (h : Raised f w') : Ensues p Done Raised e stage w
  | ends {e e' : Execution} {stage : PairStage} {w w' : Working (Node n m) n m}
      (hx : (step p e).exec w = (.ok (.go e'), w')) (hst : e'.stage = .fetch) (h : Done w') : Ensues p Done Raised e stage w
  | goes {e e' : Execution} {stage : PairStage} {w w' : Working (Node n m) n m}
      (hx : (step p e).exec w = (.ok (.go e'), w')) (hst : e'.stage ≠ .fetch) (h : Ensues p Done Raised e' stage w') :
      Ensues p Done Raised e stage w
  | rests {e e' : Execution} {stage : PairStage} {w w' : Working (Node n m) n m}
      (hx : (step p e).exec w = (.ok (.rest e'), w'))
      (hc : ∀ c, issued? e'.stage = some c → w'.part.device.refusal c = none)
      (h : ∀ stage' w'', Interlude stage w' stage' w'' → Ensues p Done Raised e' stage' w'') :
      Ensues p Done Raised e stage w

/-- An instruction ends in a fault, whatever has happened at the node while it rested. -/
inductive Fails (p : ProcessId) : Execution → PairStage → Working (Node n m) n m → Fault → Working (Node n m) n m → Prop where
  | raises {e : Execution} {stage : PairStage} {w w' : Working (Node n m) n m} {f : Fault}
      (hx : (step p e).exec w = (.error f, w')) : Fails p e stage w f w'
  | goes {e e' : Execution} {stage : PairStage} {w w₁ w' : Working (Node n m) n m} {f : Fault}
      (hx : (step p e).exec w = (.ok (.go e'), w₁)) (hst : e'.stage ≠ .fetch) (h : Fails p e' stage w₁ f w') :
      Fails p e stage w f w'
  | rests {e e' : Execution} {stage stage' : PairStage} {w w₁ w₂ w' : Working (Node n m) n m} {f : Fault}
      (hx : (step p e).exec w = (.ok (.rest e'), w₁)) (hi : Interlude stage w₁ stage' w₂) (h : Fails p e' stage' w₂ f w') :
      Fails p e stage w f w'

namespace Ensues

variable {p : ProcessId} {Done : Working (Node n m) n m → Prop} {Raised : Fault → Working (Node n m) n m → Prop}
  {e : Execution} {stage : PairStage} {w w' : Working (Node n m) n m} {f : Fault}

/-- An instruction that fails does so as described. -/
theorem raised (h : Ensues p Done Raised e stage w) (hf : Fails p e stage w f w') : Raised f w' := by
  induction h with
  | raises hx h =>
    cases hf with
    | raises hx' =>
      rw [hx] at hx'
      cases hx'
      exact h
    | goes hx' _ _ | rests hx' _ _ =>
      rw [hx] at hx'
      exact nomatch hx'
  | ends hx hst _ =>
    cases hf with
    | raises hx' | rests hx' _ _ =>
      rw [hx] at hx'
      exact nomatch hx'
    | goes hx' hst' _ =>
      rw [hx] at hx'
      cases hx'
      exact absurd hst hst'
  | goes hx hst _ ih =>
    cases hf with
    | raises hx' | rests hx' _ _ =>
      rw [hx] at hx'
      exact nomatch hx'
    | goes hx' _ hf =>
      rw [hx] at hx'
      cases hx'
      exact ih hf
  | rests hx _ _ ih =>
    cases hf with
    | raises hx' | goes hx' _ _ =>
      rw [hx] at hx'
      exact nomatch hx'
    | rests hx' hi hf =>
      rw [hx] at hx'
      cases hx'
      exact ih _ _ hi hf

theorem mono {Done' : Working (Node n m) n m → Prop} {Raised' : Fault → Working (Node n m) n m → Prop}
    (h : Ensues p Done Raised e stage w) (hd : ∀ w', Done w' → Done' w') (hr : ∀ f w', Raised f w' → Raised' f w') :
    Ensues p Done' Raised' e stage w := by
  induction h with
  | raises hx h => exact .raises hx (hr _ _ h)
  | ends hx hst h => exact .ends hx hst (hd _ h)
  | goes hx hst _ ih => exact .goes hx hst ih
  | rests hx hc _ ih => exact .rests hx hc ih

theorem of_fault (h : Breaks (step p e) w Raised) : Ensues p Done Raised e stage w := by
  obtain ⟨f, w', hx, h⟩ := h
  exact .raises hx h

theorem of_go (h : Attains (step p e) w fun flow w' =>
    ∃ e', flow = .go e' ∧ e'.stage ≠ .fetch ∧ Ensues p Done Raised e' stage w') : Ensues p Done Raised e stage w := by
  obtain ⟨_, w', hx, e', rfl, hst, h⟩ := h
  exact .goes hx hst h

theorem of_end (h : Attains (step p e) w fun flow w' => ∃ e', flow = .go e' ∧ e'.stage = .fetch ∧ Done w') :
    Ensues p Done Raised e stage w := by
  obtain ⟨_, w', hx, e', rfl, hst, h⟩ := h
  exact .ends hx hst h

theorem of_rest (h : Attains (step p e) w fun flow w' => ∃ e', flow = .rest e' ∧
    (∀ c, issued? e'.stage = some c → w'.part.device.refusal c = none) ∧
      ∀ stage' w'', Interlude stage w' stage' w'' → Ensues p Done Raised e' stage' w'') : Ensues p Done Raised e stage w := by
  obtain ⟨_, w', hx, e', rfl, hc, h⟩ := h
  exact .rests hx hc h

end Ensues

end Execution

/-! ### What an instruction relies on, and what it leaves alone -/

/-- While the pair service of a node is at a stage, the slots of the node are accounted for, given those that have been
lost to faults. A pair service holds slots that communicate, there is a slot for each position of the device, and of an NV
device it is the electron alone that communicates. -/
structure Node.Custody (node : Node n m) (stage : PairStage) (lost : List Nat) : Prop where
  accounted : node.Accounted (lost ++ stage.held)
  communicates : ∀ p ∈ stage.held, node.pool.isCommunication p = true
  size : node.pool.size = node.device.size
  electron : node.device.config.isNV = true → ∀ p, node.pool.isCommunication p = true ↔ p = 0

/-- The memories of all applications, the slots, the device, the quantum state and the queue of requests are left alone. -/
structure Working.Intact (w w' : Working (Node n m) n m) : Prop where
  apps : w'.part.apps = w.part.apps
  pool : w'.part.pool = w.part.pool
  device : w'.part.device = w.part.device
  quantum : w'.quantum = w.quantum
  requests : w'.part.service.requests = w.part.service.requests

instance : Watching (Intact : Working (Node n m) n m → Working (Node n m) n m → Prop) where
  refl _ := ⟨rfl, rfl, rfl, rfl, rfl⟩
  trans _ _ _ h h' := ⟨h'.apps.trans h.apps, h'.pool.trans h.pool, h'.device.trans h.device, h'.quantum.trans h.quantum,
    h'.requests.trans h.requests⟩
  emit _ _ _ := ⟨rfl, rfl, rfl, rfl, rfl⟩

theorem Working.Intact.thrifty {w w' : Working (Node n m) n m} (h : Intact w w') : Thrifty w w' :=
  .of_eq (by rw [h.device]) h.pool h.apps

end QuantumNode
