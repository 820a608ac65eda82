import QuantumNode.Proofs.Node.Dispatch
import QuantumNode.Proofs.Node.Turn

/-! What executing subroutines does to the supply of slots. A step either lets no slot that communicates become free,
or it tells whoever waits for a free slot. -/
namespace QuantumNode

open Node Work Working

variable {n m : Nat} {α β : Type}

namespace Working

/-- Slots are left alone, nobody is told of a free one, and no application has been aborted. -/
structure Unmoved (w w' : Working (Node n m) n m) : Prop where
  pool : w'.part.pool = w.part.pool
  freed : w'.part.memoryFreed = w.part.memoryFreed
  aborted : ∀ app, w'.part.service.isAborted app = true → w.part.service.isAborted app = true

/-- No slot that communicates has become free. -/
structure Retains (w w' : Working (Node n m) n m) : Prop where
  freed : w'.part.memoryFreed = w.part.memoryFreed
  slots : ∀ slot, w.part.pool.isCommunication slot = true → w.part.pool.isAllocated slot = true →
    w'.part.pool.isAllocated slot = true
  aborted : ∀ app, w'.part.service.isAborted app = true → w.part.service.isAborted app = true

/-- Slots may have become free, and whoever waits for one has been told if so. -/
structure Relinquishes (w w' : Working (Node n m) n m) : Prop where
  slots : ∀ slot, w'.part.pool.isAllocated slot = true → w.part.pool.isAllocated slot = true
  aborted : ∀ app, w'.part.service.isAborted app = true → w.part.service.isAborted app = true
  freed : w'.part.memoryFreed = w.part.memoryFreed ∧ (∀ slot, w'.part.pool.isAllocated slot = w.part.pool.isAllocated slot) ∨
    w.part.memoryFreed.notified < w'.part.memoryFreed.notified ∧
      ∃ slot, w.part.pool.isAllocated slot = true ∧ w'.part.pool.isAllocated slot = false

/-- Slots are taken, or returned. -/
def Supplies (w w' : Working (Node n m) n m) : Prop := Retains w w' ∨ Relinquishes w w'

variable {w w₁ w' : Working (Node n m) n m}

theorem Unmoved.trans (h : Unmoved w w₁) (h' : Unmoved w₁ w') : Unmoved w w' :=
  ⟨h'.pool.trans h.pool, h'.freed.trans h.freed, fun app ha => h.aborted app (h'.aborted app ha)⟩

instance : Std.Refl (Unmoved : Working (Node n m) n m → Working (Node n m) n m → Prop) := ⟨fun _ => ⟨rfl, rfl, fun _ h => h⟩⟩

instance : IsTrans (Working (Node n m) n m) Unmoved := ⟨fun _ _ _ h h' => h.trans h'⟩

theorem Unmoved.retains (h : Unmoved w w') : Retains w w' := ⟨h.freed, fun slot _ ha => by rwa [h.pool], h.aborted⟩

theorem Unmoved.relinquishes (h : Unmoved w w') : Relinquishes w w' :=
  ⟨fun slot ha => by rwa [h.pool] at ha, h.aborted, .inl ⟨h.freed, fun slot => by rw [h.pool]⟩⟩

theorem Retains.before (h : Unmoved w w₁) (h' : Retains w₁ w') : Retains w w' := by
  refine ⟨h'.freed.trans h.freed, fun slot hc ha => ?_, fun app ha => h.aborted app (h'.aborted app ha)⟩
  rw [← h.pool] at hc ha
  exact h'.slots slot hc ha

theorem Retains.after (h : Retains w w₁) (h' : Unmoved w₁ w') : Retains w w' := by
  refine ⟨h'.freed.trans h.freed, fun slot hc ha => ?_, fun app ha => h.aborted app (h'.aborted app ha)⟩
  rw [h'.pool]
  exact h.slots slot hc ha

theorem Relinquishes.trans (h : Relinquishes w w₁) (h' : Relinquishes w₁ w') : Relinquishes w w' := by
  refine ⟨fun slot ha => h.slots slot (h'.slots slot ha), fun app ha => h.aborted app (h'.aborted app ha), ?_⟩
  rcases h.freed with ⟨hf, hs⟩ | ⟨hlt, slot, ha, hna⟩
  · rcases h'.freed with ⟨hf', hs'⟩ | ⟨hlt', slot, ha, hna⟩
    · exact .inl ⟨hf'.trans hf, fun slot => (hs' slot).trans (hs slot)⟩
    · exact .inr ⟨hf ▸ hlt', slot, (hs slot).symm.trans ha, hna⟩
  · refine .inr ⟨?_, slot, ha, ?_⟩
    · rcases h'.freed with ⟨hf', -⟩ | ⟨hlt', -⟩
      · rwa [hf']
      · exact Nat.lt_trans hlt hlt'
    · exact Bool.eq_false_iff.2 fun ha' => absurd (h'.slots slot ha') (by simp [hna])

instance : Std.Refl (Relinquishes : Working (Node n m) n m → Working (Node n m) n m → Prop) :=
  ⟨fun w => (Std.Refl.refl w : Unmoved w w).relinquishes⟩

instance : IsTrans (Working (Node n m) n m) Relinquishes := ⟨fun _ _ _ h h' => h.trans h'⟩

namespace Supplies

theorem before (h : Unmoved w w₁) (h' : Supplies w₁ w') : Supplies w w' := by
  rcases h' with h' | h'
  · exact .inl (h'.before h)
  · exact .inr (h.relinquishes.trans h')

theorem after (h : Supplies w w₁) (h' : Unmoved w₁ w') : Supplies w w' := by
  rcases h with h | h
  · exact .inl (h.after h')
  · exact .inr (h.trans h'.relinquishes)

end Supplies

end Working

namespace Work

/-- Work whose slots are taken or returned later on. -/
theorem Within.first {x : NodeWork n m α} (h : Within Unmoved x) {f : α → NodeWork n m β}
    (hf : ∀ a, Within Supplies (f a)) : Within Supplies (x >>= f) := fun w => by
  rw [exec_bind]
  rcases hx : x.exec w with ⟨_ | a, w₁⟩
  · exact .inl (h.of_exec hx).retains
  · exact .before (h.of_exec hx) (hf a w₁)

/-- Work whose slots have been taken or returned. -/
theorem Within.last {x : NodeWork n m α} (h : Within Supplies x) {f : α → NodeWork n m β}
    (hf : ∀ a, Within Unmoved (f a)) : Within Supplies (x >>= f) := fun w => by
  rw [exec_bind]
  rcases hx : x.exec w with ⟨_ | a, w₁⟩
  · exact h.of_exec hx
  · exact .after (h.of_exec hx) (hf a w₁)

theorem Within.supplies {x : NodeWork n m α} (h : Within Unmoved x) : Within Supplies x :=
  h.mono fun _ _ h => .inl h.retains

end Work

namespace Node

theorem exec_submit (w : Working (Node n m) n m) (r : EntanglementRequest) :
    ((submit r).exec w).2.part =
      { w.part with service := { w.part.service.addPending r.app with
        requests := (w.part.service.requests.countSent.arrive r).2 } } := by
  simp only [submit, exec_bind, exec_part, PairService.addPending, Channel.countSent, Channel.arrive]
  cases w.part.service.requests.waiters with
  | nil => rfl
  | cons p ps => rfl

instance : Mild (Unmoved : Working (Node n m) n m → Working (Node n m) n m → Prop) where
  emit _ _ _ := ⟨rfl, rfl, fun _ h => h⟩
  part _ _ h := ⟨h.pool, h.memoryFreed, fun app ha => by rwa [h.service] at ha⟩
  service _ _ h := ⟨rfl, rfl, h.aborted⟩
  memory _ _ _ _ _ _ := ⟨rfl, rfl, fun _ h => h⟩
  quantum _ _ := ⟨rfl, rfl, fun _ h => h⟩
  submit w r := by
    have h := exec_submit w r
    exact ⟨by rw [h], by rw [h], fun app ha => by rwa [h] at ha⟩

instance : Steering (Unmoved : Working (Node n m) n m → Working (Node n m) n m → Prop) where
  dispatcher _ _ _ := ⟨rfl, rfl, fun _ h => h⟩
  reply _ _ _ := ⟨rfl, rfl, fun _ h => h⟩

instance : Mapping (Unmoved : Working (Node n m) n m → Working (Node n m) n m → Prop) where
  apps _ _ := ⟨rfl, rfl, fun _ h => h⟩

instance (p : ProcessId) : Drowsy p (Unmoved : Working (Node n m) n m → Working (Node n m) n m → Prop) where
  sleep _ _ := ⟨rfl, rfl, fun _ h => h⟩
  write _ := ⟨rfl, rfl, fun _ h => h⟩
  text _ := ⟨rfl, rfl, fun _ h => h⟩

theorem notifyNews_unmoved : Within Unmoved (notifyNews : NodeWork n m Unit) := fun w => by
  obtain ⟨w', he, hpart, -⟩ := exec_notifyNews w
  rw [he]
  exact ⟨by rw [hpart], by rw [hpart], fun app ha => by rwa [hpart] at ha⟩

theorem retains_of_takes {w : Working (Node n m) n m} {pool : QubitPool} {slot : Nat} (h : w.part.pool.Takes pool slot) :
    Retains w { w with part := { w.part with pool := pool } } := by
  refine ⟨rfl, fun slot' _ ha => ?_, fun _ h => h⟩
  change pool.isAllocated slot' = true
  rw [h.allocated]
  split
  · rfl
  · exact ha

theorem allocate_supplies : Within Supplies (allocate : NodeWork n m Nat) := .of_part fun w => by
  rcases h : w.part.pool.allocate with _ | ⟨slot, pool⟩
  · exact .inl (Std.Refl.refl w : Unmoved w w).retains
  · exact .inl (retains_of_takes (QubitPool.takes_of_allocate h))

theorem allocateCommunication_supplies : Within Supplies (allocateCommunication : NodeWork n m Nat) :=
  .of_part fun w => by
    rcases h : w.part.pool.allocateCommunication with _ | ⟨slot, pool⟩
    · exact .inl (Std.Refl.refl w : Unmoved w w).retains
    · exact .inl (retains_of_takes (QubitPool.takes_of_allocateCommunication h).1)

/-- A slot that is returned is told of. -/
theorem freeQubit_relinquishes (slot : Nat) : Within Relinquishes (freeQubit slot : NodeWork n m Unit) := fun w => by
  rcases h : w.part.pool.free slot with _ | pool
  · have he : ((freeQubit slot).exec w).2 = w := by
      simp only [freeQubit, releaseSlot, exec_bind, exec_part, exec_ofExcept, h]
    rw [he]
    exact Std.Refl.refl w
  · have hr := QubitPool.returns_of_free h
    let w₁ : Working (Node n m) n m :=
      { w with
        part := { w.part with pool := pool }
        effects := w.effects.push (.log .debug (w.part.component "Qnos") s!"freed physical qubit {slot}") }
    have he : (freeQubit slot).exec w = notifyMemoryFreed.exec w₁ := by
      simp only [freeQubit, releaseSlot, exec_bind, exec_part, exec_ofExcept, h]
      rfl
    obtain ⟨w', hn, hpart, -⟩ := exec_notifyMemoryFreed w₁
    rw [he, hn]
    refine ⟨fun slot' ha => ?_, fun app ha => ?_, .inr ⟨?_, slot, hr.taken, ?_⟩⟩
    · simp only [hpart] at ha
      change pool.isAllocated slot' = true at ha
      rw [hr.allocated] at ha
      split at ha
      · exact nomatch ha
      · exact ha
    · simpa [hpart] using ha
    · simp [hpart, w₁]
    · simp [hpart, w₁, hr.allocated]

end Node

namespace Execution

/-- A slot that is taken but cannot be mapped is free again, as it was. -/
theorem qalloc_supplies (app : Int) (r : Register) : Within Supplies (qalloc app r : NodeWork n m Unit) :=
  (resolveRegister_mild app r).first fun virt w => by
    rw [exec_bind]
    rcases ha : w.part.pool.allocate with f | ⟨slot, pool⟩
    · have hx : ((allocateFor app virt).exec w) = (.error f, ((Node.log .error "Processor"
          s!"no physical qubit left for virtual qubit {virt} of app {app}").exec w).2) := by
        simp only [allocateFor, exec_bind, exec_attempt, allocate, exec_part, exec_ofExcept, ha]
        rfl
      rw [hx]
      exact .inl (log_mild (R := Unmoved) _ _ _ w).retains
    · have hp := QubitPool.takes_of_allocate ha
      let w₁ : Working (Node n m) n m := { w with part := { w.part with pool := pool } }
      have hx : (allocateFor app virt).exec w = (.ok slot, w₁) := by
        simp only [allocateFor, exec_bind, exec_attempt, allocate, exec_part, exec_ofExcept, ha]
        rfl
      rw [hx]
      refine .inl ?_
      rcases hm : (mapQubit app virt slot).exec w₁ with ⟨f | _, w₂⟩
      · have hu : Unmoved w₁ w₂ := (mapQubit_housing virt slot).of_exec hm
        have hslot : w₂.part.pool.isAllocated slot = true := by
          rw [hu.pool, hp.allocated, if_pos rfl]
        simp only [exec_bind, exec_attempt, hm, releaseSlot, exec_part, QubitPool.free, hslot, if_true, exec_ofExcept,
          setPool, exec_modifyPart, exec_fail]
        refine ⟨hu.freed, fun slot' _ ha' => ?_, hu.aborted⟩
        change (w₂.part.pool.setAllocated slot false).isAllocated slot' = true
        rw [QubitPool.isAllocated_setAllocated, if_neg, hu.pool, hp.allocated]
        · split
          · rfl
          · exact ha'
        · rintro ⟨rfl, -⟩
          rw [hp.free] at ha'
          cases ha'
      · have hu : Unmoved w₁ w₂ := (mapQubit_housing virt slot).of_exec hm
        simp only [exec_bind, exec_attempt, hm]
        exact ((retains_of_takes hp).after hu).after (log_mild _ _ _ w₂)

theorem qfree_supplies (app : Int) (r : Register) : Within Supplies (qfree app r : NodeWork n m Unit) :=
  (resolveRegister_mild app r).first fun _ => (position_mild app r).first fun slot =>
    (updateMemory_housing fun _ _ => AppMemory.unmapQubit_remaps).first fun _ =>
      (freeQubit_relinquishes slot).mono fun _ _ h => .inr h

theorem classical_supplies (app : Int) (i : Instruction) : Within Supplies (classical app i : NodeWork n m Unit) := by
  cases h : takesQubit i with
  | false => exact Within.supplies (classical_mild app h)
  | true =>
    cases i with
    | qalloc q => exact qalloc_supplies app q
    | qfree q => exact qfree_supplies app q
    | _ => exact nomatch h

variable (p : ProcessId) (e : Execution)

theorem perform_supplies (i : Instruction) : Within Supplies (perform p e i : NodeWork n m (Step m)) := by
  cases i with
  | jump _ => exact Within.supplies ((branch_counting _ _ _).bind fun _ => .pure _)
  | branchZero _ _ _ => exact Within.supplies ((branch_counting _ _ _).bind fun _ => .pure _)
  | branch _ _ _ _ => exact Within.supplies ((branch_counting _ _ _).bind fun _ => .pure _)
  | waitAll _ => exact Within.supplies (waitAll_counting p e _)
  | init _ => exact Within.supplies (quantum_mild p e _)
  | gate _ _ => exact Within.supplies (quantum_mild p e _)
  | rotate _ _ _ _ => exact Within.supplies (quantum_mild p e _)
  | pairGate _ _ _ => exact Within.supplies (quantum_mild p e _)
  | directed _ _ _ _ _ => exact Within.supplies (quantum_mild p e _)
  | measure _ _ => exact Within.supplies (quantum_mild p e _)
  | _ => exact (classical_supplies _ _).last fun _ => (advance_counting _).bind fun _ => .pure _

theorem fetch_supplies : Within Supplies (fetch p e : NodeWork n m (Step m)) :=
  (memory_mild e.app).first fun mem => by
    dsimp only
    split
    · exact Within.supplies (.pure _)
    · exact (log_mild _ _ _).first fun _ => countExecuted_mild.first fun _ => perform_supplies p e _

/-- Where no application owns the electron, the spare carbon is returned, which does not communicate. -/
theorem electronOwner_retains {r : Readout} {w : Working (Node n m) n m}
    (hr : w.part.pool.isCommunication r.spare = false) : Retains w ((electronOwner r).exec w).2 := by
  rcases ho : w.part.owner? 0 with _ | owner
  · rcases hf : w.part.pool.free r.spare with f | pool
    · have he : ((electronOwner r).exec w).2 = w := by
        simp only [electronOwner, releaseSlot, exec_bind, exec_part, exec_ofExcept, ho, hf]
      rw [he]
      exact (Std.Refl.refl w : Unmoved w w).retains
    · let w₁ : Working (Node n m) n m := { w with part := { w.part with pool := pool } }
      have he : (electronOwner r).exec w =
          (do Node.log .error "Processor" "electron is allocated but holds no application qubit"
              Work.fail .electronBusy : NodeWork n m (Int × Int)).exec w₁ := by
        simp only [electronOwner, releaseSlot, exec_bind, exec_part, exec_ofExcept, ho, hf]
        rfl
      rw [he]
      have hfree : Retains w w₁ := by
        refine ⟨rfl, fun slot hc ha => ?_, fun _ h => h⟩
        change pool.isAllocated slot = true
        rw [(QubitPool.returns_of_free hf).allocated, if_neg]
        · exact ha
        · rintro rfl
          rw [hr] at hc
          exact nomatch hc
      exact hfree.after ((log_mild _ _ _).bind (fun _ => .fail _) w₁)
  · have he : ((electronOwner r).exec w).2 = w := by
      simp only [electronOwner, exec_bind, exec_part, ho, exec_pure]
    rw [he]
    exact (Std.Refl.refl w : Unmoved w w).retains

theorem allocateSpare_supplies (r : Readout) : Within Supplies (allocateSpare r : NodeWork n m Nat) :=
  Within.last allocate_supplies.attempt fun r => by
    cases r with
    | ok _ => exact .pure _
    | error _ => exact (log_mild _ _ _).bind fun _ => .fail _

theorem relocate_supplies {r : Readout} {s : RelocationStep} {steps : List RelocationStep} {w : Working (Node n m) n m}
    (hr : s = .moveElectronToCarbon → w.part.pool.isCommunication r.spare = false) :
    Supplies w ((relocate p e r s steps).exec w).2 := by
  cases s with
  | allocateElectron =>
    exact (log_mild _ _ _).first (fun _ => allocateCommunication_supplies.last fun _ =>
      (claimElectron_granting _ _).bind fun _ => .pure _) w
  | allocateFreeCarbon => exact (log_mild _ _ _).first (fun _ => (allocateSpare_supplies r).last fun _ => .pure _) w
  | moveElectronToCarbon =>
    let text := s!"measure of virtual qubit {r.virt}: {RelocationStep.moveElectronToCarbon.name}"
    let w₁ : Working (Node n m) n m :=
      { w with effects := w.effects.push (.log .debug (w.part.component "Processor") text) }
    have he : (relocate p e r .moveElectronToCarbon steps).exec w = (do
        let owner ← electronOwner r
        beginMove p e r (some owner) steps ((Relocation.toCarbon r.spare).map moveCall)).exec w₁ := rfl
    have h₁ : Unmoved w w₁ := ⟨rfl, rfl, fun _ h => h⟩
    have ho := electronOwner_retains (w := w₁) (hr rfl)
    rw [he, exec_bind]
    rcases hx : (electronOwner r).exec w₁ with ⟨_ | owner, w₂⟩
    · rw [hx] at ho
      exact .inl (ho.before h₁)
    · rw [hx] at ho
      exact .inl ((ho.before h₁).after (beginMove_mild p e _ _ _ _ w₂))
  | moveCarbonToElectron => exact (log_mild _ _ _).first (fun _ => Within.supplies (beginMove_mild p e _ _ _ _)) w
  | freeCarbon =>
    exact (log_mild _ _ _).first (fun _ => Within.last ((freeQubit_relinquishes r.target).mono fun _ _ h => .inr h)
      fun _ => .pure _) w
  | measureElectron => exact (log_mild _ _ _).first (fun _ => Within.supplies ((startCall_mild p _).bind fun _ => .pure _)) w

/-- A step of a subroutine, where the carbon at which the electron's qubit is parked does not communicate. -/
theorem step_supplies {w : Working (Node n m) n m} (hr : ∀ r steps, e.stage = .relocating r (.moveElectronToCarbon :: steps) →
    w.part.pool.isCommunication r.spare = false) : Supplies w ((step p e).exec w).2 := by
  unfold step
  split
  · refine Within.supplies ((updateMemory_mild e.app fun _ _ h => ?_).bind fun _ => (log_mild _ _ _).bind fun _ =>
      .pure _) w
    cases h
    rfl
  · exact fetch_supplies p e w
  · exact Within.supplies ((finishCall_mild _).bind fun _ => (advance_counting _).bind fun _ => .pure _) w
  · exact Within.supplies ((finishCall_mild _).bind fun _ => (setRegister_mild _ _ _).bind fun _ =>
      (advance_counting _).bind fun _ => .pure _) w
  · exact Within.supplies (.pure _) w
  · rename_i r s steps hs
    exact relocate_supplies p e fun h => hr r steps (h ▸ hs)
  · rename_i r owner c steps _
    refine Within.supplies ((finishCall_mild _).bind fun _ => Within.bind ?_ fun _ => .pure _) w
    cases owner with
    | none => exact .pure _
    | some owner => exact exchangeOwners_granting e r owner
  · exact Within.supplies ((finishCall_mild _).bind fun _ => beginMove_mild p e _ _ _ _) w
  · exact Within.supplies ((log_mild _ _ _).bind fun _ => checkRange_counting p e _) w

/-! A subroutine ends without a change of slots. -/

/-- Work on a subroutine that leaves slots alone if it comes to the end. -/
def Concludes (x : NodeWork n m (Step m)) : Prop := ∀ w, Ends x w fun flow w' => flow.going? = none → Unmoved w w'

theorem Concludes.of_unmoved {x : NodeWork n m (Step m)} (h : Within Unmoved x) : Concludes x :=
  fun _ _ _ he _ => h.of_exec he

theorem Concludes.next {x : NodeWork n m α} (h : Within Unmoved x) {f : α → NodeWork n m (Step m)}
    (hf : ∀ a, Concludes (f a)) : Concludes (x >>= f) :=
  fun _ => h.next fun a w₁ hw flow w' he hgo => hw.trans (hf a w₁ flow w' he hgo)

theorem Concludes.going {x : NodeWork n m α} {f : α → Execution} : Concludes (x >>= fun a => pure (.go (f a))) :=
  fun _ => .bind fun _ _ _ => .pure nofun

theorem perform_concludes (i : Instruction) : Concludes (perform p e i : NodeWork n m (Step m)) := by
  cases i with
  | waitAll _ => exact .of_unmoved (waitAll_counting p e _)
  | init _ => exact .of_unmoved (quantum_mild p e _)
  | gate _ _ => exact .of_unmoved (quantum_mild p e _)
  | rotate _ _ _ _ => exact .of_unmoved (quantum_mild p e _)
  | pairGate _ _ _ => exact .of_unmoved (quantum_mild p e _)
  | directed _ _ _ _ _ => exact .of_unmoved (quantum_mild p e _)
  | measure _ _ => exact .of_unmoved (quantum_mild p e _)
  | jump _ => exact .going
  | branchZero _ _ _ => exact .going
  | branch _ _ _ _ => exact .going
  | _ => exact fun _ => .bind fun _ _ _ => .bind fun _ _ _ => .pure nofun

theorem fetch_concludes : Concludes (fetch p e : NodeWork n m (Step m)) := .next (memory_mild e.app) fun mem => by
  dsimp only
  split
  · exact .of_unmoved (.pure _)
  · exact .next (log_mild _ _ _) fun _ => .next countExecuted_mild fun _ => perform_concludes p e _

theorem relocate_concludes (r : Readout) (s : RelocationStep) (steps : List RelocationStep) :
    Concludes (relocate p e r s steps : NodeWork n m (Step m)) := .next (log_mild _ _ _) fun _ => by
  cases s with
  | allocateElectron => exact fun _ => .bind fun _ _ _ => .bind fun _ _ _ => .pure nofun
  | allocateFreeCarbon => exact .going
  | moveElectronToCarbon => exact fun _ => .bind fun _ _ _ => .bind fun _ _ _ => .pure nofun
  | moveCarbonToElectron => exact .of_unmoved (beginMove_mild p e _ _ _ _)
  | freeCarbon => exact .going
  | measureElectron => exact fun _ => .bind fun _ _ _ => .pure nofun

theorem step_concludes : Concludes (step p e : NodeWork n m (Step m)) := by
  unfold step
  split
  · exact fun _ => .bind fun _ _ _ => .bind fun _ _ _ => .pure nofun
  · exact fetch_concludes p e
  · exact fun _ => .bind fun _ _ _ => .bind fun _ _ _ => .pure nofun
  · exact fun _ => .bind fun _ _ _ => .bind fun _ _ _ => .bind fun _ _ _ => .pure nofun
  · exact fun _ => .pure nofun
  · exact relocate_concludes p e _ _ _
  · exact fun _ => .bind fun _ _ _ => .bind fun _ _ _ => .pure nofun
  · exact .of_unmoved ((finishCall_mild _).bind fun _ => beginMove_mild p e _ _ _ _)
  · exact .of_unmoved ((log_mild _ _ _).bind fun _ => checkRange_counting p e _)

end Execution

namespace Dispatch

theorem clearApp_relinquishes (app : Int) (remove : Bool) :
    Within Relinquishes (clearApp app remove : NodeWork n m Unit) := by
  have hu : ∀ {α : Type} {x : NodeWork n m α}, Within Unmoved x → Within Relinquishes x :=
    fun h => h.mono fun _ _ h => h.relinquishes
  refine Within.part.bind fun _ => .ite ?_ (.pure _)
  refine unmapAll_within app (fun w mem h => (Clearing.unmapped (R := Unmoved) w app mem h).relinquishes) fun _ =>
    Within.bind (.forM freeQubit_relinquishes _) fun _ => ?_
  exact .ite (hu (removeApp_wiping _)) (.pure _)

theorem removeApp_unmoved (app : Int) : Within Unmoved (Pairing.removeApp app : NodeWork n m Unit) :=
  Within.bind (fun _ => ⟨rfl, rfl, fun _ => PairService.isAborted_of_forget⟩) fun _ => notifyNews_unmoved

theorem stopApp_supplies (app : Int) : Within Supplies (stopApp app : NodeWork n m Unit) := by
  have hend : Within Unmoved (do
      Pairing.removeApp app
      modifyDispatcher fun d => { d with apps := d.apps.erase app } : NodeWork n m Unit) :=
    (removeApp_unmoved app).bind fun _ => modifyDispatcher_steering _
  refine (log_mild _ _ _).first fun _ => Within.part.first fun _ => ?_
  split
  · exact (log_mild _ _ _).first fun _ =>
      Within.last ((clearApp_relinquishes app true).mono fun _ _ h => .inr h) fun _ => hend
  · exact Within.supplies ((log_mild _ _ _).bind fun _ => hend)

theorem apply_supplies (message : HostMessage) : Within Supplies (apply message : NodeWork n m Unit) := by
  cases message with
  | initNewApp _ => exact Within.supplies ((initApp_clearing _).bind fun _ => reply_steering _)
  | openSocket _ _ _ => exact Within.supplies ((log_mild _ _ _).bind fun _ => openSocket_mild _ _ _)
  | subroutine text =>
    unfold apply
    dsimp only
    split
    · exact Within.supplies (addSubroutine_mild _ _)
    · exact Within.supplies ((log_mild _ _ _).bind fun _ => .fail _)
  | stopApp app => exact stopApp_supplies app

theorem takeMessage_supplies (text : String) : Within Supplies (takeMessage text : NodeWork n m (Step m)) := by
  unfold takeMessage
  split
  · exact Within.supplies ((log_mild _ _ _).bind fun _ => .fail _)
  · refine (apply_supplies _).last fun _ => Within.part.bind fun _ => ?_
    split
    · exact .pure _
    · exact .pure _

theorem awaitMessage_supplies (p : ProcessId) : Within Supplies (awaitMessage p : NodeWork n m (Step m)) :=
  .of_part fun w => by
    let w₁ : Working (Node n m) n m := { w with part := { w.part with inbox := (w.part.inbox.receive p).2 } }
    have h₁ : Unmoved w w₁ := Drowsy.text w
    refine .before h₁ ?_
    simp only [exec_bind, exec_setPart]
    cases (w.part.inbox.receive p).1 with
    | none => exact Within.supplies (.pure _) w₁
    | some text => exact takeMessage_supplies text w₁

theorem answer_supplies (app : Int) (status : ExecutionStatus) :
    Within Supplies (answer app status : NodeWork n m (Step m)) := (modifyDispatcher_steering _).first fun _ => by
  cases status with
  | ok => exact Within.supplies ((memory_mild _).bind fun _ => (reply_steering _).bind fun _ => .pure _)
  | aborted =>
    exact Within.last ((clearApp_relinquishes app false).mono fun _ _ h => .inr h) fun _ =>
      (reply_steering _).bind fun _ => .pure _

/-- A step of a dispatcher, where the carbon at which an electron's qubit is parked does not communicate. -/
theorem step_supplies (p : ProcessId) (stage : DispatchStage) (wake : Wake) {w : Working (Node n m) n m}
    (hr : ∀ app e r steps, stage = .running app e → e.stage = .relocating r (.moveElectronToCarbon :: steps) →
      w.part.pool.isCommunication r.spare = false) : Supplies w ((step p stage wake).exec w).2 := by
  cases stage with
  | idle =>
    cases wake with
    | text t => exact takeMessage_supplies t w
    | _ => exact awaitMessage_supplies p w
  | serving app => exact Within.supplies (serve_mild app) w
  | running app e =>
    have hs := Execution.step_supplies p e (hr app e · · rfl)
    rcases hx : (Execution.step p e).exec w with ⟨_ | flow, w₁⟩
    · simp only [step, exec_bind, hx]
      rwa [hx] at hs
    · simp only [step, exec_bind, hx]
      rw [hx] at hs
      cases flow with
      | finished status => exact .before (Execution.step_concludes p e w _ w₁ hx rfl) (answer_supplies app status w₁)
      | _ => exact hs

end Dispatch

end QuantumNode
