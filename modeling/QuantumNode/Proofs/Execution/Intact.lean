import QuantumNode.Proofs.Execution.Counter
import QuantumNode.Proofs.Execution.Readout
import QuantumNode.Proofs.Subroutine.RoundTrip

/-! An instruction that fails has changed nothing. What it does in more than one step it can be refused before the first of
them only. -/
namespace QuantumNode

open Node Work Working

variable {n m : Nat} {w : Working (Node n m) n m}

/-! ### Faults before anything has changed -/

namespace Node

theorem updateMemory_intact (app : Int) (f : AppMemory → Except Fault AppMemory) : Halts (updateMemory app f) w (Intact w) :=
  (updateMemory_halts app f).mono fun w' h => by
    rw [h]
    exact Std.Refl.refl w

theorem mapQubit_intact (app virt : Int) (slot : Nat) : Halts (mapQubit app virt slot) w (Intact w) := by
  refine .part ?_
  split
  · exact .ite (.next (log_mild _ _ _) fun _ _ _ => .fail (Std.Refl.refl _)) (updateMemory_intact _ _)
  · exact updateMemory_intact _ _

theorem startCall_intact (p : ProcessId) (c : DeviceCall) : Halts (startCall p c) w (Intact w) :=
  .part <| .ofExcept (Std.Refl.refl w) fun _ _ => .of_ok (a := ()) rfl

/-- A request can always be submitted. -/
theorem submit_intact (r : EntanglementRequest) : Halts (submit r) w (Intact w) := by
  refine .of_ok (a := ()) ?_
  simp only [submit, exec_bind, exec_part, PairService.addPending, Channel.countSent, Channel.arrive]
  cases w.part.service.requests.waiters with
  | nil => rfl
  | cons p ps => rfl

end Node

namespace Execution

theorem setRegister_intact (app : Int) (r : Register) (v : Option Int) : Halts (setRegister app r v) w (Intact w) :=
  updateMemory_intact _ _

theorem goTo_intact (app : Int) (size : Nat) (target : Int) : Halts (goTo app size target) w (Intact w) :=
  .ite (.next (log_mild _ _ _) fun _ _ _ => .fail (Std.Refl.refl _))
    (.next (log_mild _ _ _) fun _ _ _ => updateMemory_intact _ _)

theorem branch_intact (app : Int) (size : Nat) (i : Instruction) : Halts (branch app size i) w (Intact w) :=
  .next (branchTarget?_mild _ _) fun target _ _ => by
    cases target with
    | some target => exact goTo_intact _ _ _
    | none => exact updateMemory_intact _ _

theorem allocateFor_intact (app virt : Int) : Halts (allocateFor app virt) w (Intact w) := by
  refine .attempt (fun _ _ _ => .pure _) fun f w₁ hx => ?_
  rw [allocate_halts f w₁ hx]
  exact .next (log_mild _ _ _) fun _ _ _ => .fail (Std.Refl.refl _)

theorem allocateFor_ends (app virt : Int) : Ends (allocateFor app virt) w fun slot w' =>
    ∃ pool, w.part.pool.allocate = .ok (slot, pool) ∧ w' = { w with part := { w.part with pool := pool } } := by
  refine .attempt (fun slot w₁ hx => .pure ?_) fun f w₁ _ => .bind fun _ _ _ => .fail _
  rcases ha : w.part.pool.allocate with f | ⟨id, pool⟩
  · simp only [allocate, exec_bind, exec_part, exec_ofExcept, ha] at hx
    cases hx
  · simp only [allocate, exec_bind, exec_part, exec_ofExcept, ha, setPool, exec_modifyPart, exec_pure] at hx
    cases hx
    exact ⟨pool, rfl, rfl⟩

/-- A slot that cannot be mapped goes back to where it was. -/
theorem qalloc_intact (app : Int) (r : Register) : Halts (qalloc app r) w (Intact w) := by
  refine .next (resolveRegister_mild _ _) fun virt w₁ _ => ?_
  refine .bind (allocateFor_intact _ _) <| (allocateFor_ends _ _).mono fun slot w₂ ⟨pool, ha, hw₂⟩ => ?_
  refine .attempt (fun _ w₃ _ => (log_attains _ _ _).halts) fun f w₃ hx => ?_
  have h₃ : Intact w₂ w₃ := mapQubit_intact _ _ _ f w₃ hx
  have hfree : w₃.part.pool.free slot = .ok w₁.part.pool := by
    rw [h₃.pool, hw₂]
    exact QubitPool.free_of_allocate ha
  have hback : (releaseSlot slot : NodeWork n m Unit).exec w₃ =
      (.ok (), { w₃ with part := { w₃.part with pool := w₁.part.pool } }) := by
    simp only [releaseSlot, exec_bind, exec_part, exec_ofExcept, hfree, setPool, exec_modifyPart]
  refine .bind (.of_ok (a := ()) (by rw [hback])) fun _ w₄ hx => .fail ?_
  rw [hback] at hx
  cases hx
  subst hw₂
  exact ⟨h₃.apps, rfl, h₃.device, h₃.quantum, h₃.requests⟩

/-- A slot that is mapped is allocated, and can be returned. -/
theorem qfree_intact {stage : PairStage} {lost : List Nat} (hc : w.part.Custody stage lost) (app : Int) (r : Register) :
    Halts (qfree app r) w (Intact w) := by
  refine .bind (.of_within (resolveRegister_mild _ _) fun _ h => h) ?_
  refine (resolveRegister_ends app r).mono fun virt w₁ ⟨hw, hr⟩ => ?_
  subst hw
  refine .bind (.of_within (position_mild _ _) fun _ h => h) fun slot w₂ hx => ?_
  have h₂ : Intact w₁ w₂ := (position_mild _ _).of_exec hx
  obtain ⟨-, hm⟩ := position_ends app r virt hr slot w₂ hx
  have hallocated : w₂.part.pool.isAllocated slot = true := (hc.intact h₂).accounted.allocated hm
  refine .bind ((updateMemory_intact _ _).mono fun _ h => IsTrans.trans _ _ _ h₂ h) fun _ w₃ hx => ?_
  have hpool : w₃.part.pool = w₂.part.pool := by
    rw [exec_updateMemory] at hx
    split at hx
    · exact nomatch hx
    · split at hx
      · exact nomatch hx
      · cases hx
        rfl
  exact (Node.freeQubit_attains (hpool ▸ hallocated)).halts

theorem requestPairs_intact (r : EntanglementRequest) : Halts (requestPairs r) w (Intact w) :=
  .next (log_mild _ _ _) fun _ _ _ => submit_intact r

/-- No instruction of those that take no time fails once it has changed something. -/
theorem classical_intact {stage : PairStage} {lost : List Nat} (hc : w.part.Custody stage lost) (app : Int) (i : Instruction) :
    Halts (classical app i) w (Intact w) := by
  unfold classical
  split
  · exact setRegister_intact _ _ _
  · exact qalloc_intact _ _
  · exact qfree_intact hc _ _
  · exact updateMemory_intact _ _
  · exact updateMemory_intact _ _
  · exact updateMemory_intact _ _
  · exact setRegister_intact _ _ _
  · exact .next (resolve_mild _ _) fun _ _ _ => .ite (.fail (Std.Refl.refl _)) <|
      .next (log_mild _ _ _) fun _ _ _ => updateMemory_intact _ _
  · exact .next (arithmetic_mild _ _ _ _ _) fun _ _ _ => setRegister_intact _ _ _
  · exact .next (modular_mild _ _ _ _ _ _) fun _ _ _ => setRegister_intact _ _ _
  · exact .next (resolve_mild _ _) fun _ _ _ => .next (resolve_mild _ _) fun _ _ _ => .next (resolve_mild _ _) fun _ _ _ =>
      .next (resolve_mild _ _) fun _ _ _ => .next (resolve_mild _ _) fun _ _ _ => requestPairs_intact _
  · exact .next (resolve_mild _ _) fun _ _ _ => .next (resolve_mild _ _) fun _ _ _ => .next (resolve_mild _ _) fun _ _ _ =>
      .next (resolve_mild _ _) fun _ _ _ => requestPairs_intact _
  · exact .of_within (breakpoint_mild _ _ _) fun _ h => h
  · exact .pure _

theorem operate_intact (p : ProcessId) (e : Execution) (c : DeviceCall) : Halts (operate p e c) w (Intact w) :=
  .bind (startCall_intact p c) fun _ _ _ => .pure _

/-- The device refuses a call before it begins. -/
theorem quantum_intact (p : ProcessId) (e : Execution) (i : Instruction) : Halts (quantum p e i) w (Intact w) := by
  have hno : ∀ i, Halts (unsupported i : NodeWork n m (Step m)) w (Intact w) :=
    fun i => .of_within (unsupported_mild i) fun _ h => h
  refine .part ?_
  dsimp only
  split
  · exact .next (position_mild _ _) fun _ _ _ => operate_intact _ _ _
  · exact .ite (hno _) (.next (position_mild _ _) fun _ _ _ => operate_intact _ _ _)
  · exact .next (position_mild _ _) fun _ _ _ => operate_intact _ _ _
  · exact .ite (hno _) (.next (position_mild _ _) fun _ _ _ => .next (position_mild _ _) fun _ _ _ => operate_intact _ _ _)
  · exact .ite (.next (position_mild _ _) fun _ _ _ => .next (position_mild _ _) fun _ _ _ => operate_intact _ _ _) (hno _)
  · refine .ite (.of_within ((resolveRegister_mild _ _).bind fun _ => beginReadout_mild _ _ _) fun _ h => h) ?_
    exact .next (position_mild _ _) fun _ _ _ => .bind (startCall_intact _ _) fun _ _ _ => .pure _
  · exact hno _

/-- A range is looked at before anything is changed. -/
theorem checkRange_intact (p : ProcessId) (e : Execution) (a : AwaitedRange) : Halts (checkRange p e a) w (Intact w) := by
  refine .part <| .bind (.of_ok (a := ()) rfl) fun _ w₁ hx => ?_
  have htaken : Intact w w₁ := by
    cases hx
    exact ⟨rfl, rfl, rfl, rfl, rfl⟩
  refine Halts.mono (Q := Intact w₁) ?_ fun _ h => IsTrans.trans _ _ _ htaken h
  refine .ite (.next (memory_mild _) fun _ _ _ => .next (log_mild _ _ _) fun _ _ _ => .pure _) ?_
  refine .next (memory_mild _) fun _ w₂ _ => .ofExcept (Std.Refl.refl _) fun vs _ => ?_
  refine .ite (.bind (updateMemory_intact _ _) fun _ _ _ => .pure _) (.ite ?_ ?_)
  · exact .next (log_mild _ _ _) fun _ _ _ => .bind (updateMemory_intact _ _) fun _ _ _ => .pure _
  · exact .bind (.of_ok (a := ()) rfl) fun _ _ _ => .pure _

end Execution

/-! ### Once an instruction rests -/

namespace Execution

/-- Stages in which an instruction that rests has nothing more to fear: there is what it is going to write to, and the range
that it waits for lies in an array. -/
def Firm (app : Int) (w : Working (Node n m) n m) : ExecutionStage → Prop
  | .operating _ => w.part.hasApp app = true
  | .reading _ dest => w.part.hasApp app = true ∧ dest.Legible
  | .waiting a => ∃ mem vs, w.part.apps.get? app = some mem ∧ mem.arrayValues a.address a.start a.stop = .ok vs
  | _ => False

/-- An instruction is over, or rests with nothing more to fear. -/
inductive Settles (s : Subroutine) (w : Working (Node n m) n m) : Step m → Prop where
  | fetch : Settles s w (.go ⟨s, .fetch⟩)
  | finished (status : ExecutionStatus) : Settles s w (.finished status)
  | rests {stage : ExecutionStage} (h : Firm s.appId w stage) : Settles s w (.rest ⟨s, stage⟩)

variable {p : ProcessId} {s : Subroutine} {stage stage' : PairStage} {w' : Working (Node n m) n m} {f : Fault}

/-- Whatever the rest of the node does meanwhile. -/
theorem Firm.interlude {st : ExecutionStage} (h : Firm s.appId w st) (hi : Interlude stage w stage' w') :
    Firm s.appId w' st := by
  have happ (hm : w.part.hasApp s.appId = true) : w'.part.hasApp s.appId = true := by
    obtain ⟨mem, hmem⟩ := Option.isSome_iff_exists.1 hm
    obtain ⟨mem', hmem', -⟩ := hi.outlines.memory hmem
    exact Option.isSome_iff_exists.2 ⟨mem', hmem'⟩
  cases st with
  | operating c => exact happ h
  | reading c dest => exact ⟨happ h.1, h.2⟩
  | waiting a =>
    obtain ⟨mem, vs, hmem, hvs⟩ := h
    obtain ⟨mem', hmem', -, -, hsize⟩ := hi.outlines.memory hmem
    obtain ⟨vs', hvs'⟩ := AppMemory.exists_arrayValues (hsize a.address) hvs
    exact ⟨mem', vs', hmem', hvs'⟩
  | _ => exact h

theorem checkRange_settles (st : ExecutionStage) (a : AwaitedRange) :
    Ends (checkRange p ⟨s, st⟩ a) w fun flow w' => Settles s w' flow := by
  refine .part <| .bind fun _ w₁ hx => ?_
  split
  · exact .bind fun _ _ _ => .bind fun _ _ _ => .pure (.finished _)
  · refine .bind <| (memory_ends s.appId).mono fun mem w₂ ⟨hw₂, hmem⟩ => .ofExcept fun vs hvs => ?_
    split
    · exact .bind fun _ _ _ => .pure .fetch
    · split
      · exact .bind fun _ _ _ => .bind fun _ _ _ => .pure .fetch
      · refine .bind fun _ w₃ hx => .pure (.rests ⟨mem, vs, ?_, hvs⟩)
        cases hx
        rw [← hw₂] at hmem
        exact hmem

/-- A range that lies in an array can be looked at. -/
theorem checkRange_sure {st : ExecutionStage} {a : AwaitedRange} (h : Firm s.appId w (.waiting a))
    {P : Working (Node n m) n m → Prop} : Halts (checkRange p ⟨s, st⟩ a) w P := by
  obtain ⟨mem, vs, hmem, hvs⟩ := h
  refine .part <| .bind (.of_ok (a := ()) rfl) fun _ w₁ hx => ?_
  have hmem₁ : w₁.part.apps.get? s.appId = some mem := by
    cases hx
    exact hmem
  have hm₁ : (memory s.appId).exec w₁ = (.ok mem, w₁) := by rw [exec_memory, hmem₁]
  have happ : w₁.part.hasApp s.appId = true := Option.isSome_iff_exists.2 ⟨mem, hmem₁⟩
  refine .ite ?_ ?_
  · exact (Attains.next hm₁ <| .bind <| (log_attains _ _ _).mono fun _ _ _ => .pure trivial).halts (Q := fun _ _ => True)
  · refine Halts.bind (.of_ok (congrArg Prod.fst hm₁)) fun mem' w₂ hx => ?_
    obtain ⟨h, rfl⟩ := Prod.mk.inj (hm₁.symm.trans hx)
    cases h
    refine .bind (.of_ok (a := vs) hvs) fun vs' w₃ hx => ?_
    obtain ⟨-, rfl⟩ := Prod.mk.inj hx
    refine .ite ?_ (.ite ?_ ?_)
    · exact .bind (advance_thrifty happ).halts fun _ _ _ => .pure _
    · refine .bind (log_attains _ _ _).halts fun _ w₂ hx => .bind ?_ fun _ _ _ => .pure _
      have ht : Thrifty w₁ w₂ := (log_mild (R := Thrifty) _ _ _).of_exec hx
      exact (advance_thrifty ((ht.hasApp _).trans happ)).halts
    · exact .bind (.of_ok (a := ()) rfl) fun _ _ _ => .pure _

theorem Firm.settles {st : ExecutionStage} (h : Firm s.appId w st) :
    Ends (Execution.step p ⟨s, st⟩) w fun flow w' => Settles s w' flow := by
  cases st with
  | operating c => exact .bind fun _ _ _ => .bind fun _ _ _ => .pure .fetch
  | reading c dest => exact .bind fun _ _ _ => .bind fun _ _ _ => .bind fun _ _ _ => .pure .fetch
  | waiting a => exact .bind fun _ _ _ => checkRange_settles _ a
  | _ => exact h.elim

theorem Firm.sure {st : ExecutionStage} (h : Firm s.appId w st) {P : Working (Node n m) n m → Prop} :
    Halts (Execution.step p ⟨s, st⟩) w P := by
  cases st with
  | operating c =>
    refine .bind (finishCall_attains c).halts fun _ w₁ hx => .bind ?_ fun _ _ _ => .pure _
    have ht : Thrifty w w₁ := (finishCall_mild c).of_exec hx
    exact (advance_thrifty ((ht.hasApp _).trans h)).halts
  | reading c dest => exact (reading_attains c h.2 h.1).halts
  | waiting a =>
    refine .bind (log_attains _ _ _).halts fun _ w₁ hx => checkRange_sure ?_
    have hi : Intact w w₁ := (log_mild _ _ _).of_exec hx
    obtain ⟨mem, vs, hmem, hvs⟩ := h
    exact ⟨mem, vs, by rw [hi.apps, hmem], hvs⟩
  | _ => exact h.elim

/-- An instruction that has nothing to fear does not fail. -/
theorem Firm.not_fails {st : ExecutionStage} (h : Firm s.appId w st) : ¬ Fails p ⟨s, st⟩ stage w f w' := by
  intro hf
  generalize he : (⟨s, st⟩ : Execution) = e at hf
  induction hf generalizing st with
  | raises hx =>
    subst he
    exact h.sure (P := fun _ => False) _ _ hx
  | goes hx hst _ _ =>
    subst he
    cases h.settles _ _ hx with
    | fetch => exact hst rfl
  | rests hx hi _ ih =>
    subst he
    cases h.settles _ _ hx with
    | rests h' => exact ih (h'.interlude hi) rfl

/-- Steps that settle an instruction, and change nothing if they fail. -/
theorem intact_of_settles {st : ExecutionStage} (hhalts : Halts (Execution.step p ⟨s, st⟩) w (Intact w))
    (hends : Ends (Execution.step p ⟨s, st⟩) w fun flow w' => Settles s w' flow) (hf : Fails p ⟨s, st⟩ stage w f w') :
    Intact w w' := by
  cases hf with
  | raises hx => exact hhalts f w' hx
  | goes hx hst _ =>
    cases hends _ _ hx with
    | fetch => exact absurd rfl hst
  | rests hx hi hf =>
    cases hends _ _ hx with
    | rests h => exact absurd hf (h.interlude hi).not_fails

/-! ### The first step -/

variable {lost : List Nat} {i : Instruction}

theorem perform_intact (hc : w.part.Custody stage lost) (hm : w.part.hasApp s.appId = true) (i : Instruction) :
    Halts (perform p ⟨s, .fetch⟩ i) w (Intact w) := by
  have hbranch : Halts (do
      branch s.appId s.size i
      return .go ⟨s, .fetch⟩ : NodeWork n m (Step m)) w (Intact w) := .bind (branch_intact _ _ _) fun _ _ _ => .pure _
  have hquantum : Halts (quantum p ⟨s, .fetch⟩ i) w (Intact w) := quantum_intact p _ i
  have hclassical : Halts (do
      classical s.appId i
      advance s.appId
      return .go ⟨s, .fetch⟩ : NodeWork n m (Step m)) w (Intact w) := by
    refine .bind (classical_intact hc _ _) fun _ w₁ hx => .bind ?_ fun _ _ _ => .pure _
    have hh : Houses s.appId w w₁ := (classical_granting s.appId i).of_exec hx
    exact (advance_thrifty (hh hm)).halts
  cases i with
  | jump _ | branchZero _ _ _ | branch _ _ _ _ => exact hbranch
  | waitAll r =>
    exact .next (resolve_mild _ _) fun _ _ _ => .next (resolve_mild _ _) fun _ _ _ =>
      .next (log_mild _ _ _) fun _ _ _ => checkRange_intact _ _ _
  | init _ | gate _ _ | rotate _ _ _ _ | pairGate _ _ _ | directed _ _ _ _ _ | measure _ _ => exact hquantum
  | _ => exact hclassical

/-- What the first step of an instruction comes to: the instruction settles, or has begun to bring a qubit to the electron. -/
inductive Opens (s : Subroutine) (w w' : Working (Node n m) n m) : Step m → Prop where
  | settles {flow : Step m} (h : Settles s w' flow) : Opens s w w' flow
  | measures {virt : Int} {dest : Register} {target : Nat} (hi : Intact w w') (hnv : w.part.device.config.isNV = true)
      (hd : dest.Legible) (hm : w.part.Maps s.appId virt target) :
      Opens s w w' (.go ⟨s, .relocating ⟨virt, dest, target, 0⟩ (relocationPlan target (w'.part.pool.isAllocated 0))⟩)

theorem Opens.of_intact {w₁ : Working (Node n m) n m} {flow : Step m} (h : Opens s w₁ w' flow) (hi : Intact w w₁) :
    Opens s w w' flow := by
  cases h with
  | settles h => exact .settles h
  | measures hi' hnv hd hm =>
    exact .measures (IsTrans.trans _ _ _ hi hi') (hi.device ▸ hnv) hd ((maps_congr hi.apps _ _ _).1 hm)

theorem operate_opens (c : DeviceCall) (hm : w.part.hasApp s.appId = true) :
    Ends (operate p ⟨s, .fetch⟩ c) w fun flow w' => Opens s w w' flow :=
  (startCall_mild p c).still.thrifty.next fun _ _ h₁ => .pure (.settles (.rests ((h₁.hasApp _).trans hm)))

theorem beginReadout_opens {dest : Register} (hd : dest.Legible) (hnv : w.part.device.config.isNV = true) (virt : Int) :
    Ends (beginReadout ⟨s, .fetch⟩ virt dest) w fun flow w' => Opens s w w' flow := by
  refine .bind <| (memory_ends s.appId).mono fun mem w₁ ⟨hw, hmem⟩ => .ofExcept fun target htarget => ?_
  subst hw
  cases target with
  | none => exact .fail _
  | some target => exact .part (.pure (.measures (Std.Refl.refl _) hnv hd ⟨mem, hmem, htarget⟩))

theorem quantum_opens (hi : i.Legible) (hm : w.part.hasApp s.appId = true) :
    Ends (quantum p ⟨s, .fetch⟩ i) w fun flow w' => Opens s w w' flow := by
  have hno : ∀ i, Ends (unsupported i : NodeWork n m (Step m)) w fun flow w' => Opens s w w' flow :=
    fun i => unsupported_ends i
  have hone : ∀ (q : Register) (c : Nat → DeviceCall), Ends (do
      operate p ⟨s, .fetch⟩ (c (← position s.appId q)) : NodeWork n m (Step m)) w fun flow w' => Opens s w w' flow :=
    fun q c => (position_mild (R := Intact) _ _).next fun _ _ h₁ =>
      (operate_opens _ ((h₁.thrifty.hasApp _).trans hm)).mono fun _ _ h => h.of_intact h₁
  have htwo : ∀ (q q' : Register) (c : Nat → Nat → DeviceCall), Ends (do
      let a ← position s.appId q
      operate p ⟨s, .fetch⟩ (c a (← position s.appId q')) : NodeWork n m (Step m)) w fun flow w' => Opens s w w' flow :=
    fun q q' c => (position_mild (R := Intact) _ _).next fun _ _ h₁ => (position_mild (R := Intact) _ _).next fun _ _ h₂ =>
      have h₂ : Intact w _ := IsTrans.trans _ _ _ h₁ h₂
      (operate_opens _ ((h₂.thrifty.hasApp _).trans hm)).mono fun _ _ h => h.of_intact h₂
  refine .part ?_
  dsimp only
  split
  · exact hone _ _
  · split
    · exact hno _
    · exact hone _ _
  · exact hone _ _
  · split
    · exact hno _
    · exact htwo _ _ _
  · split
    · exact htwo _ _ _
    · exact hno _
  · rename_i q dest
    have hd : dest.Legible := hi (.register dest) (List.mem_cons_of_mem _ (List.mem_singleton_self _))
    split
    · rename_i hnv
      refine (resolveRegister_mild (R := Intact) _ _).next fun _ w₁ h₁ => ?_
      exact (beginReadout_opens hd (h₁.device ▸ hnv) _).mono fun _ _ h => h.of_intact h₁
    · refine (position_mild (R := Intact) _ _).next fun _ _ h₁ => (startCall_mild _ _).still.thrifty.next fun _ _ h₂ => ?_
      exact .pure (.settles (.rests ⟨((h₁.thrifty.trans h₂).hasApp _).trans hm, hd⟩))
  · exact hno _

theorem perform_opens (hi : i.Legible) (hm : w.part.hasApp s.appId = true) :
    Ends (perform p ⟨s, .fetch⟩ i) w fun flow w' => Opens s w w' flow := by
  cases i with
  | jump _ | branchZero _ _ _ | branch _ _ _ _ => exact .bind fun _ _ _ => .pure (.settles .fetch)
  | waitAll r =>
    exact .bind fun _ _ _ => .bind fun _ _ _ => .bind fun _ _ _ => (checkRange_settles _ _).mono fun _ _ h => .settles h
  | init _ | gate _ _ | rotate _ _ _ _ | pairGate _ _ _ | directed _ _ _ _ _ | measure _ _ => exact quantum_opens hi hm
  | _ => exact .bind fun _ _ _ => .bind fun _ _ _ => .pure (.settles .fetch)

/-- The steps of a readout that are left once the qubit is known to be at a slot. -/
theorem relocation_intact {virt : Int} {dest : Register} {target : Nat} (hc : w.part.Custody stage lost)
    (hnv : w.part.device.config.isNV = true) (hd : dest.Legible) (hm : w.part.Maps s.appId virt target)
    (hf : Fails p ⟨s, .relocating ⟨virt, dest, target, 0⟩ (relocationPlan target (w.part.pool.isAllocated 0))⟩ stage w f w') :
    Intact w w' := by
  by_cases h0 : target = 0
  · -- The qubit is at the electron already, and is measured there.
    subst h0
    rw [relocationPlan, if_pos rfl] at hf
    refine intact_of_settles ?_ ?_ hf
    · exact .next (log_mild _ _ _) fun _ _ _ => .bind (startCall_intact _ _) fun _ _ _ => .pure _
    · refine (log_mild (R := Thrifty) _ _ _).next fun _ _ h₁ => (startCall_mild _ _).still.thrifty.next fun _ _ h₂ => ?_
      exact .pure (.rests ⟨((h₁.trans h₂).hasApp _).trans hm.hasApp, hd⟩)
  · exact ((relocation_ensues hc hnv hm h0 hd).raised hf).1

/-- An instruction that fails, whenever it does and whatever the pair service does meanwhile, has changed nothing: the
memories of all applications, the slots, the quantum state and the queue of requests are as they were. -/
theorem failing_instructions_change_nothing {text : String} (h : Subroutine.parse text = .ok s)
    (hc : w.part.Custody stage lost) (hf : Fails p ⟨s, .fetch⟩ stage w f w') : Intact w w' := by
  have hl : s.Legible := Subroutine.legible_of_parse h
  have hcount : Within Intact (modifyPart fun node => { node with executed := node.executed + 1 } : NodeWork n m Unit) :=
    fun _ => ⟨rfl, rfl, rfl, rfl, rfl⟩
  have hhalts : Halts (Execution.step p ⟨s, .fetch⟩) w (Intact w) := by
    refine .bind (.of_within (memory_mild _) fun _ h => h) <| (memory_ends _).mono fun mem w₁ ⟨hw, hmem⟩ => ?_
    subst hw
    dsimp only
    split
    · exact .pure _
    · refine .next (log_mild _ _ _) fun _ w₂ h₂ => .next hcount fun _ w₃ h₃ => ?_
      have h₃ : Intact w₁ w₃ := IsTrans.trans _ _ _ h₂ h₃
      exact perform_intact (hc.intact h₃) ((h₃.thrifty.hasApp _).trans (Option.isSome_iff_exists.2 ⟨mem, hmem⟩)) _
  have hends : Ends (Execution.step p ⟨s, .fetch⟩) w fun flow w' => Opens s w w' flow := by
    refine .bind <| (memory_ends _).mono fun mem w₁ ⟨hw, hmem⟩ => ?_
    subst hw
    dsimp only
    split
    · exact .pure (.settles (.finished _))
    · rename_i i hi
      refine (log_mild (R := Intact) _ _ _).next fun _ w₂ h₂ => hcount.next fun _ w₃ h₃ => ?_
      have h₃ : Intact w₁ w₃ := IsTrans.trans _ _ _ h₂ h₃
      have happ := (h₃.thrifty.hasApp s.appId).trans (Option.isSome_iff_exists.2 ⟨mem, hmem⟩)
      exact (perform_opens (hl.instructions i (List.mem_of_getElem? hi)) happ).mono fun _ _ h => h.of_intact h₃
  cases hf with
  | raises hx => exact hhalts f w' hx
  | goes hx hst hf =>
    cases hends _ _ hx with
    | settles h =>
      cases h with
      | fetch => exact absurd rfl hst
    | measures hi hnv hd hm =>
      refine IsTrans.trans _ _ _ hi (relocation_intact (hc.intact hi) (hi.device ▸ hnv) hd ?_ hf)
      exact (maps_congr hi.apps _ _ _).2 hm
  | rests hx hi hf =>
    cases hends _ _ hx with
    | settles h =>
      cases h with
      | rests h => exact absurd hf (h.interlude hi).not_fails

/-- A qubit is asked for under a virtual id that has one: the slot that was taken for it goes back. -/
theorem failing_instructions_change_nothing_of_two_tenants :
    let s : Subroutine := ⟨0, "1.0", [.qalloc ⟨.Q, 0⟩]⟩
    let w := twoTenants.atWork
    Subroutine.parse "QALLOC Q0" = .ok s ∧ w.part.Custody .idle [] ∧
      ∃ f w', Fails 0 ⟨s, .fetch⟩ .idle w f w' ∧ Intact w w' := by
  intro s w
  have hparse : Subroutine.parse "QALLOC Q0" = .ok s := by decide +kernel
  have hno : ((step 0 ⟨s, .fetch⟩).exec w).1.isOk = false := by decide +kernel
  rcases hx : (step 0 ⟨s, .fetch⟩).exec w with ⟨f | flow, w'⟩
  · have hf : Fails 0 ⟨s, .fetch⟩ .idle w f w' := .raises hx
    exact ⟨hparse, twoTenants_custody, f, w', hf, failing_instructions_change_nothing hparse twoTenants_custody hf⟩
  · rw [hx] at hno
    exact nomatch hno

end Execution

end QuantumNode
