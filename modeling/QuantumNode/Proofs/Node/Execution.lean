import QuantumNode.Node.Execution
import QuantumNode.Proofs.Memory.Application
import QuantumNode.Proofs.Node.Primitive

/-! Executing a subroutine takes no part in the exchange between pair services, and most instructions leave
qubits alone. -/
namespace QuantumNode.Execution

open Node Work Working

variable {n m : Nat} {R : Working (Node n m) n m → Working (Node n m) n m → Prop}

section Watching

variable [Watching R]

theorem resolve_mild (app : Int) (v : Value) : Within R (resolve app v : NodeWork n m Int) :=
  (memory_mild app).bind fun _ => .ofExcept _

theorem resolveRegister_mild (app : Int) (r : Register) : Within R (resolveRegister app r : NodeWork n m Int) :=
  resolve_mild _ _

theorem position_mild (app : Int) (r : Register) : Within R (position app r : NodeWork n m Nat) :=
  (resolveRegister_mild app r).bind fun _ => (memory_mild app).bind fun _ => Within.bind (.ofExcept _) fun q => by
    cases q with
    | some _ => exact .pure _
    | none => exact (log_mild _ _ _).bind fun _ => .fail _

theorem unsupported_mild (i : Instruction) : Within R (unsupported i : NodeWork n m (Step m)) :=
  (log_mild _ _ _).bind fun _ => Within.part.bind fun _ => .fail _

theorem branchTarget?_mild (app : Int) (i : Instruction) :
    Within R (branchTarget? app i : NodeWork n m (Option Int)) := by
  unfold branchTarget?
  split
  · exact .pure _
  · exact (resolveRegister_mild _ _).bind fun _ => .pure _
  · exact (resolve_mild _ _).bind fun _ => (resolve_mild _ _).bind fun _ => .pure _
  · exact .pure _

theorem modular_mild (app : Int) (i : Instruction) (op : ArithmeticOp) (left right modulus : Value) :
    Within R (modular app i op left right modulus : NodeWork n m Int) :=
  (resolve_mild _ _).bind fun _ => .ite ((log_mild _ _ _).bind fun _ => .fail _)
    ((resolve_mild _ _).bind fun _ => (resolve_mild _ _).bind fun _ => .pure _)

theorem arithmetic_mild (app : Int) (i : Instruction) (op : ArithmeticOp) (left right : Value) :
    Within R (arithmetic app i op left right : NodeWork n m Int) :=
  (resolve_mild _ _).bind fun a => (resolve_mild _ _).bind fun b => by
    cases (Words.wrapping.total op a b).run with
    | some _ => exact .pure _
    | none => exact (log_mild _ _ _).bind fun _ => .fail _

theorem logProbabilities_mild : Within R (logProbabilities : NodeWork n m Unit) :=
  Within.get.bind fun _ => .forM (fun _ => Within.bind (.ofExcept _) fun _ => log_mild _ _ _) _

theorem breakpoint_mild (app action role : Int) : Within R (breakpoint app action role : NodeWork n m Unit) := by
  unfold breakpoint
  split
  · exact log_mild _ _ _
  · exact (memory_mild app).bind fun _ => (log_mild _ _ _).bind fun _ => logProbabilities_mild
  · exact log_mild _ _ _
  · exact (log_mild _ _ _).bind fun _ => .fail _

theorem beginReadout_mild (e : Execution) (virt : Int) (dest : Register) :
    Within R (beginReadout e virt dest : NodeWork n m (Step m)) :=
  (memory_mild e.app).bind fun _ => Within.bind (.ofExcept _) fun q => by
    cases q with
    | none => exact .fail _
    | some _ => exact Within.part.bind fun _ => .pure _

end Watching

section Placid

variable [Placid R]

theorem setRegister_mild (app : Int) [Filling app R] (r : Register) (v : Option Int) :
    Within R (setRegister app r v : NodeWork n m Unit) :=
  updateMemory_filling app fun _ _ h => AppMemory.setRegister_alike h

theorem allocateFor_pooling [Pooling R] (app virt : Int) : Within R (allocateFor app virt : NodeWork n m Nat) :=
  Within.bind allocate_pooling.attempt fun r => by
    cases r with
    | ok _ => exact .pure _
    | error _ => exact (log_mild _ _ _).bind fun _ => .fail _

theorem qalloc_granting [Pooling R] (app : Int) [Granting app R] (r : Register) : Within R (qalloc app r : NodeWork n m Unit) :=
  (resolveRegister_mild app r).bind fun _ => (allocateFor_pooling _ _).bind fun _ =>
    Within.bind (mapQubit_housing _ _).attempt fun r => by
      cases r with
      | ok _ => exact (log_mild _ _ _)
      | error _ => exact (releaseSlot_pooling _).bind fun _ => .fail _

theorem qfree_granting [Pooling R] (app : Int) [Granting app R] (r : Register) : Within R (qfree app r : NodeWork n m Unit) :=
  (resolveRegister_mild app r).bind fun _ => (position_mild app r).bind fun _ =>
    (updateMemory_housing fun _ _ => AppMemory.unmapQubit_remaps).bind fun _ => freeQubit_pooling _

theorem requestPairs_mild (r : EntanglementRequest) : Within R (requestPairs r : NodeWork n m Unit) :=
  (log_mild _ _ _).bind fun _ => submit_mild r

theorem createPairs_mild (app : Int) (remote socket qubits arguments results : Value) :
    Within R (createPairs app remote socket qubits arguments results : NodeWork n m Unit) :=
  (resolve_mild _ _).bind fun _ => (resolve_mild _ _).bind fun _ => (resolve_mild _ _).bind fun _ =>
    (resolve_mild _ _).bind fun _ => (resolve_mild _ _).bind fun _ => requestPairs_mild _

theorem receivePairs_mild (app : Int) (remote socket qubits results : Value) :
    Within R (receivePairs app remote socket qubits results : NodeWork n m Unit) :=
  (resolve_mild _ _).bind fun _ => (resolve_mild _ _).bind fun _ => (resolve_mild _ _).bind fun _ =>
    (resolve_mild _ _).bind fun _ => requestPairs_mild _

omit [Placid R] in
theorem waitForWrite_mild (p : ProcessId) [Drowsy p R] : Within R (waitForWrite p : NodeWork n m Unit) :=
  fun w => Drowsy.write w

omit [Placid R] in
theorem takeFailure_alike {π : Type} (s : PairService n π) (app : Int) : s.Alike (s.takeFailure app).2 :=
  ⟨rfl, rfl, rfl, rfl, rfl, fun _ h => h, fun _ h => (List.mem_filter.1 h).1, fun _ _ _ h => h⟩

/-- Instructions that take or return a qubit of their own. -/
def takesQubit : Instruction → Bool
  | .qalloc _ | .qfree _ => true
  | _ => false

theorem classical_mild (app : Int) [Filling app R] {i : Instruction} (h : takesQubit i = false) :
    Within R (classical app i : NodeWork n m Unit) := by
  unfold classical
  split
  · exact setRegister_mild _ _ _
  · exact nomatch h
  · exact nomatch h
  · exact updateMemory_filling app fun _ _ h => AppMemory.store_alike h
  · exact updateMemory_filling app fun _ _ h => AppMemory.load_alike h
  · exact updateMemory_filling app fun _ _ h => AppMemory.setEntry_alike h
  · exact setRegister_mild _ _ _
  · exact (resolve_mild _ _).bind fun _ => .ite (.fail _) ((log_mild _ _ _).bind fun _ =>
      updateMemory_filling app fun _ _ h => by
        cases h
        exact ⟨rfl, rfl⟩)
  · exact (arithmetic_mild _ _ _ _ _).bind fun _ => setRegister_mild _ _ _
  · exact (modular_mild _ _ _ _ _ _).bind fun _ => setRegister_mild _ _ _
  · exact createPairs_mild _ _ _ _ _ _
  · exact receivePairs_mild _ _ _ _ _
  · exact breakpoint_mild _ _ _
  · exact .pure _

theorem classical_granting [Pooling R] (app : Int) [Granting app R] (i : Instruction) :
    Within R (classical app i : NodeWork n m Unit) := by
  cases h : takesQubit i with
  | false => exact (classical_mild app h)
  | true =>
    cases i with
    | qalloc q => exact qalloc_granting _ _
    | qfree q => exact qfree_granting _ _
    | _ => exact nomatch h

theorem operate_mild (p : ProcessId) [Drowsy p R] (e : Execution) (c : DeviceCall) :
    Within R (operate p e c : NodeWork n m (Step m)) :=
  (startCall_mild p c).bind fun _ => .pure _

theorem quantum_mild (p : ProcessId) [Drowsy p R] (e : Execution) (i : Instruction) :
    Within R (quantum p e i : NodeWork n m (Step m)) :=
  Within.part.bind fun _ => by
    split
    · exact (position_mild _ _).bind fun _ => operate_mild _ _ _
    · exact .ite (unsupported_mild _) ((position_mild _ _).bind fun _ => operate_mild _ _ _)
    · exact (position_mild _ _).bind fun _ => operate_mild _ _ _
    · exact .ite (unsupported_mild _) ((position_mild _ _).bind fun _ => (position_mild _ _).bind fun _ =>
        operate_mild _ _ _)
    · exact .ite ((position_mild _ _).bind fun _ => (position_mild _ _).bind fun _ => operate_mild _ _ _)
        (unsupported_mild _)
    · exact .ite ((resolveRegister_mild _ _).bind fun _ => beginReadout_mild _ _ _)
        ((position_mild _ _).bind fun _ => (startCall_mild _ _).bind fun _ => .pure _)
    · exact unsupported_mild _

theorem countExecuted_mild :
    Within R (modifyPart fun node => { node with executed := node.executed + 1 } : NodeWork n m Unit) :=
  modifyPart_mild fun _ => ⟨rfl, rfl, rfl, rfl, rfl, rfl, rfl, rfl, rfl, rfl⟩

theorem beginMove_mild (p : ProcessId) [Drowsy p R] (e : Execution) (r : Readout) (owner : Option (Int × Int))
    (steps : List RelocationStep) (calls : List DeviceCall) :
    Within R (beginMove p e r owner steps calls : NodeWork n m (Step m)) := by
  cases calls with
  | nil => exact .pure _
  | cons c calls => exact (startCall_mild _ _).bind fun _ => .pure _

theorem claimElectron_granting (app virt : Int) [Granting app R] : Within R (claimElectron app virt : NodeWork n m Unit) :=
  (updateMemory_housing fun _ _ => AppMemory.unmapQubit_remaps).bind fun _ => mapQubit_housing _ _

theorem allocateSpare_pooling [Pooling R] (r : Readout) : Within R (allocateSpare r : NodeWork n m Nat) :=
  Within.bind allocate_pooling.attempt fun r => by
    cases r with
    | ok _ => exact .pure _
    | error _ => exact (log_mild _ _ _).bind fun _ => .fail _

theorem electronOwner_pooling [Pooling R] (r : Readout) : Within R (electronOwner r : NodeWork n m (Int × Int)) :=
  Within.part.bind fun _ => by
    split
    · exact .pure _
    · exact (releaseSlot_pooling _).bind fun _ => (log_mild _ _ _).bind fun _ => .fail _

theorem exchangeOwners_granting (e : Execution) (r : Readout) (owner : Int × Int) [Granting e.app R] [Granting owner.1 R] :
    Within R (exchangeOwners e r owner : NodeWork n m Unit) :=
  (log_mild _ _ _).bind fun _ => (updateMemory_housing fun _ _ => AppMemory.unmapQubit_remaps).bind fun _ =>
    (mapQubit_housing _ _).bind fun _ => (claimElectron_granting _ _).bind fun _ =>
      modifyPart_mild fun _ => ⟨rfl, rfl, rfl, rfl, rfl, rfl, rfl, rfl, rfl, rfl⟩

theorem relocate_granting [Pooling R] (p : ProcessId) [Drowsy p R] (e : Execution) [Granting e.app R] (r : Readout)
    (s : RelocationStep) (steps : List RelocationStep) : Within R (relocate p e r s steps : NodeWork n m (Step m)) :=
  (log_mild _ _ _).bind fun _ => by
    cases s with
    | allocateElectron =>
      exact allocateCommunication_pooling.bind fun _ => (claimElectron_granting _ _).bind fun _ => .pure _
    | allocateFreeCarbon => exact (allocateSpare_pooling r).bind fun _ => .pure _
    | moveElectronToCarbon => exact (electronOwner_pooling r).bind fun _ => (beginMove_mild _ _ _ _ _ _)
    | moveCarbonToElectron => exact (beginMove_mild _ _ _ _ _ _)
    | freeCarbon => exact (freeQubit_pooling _).bind fun _ => .pure _
    | measureElectron => exact (startCall_mild _ _).bind fun _ => .pure _

end Placid

/-! What moves the program counter. -/

section Counting

variable [Placid R]

theorem advance_counting (app : Int) [Counting app R] : Within R (advance app : NodeWork n m Unit) :=
  updateMemory_counting app fun mem => (mem.pc + 1) % Word.size64

theorem goTo_counting (app : Int) [Counting app R] (size : Nat) (target : Int) :
    Within R (goTo app size target : NodeWork n m Unit) :=
  .ite ((log_mild _ _ _).bind fun _ => .fail _)
    ((log_mild _ _ _).bind fun _ => updateMemory_counting app fun _ => target.toNat)

theorem branch_counting (app : Int) [Counting app R] (size : Nat) (i : Instruction) :
    Within R (branch app size i : NodeWork n m Unit) :=
  (branchTarget?_mild app i).bind fun target => by
    cases target with
    | some _ => exact goTo_counting _ _ _
    | none => exact advance_counting _

theorem checkRange_counting (p : ProcessId) [Drowsy p R] (e : Execution) [Counting e.app R] (a : AwaitedRange) :
    Within R (checkRange p e a : NodeWork n m (Step m)) :=
  .of_part fun w => by
    dsimp only
    refine IsTrans.trans w _ _ (Placid.flags w (w.part.service.takeFailure e.app).2 (takeFailure_alike _ _) rfl)
      (Within.ite ?_ ?_ { w with part := { w.part with service := (w.part.service.takeFailure e.app).2 } })
    · exact (memory_mild e.app).bind fun _ => (log_mild _ _ _).bind fun _ => .pure _
    · exact (memory_mild e.app).bind fun _ => Within.bind (.ofExcept _) fun _ =>
        .ite ((advance_counting _).bind fun _ => .pure _) (.ite
          ((log_mild _ _ _).bind fun _ => (advance_counting _).bind fun _ => .pure _)
          ((waitForWrite_mild p).bind fun _ => .pure _))

theorem waitAll_counting (p : ProcessId) [Drowsy p R] (e : Execution) [Counting e.app R] (s : ArraySlice) :
    Within R (waitAll p e s : NodeWork n m (Step m)) :=
  (resolve_mild _ _).bind fun _ => (resolve_mild _ _).bind fun _ => (log_mild _ _ _).bind fun _ =>
    checkRange_counting _ _ _

theorem perform_granting [Pooling R] (p : ProcessId) [Drowsy p R] (e : Execution) [Counting e.app R] [Granting e.app R]
    (i : Instruction) :
    Within R (perform p e i : NodeWork n m (Step m)) := by
  cases i with
  | jump _ => exact (branch_counting _ _ _).bind fun _ => .pure _
  | branchZero _ _ _ => exact (branch_counting _ _ _).bind fun _ => .pure _
  | branch _ _ _ _ => exact (branch_counting _ _ _).bind fun _ => .pure _
  | waitAll _ => exact (waitAll_counting _ _ _)
  | init _ => exact (quantum_mild _ _ _)
  | gate _ _ => exact (quantum_mild _ _ _)
  | rotate _ _ _ _ => exact (quantum_mild _ _ _)
  | pairGate _ _ _ => exact (quantum_mild _ _ _)
  | directed _ _ _ _ _ => exact (quantum_mild _ _ _)
  | measure _ _ => exact (quantum_mild _ _ _)
  | _ => exact (classical_granting _ _).bind fun _ => (advance_counting _).bind fun _ => .pure _

theorem fetch_granting [Pooling R] (p : ProcessId) [Drowsy p R] (e : Execution) [Counting e.app R] [Granting e.app R] :
    Within R (fetch p e : NodeWork n m (Step m)) :=
  (memory_mild e.app).bind fun mem => by
    dsimp only
    split
    · exact .pure _
    · exact (log_mild _ _ _).bind fun _ => countExecuted_mild.bind fun _ => perform_granting _ _ _

/-- A step of a subroutine changes the memory of its application, and of the one whose qubit makes way for it. -/
theorem step_granting [Pooling R] (p : ProcessId) [Drowsy p R] (e : Execution) [Counting e.app R] [Granting e.app R]
    (ho : ∀ r owner c steps, e.stage = .moving r (some owner) c [] steps → Granting owner.1 R) :
    Within R (step p e : NodeWork n m (Step m)) := by
  unfold step
  split
  · exact (updateMemory_counting e.app fun _ => 0).bind fun _ => (log_mild _ _ _).bind fun _ => .pure _
  · exact fetch_granting _ _
  · exact (finishCall_mild _).bind fun _ => (advance_counting _).bind fun _ => .pure _
  · exact (finishCall_mild _).bind fun _ => (setRegister_mild _ _ _).bind fun _ =>
      (advance_counting _).bind fun _ => .pure _
  · exact .pure _
  · exact relocate_granting _ _ _ _ _
  · rename_i r owner c steps hstage
    refine (finishCall_mild _).bind fun _ => Within.bind ?_ fun _ => .pure _
    cases owner with
    | none => exact .pure _
    | some owner =>
      have := ho r owner c steps hstage
      exact exchangeOwners_granting e r owner
  · exact (finishCall_mild _).bind fun _ => (beginMove_mild _ _ _ _ _ _)
  · exact (log_mild _ _ _).bind fun _ => (checkRange_counting _ _ _)

end Counting

/-- A step of an execution tells nobody anything. -/
theorem step_lavish [Placid R] [Lavish R] (p : ProcessId) [Drowsy p R] (e : Execution) :
    Within R (step p e : NodeWork n m (Step m)) :=
  step_granting p e fun _ _ _ _ _ => inferInstance

/-! What small pieces of work come to. -/

theorem log_ends {w : Working (Node n m) n m} (level : LogLevel) (kind text : String) :
    Ends (Node.log level kind text) w fun _ w' => w'.part = w.part := fun _ w' he => by
  obtain ⟨-, rfl⟩ := Prod.mk.inj he
  rfl

theorem exec_resolve_of_ok {w : Working (Node n m) n m} {app : Int} {mem : AppMemory} (hw : w.part.apps.get? app = some mem)
    {v : Value} {x : Int} (h : mem.resolve v = .ok x) : (resolve app v).exec w = (.ok x, w) := by
  simp only [resolve, exec_bind, exec_memory, hw, exec_ofExcept, h]

theorem memory_ends {w : Working (Node n m) n m} (app : Int) :
    Ends (memory app) w fun mem w' => w' = w ∧ w.part.apps.get? app = some mem := by
  refine .part ?_
  split
  · rename_i mem hmem
    exact .pure ⟨rfl, hmem⟩
  · exact .fail _

/-! How a subroutine goes on. -/

/-- What an instruction that begins no readout comes to: the next one is to be fetched, the device or a range is waited
for, or the subroutine ends. -/
inductive Plain (e : Execution) : Step m → Prop where
  | fetch : Plain e (.go { e with stage := .fetch })
  | operating (c : DeviceCall) : Plain e (.rest { e with stage := .operating c })
  | reading (c : DeviceCall) (dest : Register) : Plain e (.rest { e with stage := .reading c dest })
  | waiting (a : AwaitedRange) : Plain e (.rest { e with stage := .waiting a })
  | finished (status : ExecutionStatus) : Plain e (.finished status)

/-- What an instruction comes to, at the node that it leaves. A readout begins with a whole plan, and only on an NV
device. -/
inductive Leads (e : Execution) (node : Node n m) : Step m → Prop where
  | plain {flow : Step m} (h : Plain e flow) : Leads e node flow
  | measuring (hnv : node.device.config.isNV = true) (r : Readout) :
      Leads e node (.go { e with stage := .relocating r (relocationPlan r.target (node.pool.isAllocated 0)) })

section Leads

variable (p : ProcessId) (e : Execution) {w : Working (Node n m) n m}

theorem leads_of_plain {x : NodeWork n m (Step m)} (h : Yields (Plain e) x) :
    Ends x w fun flow w' => Leads e w'.part flow :=
  (h w).mono fun _ _ h => .plain h

theorem unsupported_plain (i : Instruction) : Yields (Plain e) (unsupported i : NodeWork n m (Step m)) :=
  .bind fun _ => .bind fun _ => .fail _

theorem checkRange_plain (a : AwaitedRange) : Yields (Plain e) (checkRange p e a : NodeWork n m (Step m)) :=
  .bind fun _ => .bind fun _ => .ite (.bind fun _ => .bind fun _ => .pure (.finished _))
    (.bind fun _ => .bind fun _ => .ite (.bind fun _ => .pure .fetch)
      (.ite (.bind fun _ => .bind fun _ => .pure .fetch) (.bind fun _ => .pure (.waiting a))))

theorem waitAll_plain (s : ArraySlice) : Yields (Plain e) (waitAll p e s : NodeWork n m (Step m)) :=
  .bind fun _ => .bind fun _ => .bind fun _ => checkRange_plain p e _

theorem operate_plain (c : DeviceCall) : Yields (Plain e) (operate p e c : NodeWork n m (Step m)) :=
  .bind fun _ => .pure (.operating c)

theorem beginReadout_leads (virt : Int) (dest : Register) (hnv : w.part.device.config.isNV = true) :
    Ends (beginReadout e virt dest) w fun flow w' => Leads e w'.part flow := by
  refine .bind <| (memory_ends e.app).mono fun mem w₁ ⟨hw, _⟩ => .ofExcept fun q _ => ?_
  rw [hw]
  cases q with
  | none => exact .fail _
  | some target => exact .part (.pure (.measuring hnv ⟨virt, dest, target, 0⟩))

theorem quantum_leads (i : Instruction) : Ends (quantum p e i) w fun flow w' => Leads e w'.part flow := by
  have hgate : ∀ {b : Bool} {x : NodeWork n m (Step m)}, Yields (Plain e) x →
      Yields (Plain e) (if b then unsupported i else x) ∧ Yields (Plain e) (if b then x else unsupported i) :=
    fun hx => ⟨.ite (unsupported_plain e i) hx, .ite hx (unsupported_plain e i)⟩
  refine .part ?_
  dsimp only
  split
  · exact leads_of_plain e (.bind fun _ => operate_plain p e _)
  · exact leads_of_plain e (hgate (.bind fun _ => operate_plain p e _)).1
  · exact leads_of_plain e (.bind fun _ => operate_plain p e _)
  · exact leads_of_plain e (hgate (.bind fun _ => .bind fun _ => operate_plain p e _)).1
  · exact leads_of_plain e (hgate (.bind fun _ => .bind fun _ => operate_plain p e _)).2
  · split
    · rename_i hnv
      refine (resolveRegister_mild (R := Thrifty) _ _).next fun virt w₁ hw => beginReadout_leads e virt _ ?_
      rw [hw.config]
      exact hnv
    · exact leads_of_plain e (.bind fun _ => .bind fun _ => .pure (.reading _ _))
  · exact leads_of_plain e (unsupported_plain e i)

theorem perform_leads (i : Instruction) : Ends (perform p e i) w fun flow w' => Leads e w'.part flow := by
  cases i with
  | jump _ => exact leads_of_plain e (.bind fun _ => .pure .fetch)
  | branchZero _ _ _ => exact leads_of_plain e (.bind fun _ => .pure .fetch)
  | branch _ _ _ _ => exact leads_of_plain e (.bind fun _ => .pure .fetch)
  | waitAll _ => exact leads_of_plain e (waitAll_plain p e _)
  | init _ => exact quantum_leads p e (.init _)
  | gate _ _ => exact quantum_leads p e (.gate _ _)
  | rotate _ _ _ _ => exact quantum_leads p e (.rotate _ _ _ _)
  | pairGate _ _ _ => exact quantum_leads p e (.pairGate _ _ _)
  | directed _ _ _ _ _ => exact quantum_leads p e (.directed _ _ _ _ _)
  | measure _ _ => exact quantum_leads p e (.measure _ _)
  | _ => exact leads_of_plain e (.bind fun _ => .bind fun _ => .pure .fetch)

theorem fetch_leads : Ends (fetch p e) w fun flow w' => Leads e w'.part flow := .bind fun mem w₁ _ => by
  dsimp only
  split
  · exact .pure (.plain (.finished _))
  · exact .bind fun _ _ _ => .bind fun _ _ _ => perform_leads p e _

end Leads

/-! Links are asked by pair services alone. -/

/-- Work on a subroutine that asks no link. -/
def Local (x : NodeWork n m (Step m)) : Prop := Yields (fun flow => flow.asks = false) x

theorem Plain.asks {e : Execution} {flow : Step m} (h : Plain e flow) : flow.asks = false := by
  cases h with
  | _ => rfl

theorem Leads.asks {e : Execution} {node : Node n m} {flow : Step m} (h : Leads e node flow) : flow.asks = false := by
  cases h with
  | plain h => exact h.asks
  | measuring _ _ => rfl

theorem beginMove_local (p : ProcessId) (e : Execution) (r : Readout) (owner : Option (Int × Int))
    (steps : List RelocationStep) (calls : List DeviceCall) :
    Local (beginMove p e r owner steps calls : NodeWork n m (Step m)) := by
  cases calls with
  | nil => exact .pure rfl
  | cons c calls => exact .bind fun _ => .pure rfl

theorem relocate_local (p : ProcessId) (e : Execution) (r : Readout) (s : RelocationStep)
    (steps : List RelocationStep) : Local (relocate p e r s steps : NodeWork n m (Step m)) :=
  .bind fun _ => by
    cases s with
    | allocateElectron => exact .bind fun _ => .bind fun _ => .pure rfl
    | allocateFreeCarbon => exact .bind fun _ => .pure rfl
    | moveElectronToCarbon => exact .bind fun _ => beginMove_local _ _ _ _ _ _
    | moveCarbonToElectron => exact beginMove_local _ _ _ _ _ _
    | freeCarbon => exact .bind fun _ => .pure rfl
    | measureElectron => exact .bind fun _ => .pure rfl

theorem step_local (p : ProcessId) (e : Execution) : Local (step p e : NodeWork n m (Step m)) := by
  unfold step
  split
  · exact .bind fun _ => .bind fun _ => .pure rfl
  · exact fun _ => (fetch_leads p e).mono fun _ _ h => h.asks
  · exact .bind fun _ => .bind fun _ => .pure rfl
  · exact .bind fun _ => .bind fun _ => .bind fun _ => .pure rfl
  · exact .pure rfl
  · exact relocate_local _ _ _ _ _
  · exact .bind fun _ => .bind fun _ => .pure rfl
  · exact .bind fun _ => beginMove_local _ _ _ _ _ _
  · exact .bind fun _ => (checkRange_plain p e _).mono fun _ h => h.asks

end QuantumNode.Execution
