import QuantumNode.Proofs.Node.Execution
import QuantumNode.Proofs.Subroutine.Operand

/-! Which faults end an execution: each has to do with the application's memory, with a qubit, with the device or with
an instruction that asks for too much. -/
namespace QuantumNode

open Work

variable {n m : Nat}

/-- Faults that an execution may end in, as long as its registers exist. -/
def Fault.ofExecution : Fault → Bool
  | applicationMissing .. | registerUnset _ | arrayUndeclared _ | indexOutOfRange .. | sliceOutOfRange ..
  | negativeLength .. => true
  | virtualOutOfRange .. | virtualMapped .. | physicalUsed .. | physicalUsedByApp .. | qubitUnallocated _
  | poolExhausted | communicationExhausted | freedUnallocated _ | electronBusy => true
  | positionCount _ | operandPosition .. | samePosition _ | unavailableGeneric _ | unavailableNV ..
  | positionOutOfRange _ => true
  | unsupported .. | unknownBreakpoint _ | branchOutOfRange _ | modulusTooSmall _ | overflow _ => true
  | _ => false

/-- None of them is of the exchange with a host or with a peer, and only a branch to nowhere has no kind of its own. -/
theorem Fault.kind_of_ofExecution {f : Fault} (h : f.ofExecution = true) :
    f.kind ≠ .protocol ∧ f.kind ≠ .subroutineAborted ∧
      (f.kind = .general → ∃ target, f = .branchOutOfRange target) := by
  cases f <;> simp_all [ofExecution, kind]

def Fault.isStray : Fault → Bool
  | branchOutOfRange _ => true
  | _ => false

/-- What an execution may end in, a branch to nowhere apart. -/
abbrev Expected (f : Fault) : Prop := (f.ofExecution && !f.isStray) = true

/-- Where an instruction branches to. -/
def Instruction.target? : Instruction → Option Int
  | jump target | branchZero _ _ target | branch _ _ _ target => some target
  | _ => none

/-- The fault of a branch that leads out of a subroutine with so many instructions. -/
def Instruction.Strays (i : Instruction) (size : Nat) (f : Fault) : Prop :=
  ∃ target, i.target? = some target ∧ (target < 0 ∨ (size : Int) < target) ∧ f = .branchOutOfRange target

namespace AppMemory

variable (mem : AppMemory)

theorem register_refuses {r : Register} (h : r.Legible) : Refuses Expected (mem.register r) := by
  obtain ⟨i, hi⟩ := Register.slot?_of_legible h
  simp only [register, hi]
  exact .ok _

theorem setRegister_refuses {r : Register} (h : r.Legible) (v : Option Int) :
    Refuses Expected (mem.setRegister r v) := by
  obtain ⟨i, hi⟩ := Register.slot?_of_legible h
  simp only [setRegister, hi]
  exact .ok _

theorem resolve_refuses {v : Value} (h : v.Legible) : Refuses Expected (mem.resolve v) := by
  cases v with
  | literal v => exact .ok _
  | register r =>
    refine (mem.register_refuses h).bind fun v => ?_
    cases v with
    | some v => exact .ok _
    | none => exact .error rfl

theorem array_refuses (a : Int) : Refuses Expected (mem.array a) := by
  unfold array
  split
  · exact .ok _
  · exact .error rfl

theorem arrayValue_refuses (a i : Int) : Refuses Expected (mem.arrayValue a i) := by
  refine (mem.array_refuses a).bind fun vs => ?_
  split
  · split
    · exact .ok _
    · exact .error rfl
  · exact .error rfl

theorem setArrayValue_refuses (a i : Int) (v : Option Int) : Refuses Expected (mem.setArrayValue a i v) := by
  refine (mem.array_refuses a).bind fun vs => ?_
  split
  · exact .ok _
  · exact .error rfl

theorem arrayValues_refuses (a start stop : Int) : Refuses Expected (mem.arrayValues a start stop) := by
  refine (mem.array_refuses a).bind fun vs => ?_
  split
  · exact .error rfl
  · exact .ok _

theorem entryValue_refuses {e : ArrayEntry} (h : e.index.Legible) : Refuses Expected (mem.entryValue e) :=
  (mem.resolve_refuses h).bind fun _ => mem.arrayValue_refuses _ _

theorem setEntry_refuses {e : ArrayEntry} (h : e.index.Legible) (v : Option Int) :
    Refuses Expected (mem.setEntry e v) :=
  (mem.resolve_refuses h).bind fun _ => mem.setArrayValue_refuses _ _ _

theorem virtualIndex_refuses (virt : Int) : Refuses Expected (mem.virtualIndex virt) := by
  unfold virtualIndex
  split
  · exact .ok _
  · exact .error rfl

theorem physicalFor_refuses (virt : Int) : Refuses Expected (mem.physicalFor virt) :=
  (mem.virtualIndex_refuses virt).bind fun _ => .ok _

theorem mapQubit_refuses (virt : Int) (phys : Nat) : Refuses Expected (mem.mapQubit virt phys) := by
  refine (mem.virtualIndex_refuses virt).bind fun v => ?_
  split
  · split
    · exact .ok _
    · exact .error rfl
  · split
    · exact .error rfl
    · exact .ok _

theorem unmapQubit_refuses (virt : Int) : Refuses Expected (mem.unmapQubit virt) :=
  (mem.virtualIndex_refuses virt).bind fun _ => .ok _

end AppMemory

namespace Node

theorem log_expected (level : LogLevel) (kind text : String) :
    Raises Expected (log level kind text : NodeWork n m Unit) := .bind .part fun _ => .emit _

theorem wakeAll_expected (ps : List ProcessId) : Raises Expected (wakeAll ps : NodeWork n m Unit) :=
  .forM (fun _ => .emit _) ps

theorem memory_expected (app : Int) : Raises Expected (memory app : NodeWork n m AppMemory) := .bind .part fun _ => by
  split
  · exact .pure _
  · exact .fail rfl

theorem updateMemory_expected (app : Int) {f : AppMemory → Except Fault AppMemory}
    (hf : ∀ mem, Refuses Expected (f mem)) : Raises Expected (updateMemory app f : NodeWork n m Unit) :=
  .bind (memory_expected app) fun mem => .bind (.ofExcept (hf mem)) fun _ => .modifyPart _

theorem mapQubit_expected (app virt : Int) (phys : Nat) :
    Raises Expected (mapQubit app virt phys : NodeWork n m Unit) := .bind .part fun _ => by
  have hmap : Raises Expected (updateMemory app (·.mapQubit virt phys) : NodeWork n m Unit) :=
    updateMemory_expected app fun mem => mem.mapQubit_refuses virt phys
  split
  · exact .ite (.bind (log_expected _ _ _) fun _ => .fail rfl) hmap
  · exact hmap

theorem allocate_expected : Raises Expected (allocate : NodeWork n m Nat) := by
  refine .bind .part fun node => .bind (.ofExcept fun f hf => ?_) fun _ => .bind (.modifyPart _) fun _ => .pure _
  unfold QubitPool.allocate at hf
  split at hf
  · exact nomatch hf
  · cases hf
    rfl

theorem allocateCommunication_expected : Raises Expected (allocateCommunication : NodeWork n m Nat) := by
  refine .bind .part fun node => .bind (.ofExcept fun f hf => ?_) fun _ => .bind (.modifyPart _) fun _ => .pure _
  unfold QubitPool.allocateCommunication at hf
  split at hf
  · exact nomatch hf
  · cases hf
    rfl

theorem releaseSlot_expected (phys : Nat) : Raises Expected (releaseSlot phys : NodeWork n m Unit) := by
  refine .bind .part fun node => .bind (.ofExcept fun f hf => ?_) fun _ => .modifyPart _
  unfold QubitPool.free at hf
  split at hf
  · exact nomatch hf
  · cases hf
    rfl

theorem freeQubit_expected (phys : Nat) : Raises Expected (freeQubit phys : NodeWork n m Unit) :=
  .bind (releaseSlot_expected phys) fun _ => .bind (log_expected _ _ _) fun _ => .bind .part fun _ =>
    .bind (.setPart _) fun _ => wakeAll_expected _

theorem startCall_expected (p : ProcessId) (c : DeviceCall) : Raises Expected (startCall p c : NodeWork n m Unit) := by
  refine .bind .part fun node => .bind (.ofExcept fun f hf => ?_) fun _ => .emit _
  unfold Device.duration at hf
  split at hf
  · rename_i g hr
    cases hf
    unfold Device.refusal at hr
    dsimp only at hr
    repeat' split at hr
    all_goals
      cases hr
      try rfl
  · split at hf <;> exact nomatch hf

theorem finishCall_expected (c : DeviceCall) : Raises Expected (finishCall c : NodeWork n m (Option Nat)) :=
  .bind .part fun _ => .bind (.withQuantum _) fun _ => .bind (.setPart _) fun _ => .bind (log_expected _ _ _) fun _ =>
    .pure _

theorem submit_expected (r : EntanglementRequest) : Raises Expected (submit r : NodeWork n m Unit) :=
  .bind .part fun _ => by
    dsimp only
    split
    · exact .bind (.setPart _) fun _ => .emit _
    · exact .setPart _

end Node

namespace Execution

open Node

private theorem log_expected (level : LogLevel) (text : String) :
    Raises Expected (Node.log level "Processor" text : NodeWork n m Unit) := Node.log_expected _ _ _

theorem resolve_expected (app : Int) {v : Value} (h : v.Legible) : Raises Expected (resolve app v : NodeWork n m Int) :=
  .bind (memory_expected app) fun mem => .ofExcept (mem.resolve_refuses h)

theorem setRegister_expected (app : Int) {r : Register} (h : r.Legible) (v : Option Int) :
    Raises Expected (setRegister app r v : NodeWork n m Unit) :=
  updateMemory_expected app fun mem => mem.setRegister_refuses h v

theorem resolveRegister_expected (app : Int) {r : Register} (h : r.Legible) :
    Raises Expected (resolveRegister app r : NodeWork n m Int) :=
  resolve_expected app (v := .register r) h

theorem position_expected (app : Int) {r : Register} (h : r.Legible) :
    Raises Expected (position app r : NodeWork n m Nat) :=
  .bind (resolveRegister_expected app h) fun virt => .bind (memory_expected app) fun mem =>
    .bind (.ofExcept (mem.physicalFor_refuses virt)) fun q => by
      cases q with
      | some _ => exact .pure _
      | none => exact .bind (log_expected _ _) fun _ => .fail rfl

theorem unsupported_expected (i : Instruction) : Raises Expected (unsupported i : NodeWork n m (Step m)) :=
  .bind (log_expected _ _) fun _ => .bind .part fun _ => .fail rfl

theorem advance_expected (app : Int) : Raises Expected (advance app : NodeWork n m Unit) :=
  updateMemory_expected app fun _ => .ok _

theorem goTo_raises (app : Int) (size : Nat) (target : Int) :
    Raises (fun f => Expected f ∨ (target < 0 ∨ (size : Int) < target) ∧ f = .branchOutOfRange target)
      (goTo app size target : NodeWork n m Unit) := by
  have hlog (level : LogLevel) (text : String) :
      Raises (fun f => Expected f ∨ (target < 0 ∨ (size : Int) < target) ∧ f = .branchOutOfRange target)
        (Node.log level "Processor" text : NodeWork n m Unit) := (log_expected level text).mono fun _ => .inl
  unfold goTo
  split
  · next hout => exact .bind (hlog _ _) fun _ => .fail (.inr ⟨hout, rfl⟩)
  · exact .bind (hlog _ _) fun _ => (updateMemory_expected app fun _ => .ok _).mono fun _ => .inl

/-- A branch that is taken leads where its instruction says. -/
theorem branchTarget?_yields (app : Int) (i : Instruction) :
    Yields (fun t => ∀ target, t = some target → i.target? = some target)
      (branchTarget? app i : NodeWork n m (Option Int)) := by
  cases i with
  | jump t => exact .pure fun _ h => h
  | branchZero zero test t =>
    exact .bind fun v => .pure fun _ h => by
      obtain ⟨-, h⟩ := Option.ite_none_right_eq_some.1 h
      exact h
  | branch test left right t =>
    exact .bind fun a => .bind fun b => .pure fun _ h => by
      obtain ⟨-, h⟩ := Option.ite_none_right_eq_some.1 h
      exact h
  | _ => exact .pure nofun

theorem branchTarget?_expected (app : Int) {i : Instruction} (h : i.Legible) :
    Raises Expected (branchTarget? app i : NodeWork n m (Option Int)) := by
  cases i with
  | branchZero zero test target =>
    obtain ⟨ht, -⟩ : test.Legible ∧ _ := by simpa [Instruction.Legible, Instruction.operands, Operand.Legible] using h
    exact .bind (resolveRegister_expected app ht) fun _ => .pure _
  | branch test left right target =>
    obtain ⟨hl, hr, -⟩ : left.Legible ∧ right.Legible ∧ _ := by
      simpa [Instruction.Legible, Instruction.operands, Operand.legible_operand] using h
    exact .bind (resolve_expected app hl) fun _ => .bind (resolve_expected app hr) fun _ => .pure _
  | _ => exact .pure _

theorem branch_raises (app : Int) (size : Nat) {i : Instruction} (h : i.Legible) :
    Raises (fun f => Expected f ∨ i.Strays size f) (branch app size i : NodeWork n m Unit) := by
  refine .bind_of ((branchTarget?_expected app h).mono fun _ => .inl) (branchTarget?_yields app i) ?_
  intro t ht
  cases t with
  | some target =>
    exact (goTo_raises app size target).mono fun _ =>
      Or.imp_right fun ⟨hout, hf⟩ => ⟨target, ht target rfl, hout, hf⟩
  | none => exact (advance_expected app).mono fun _ => .inl

theorem modular_expected (app : Int) (i : Instruction) (op : ArithmeticOp) {left right modulus : Value}
    (hl : left.Legible) (hr : right.Legible) (hm : modulus.Legible) :
    Raises Expected (modular app i op left right modulus : NodeWork n m Int) :=
  .bind (resolve_expected app hm) fun _ => .ite (.bind (log_expected _ _) fun _ => .fail rfl)
    (.bind (resolve_expected app hl) fun _ => .bind (resolve_expected app hr) fun _ => .pure _)

theorem arithmetic_expected (app : Int) (i : Instruction) (op : ArithmeticOp) {left right : Value}
    (hl : left.Legible) (hr : right.Legible) : Raises Expected (arithmetic app i op left right : NodeWork n m Int) :=
  .bind (resolve_expected app hl) fun a => .bind (resolve_expected app hr) fun b => by
    cases (Words.wrapping.total op a b).run with
    | some _ => exact .pure _
    | none => exact .bind (log_expected _ _) fun _ => .fail rfl

theorem qalloc_expected (app : Int) {r : Register} (h : r.Legible) :
    Raises Expected (qalloc app r : NodeWork n m Unit) :=
  .bind (resolveRegister_expected app h) fun virt => .bind
    (.bind_attempt allocate_expected (fun _ => .pure _) fun _ he => .bind (log_expected _ _) fun _ => .fail he)
    fun phys => .bind_attempt (mapQubit_expected app virt phys) (fun _ => log_expected _ _)
      fun _ he => .bind (releaseSlot_expected phys) fun _ => .fail he

theorem qfree_expected (app : Int) {r : Register} (h : r.Legible) : Raises Expected (qfree app r : NodeWork n m Unit) :=
  .bind (resolveRegister_expected app h) fun virt => .bind (position_expected app h) fun phys =>
    .bind (updateMemory_expected app fun mem => mem.unmapQubit_refuses virt) fun _ => freeQubit_expected phys

theorem requestPairs_expected (r : EntanglementRequest) : Raises Expected (requestPairs r : NodeWork n m Unit) :=
  .bind (log_expected _ _) fun _ => submit_expected r

theorem breakpoint_expected (app action role : Int) :
    Raises Expected (breakpoint app action role : NodeWork n m Unit) := by
  have hindex (node : Node n m) (p : Nat) : Refuses Expected (node.device.globalIndex p) := by
    unfold Device.globalIndex
    split
    · exact .ok _
    · exact .error rfl
  unfold breakpoint
  split
  · exact log_expected _ _
  · exact .bind (memory_expected app) fun _ => .bind (log_expected _ _) fun _ => .bind .get fun w =>
      .forM (fun p => .bind (.ofExcept (hindex w.part p)) fun _ => log_expected _ _) _
  · exact log_expected _ _
  · exact .bind (log_expected _ _) fun _ => .fail rfl

theorem checkRange_expected (p : ProcessId) (e : Execution) (a : AwaitedRange) :
    Raises Expected (checkRange p e a : NodeWork n m (Step m)) := by
  refine .bind .part fun _ => .bind (.modifyPart _) fun _ => .ite ?_ ?_
  · exact .bind (memory_expected e.app) fun _ => .bind (log_expected _ _) fun _ => .pure _
  · exact .bind (memory_expected e.app) fun mem => .bind (.ofExcept (mem.arrayValues_refuses _ _ _)) fun _ =>
      .ite (.bind (advance_expected _) fun _ => .pure _) (.ite
        (.bind (log_expected _ _) fun _ => .bind (advance_expected _) fun _ => .pure _)
        (.bind (.modifyPart _) fun _ => .pure _))

theorem classical_expected (app : Int) {i : Instruction} (h : i.Legible) :
    Raises Expected (classical app i : NodeWork n m Unit) := by
  cases i with
  | set dest v =>
    simp only [Instruction.Legible, Instruction.operands, List.forall_mem_cons] at h
    exact setRegister_expected app h.1 _
  | lea dest a =>
    simp only [Instruction.Legible, Instruction.operands, List.forall_mem_cons] at h
    exact setRegister_expected app h.1 _
  | qalloc q => exact qalloc_expected app (h _ (List.mem_singleton_self _))
  | qfree q => exact qfree_expected app (h _ (List.mem_singleton_self _))
  | store r entry =>
    simp only [Instruction.Legible, Instruction.operands, List.forall_mem_cons] at h
    exact updateMemory_expected app fun mem => (mem.register_refuses h.1).bind fun _ => mem.setEntry_refuses h.2.1.2 _
  | load dest entry =>
    simp only [Instruction.Legible, Instruction.operands, List.forall_mem_cons] at h
    exact updateMemory_expected app fun mem => (mem.entryValue_refuses h.2.1.2).bind fun _ =>
      mem.setRegister_refuses h.1 _
  | undef entry =>
    exact updateMemory_expected app fun mem => mem.setEntry_refuses (h _ (List.mem_singleton_self _)).2 _
  | array length a =>
    simp only [Instruction.Legible, Instruction.operands, List.forall_mem_cons, Operand.legible_operand] at h
    exact .bind (resolve_expected app h.1) fun _ => .ite (.fail rfl) (.bind (log_expected _ _) fun _ =>
      updateMemory_expected app fun _ => .ok _)
  | arithmetic op dest left right =>
    simp only [Instruction.Legible, Instruction.operands, List.forall_mem_cons, Operand.legible_operand] at h
    obtain ⟨hd, hl, hr, -⟩ := h
    exact .bind (arithmetic_expected app _ op hl hr) fun _ => setRegister_expected app hd _
  | modular op dest left right modulus =>
    simp only [Instruction.Legible, Instruction.operands, List.forall_mem_cons, Operand.legible_operand] at h
    obtain ⟨hd, hl, hr, hm, -⟩ := h
    exact .bind (modular_expected app _ op hl hr hm) fun _ => setRegister_expected app hd _
  | createPairs remote socket qubits arguments results =>
    simp only [Instruction.Legible, Instruction.operands, List.forall_mem_cons, Operand.legible_operand] at h
    obtain ⟨h₁, h₂, h₃, h₄, h₅, -⟩ := h
    exact .bind (resolve_expected app h₁) fun _ => .bind (resolve_expected app h₂) fun _ =>
      .bind (resolve_expected app h₃) fun _ => .bind (resolve_expected app h₄) fun _ =>
      .bind (resolve_expected app h₅) fun _ => requestPairs_expected _
  | receivePairs remote socket qubits results =>
    simp only [Instruction.Legible, Instruction.operands, List.forall_mem_cons, Operand.legible_operand] at h
    obtain ⟨h₁, h₂, h₃, h₄, -⟩ := h
    exact .bind (resolve_expected app h₁) fun _ => .bind (resolve_expected app h₂) fun _ =>
      .bind (resolve_expected app h₃) fun _ => .bind (resolve_expected app h₄) fun _ => requestPairs_expected _
  | breakpoint action role => exact breakpoint_expected app action role
  | _ => exact .pure _

theorem operate_expected (p : ProcessId) (e : Execution) (c : DeviceCall) :
    Raises Expected (operate p e c : NodeWork n m (Step m)) :=
  .bind (startCall_expected p c) fun _ => .pure _

theorem beginReadout_expected (e : Execution) (virt : Int) (dest : Register) :
    Raises Expected (beginReadout e virt dest : NodeWork n m (Step m)) :=
  .bind (memory_expected e.app) fun mem => .bind (.ofExcept (mem.physicalFor_refuses virt)) fun q => by
    cases q with
    | none => exact .fail rfl
    | some _ => exact .bind .part fun _ => .pure _

theorem quantum_expected (p : ProcessId) (e : Execution) {i : Instruction} (h : i.Legible) :
    Raises Expected (quantum p e i : NodeWork n m (Step m)) := by
  refine .bind .part fun node => ?_
  cases i with
  | init q => exact .bind (position_expected _ (h _ (List.mem_singleton_self _))) fun _ => operate_expected _ _ _
  | gate g q =>
    exact .ite (unsupported_expected _)
      (.bind (position_expected _ (h _ (List.mem_singleton_self _))) fun _ => operate_expected _ _ _)
  | rotate axis q k d =>
    simp only [Instruction.Legible, Instruction.operands, List.forall_mem_cons] at h
    exact .bind (position_expected _ h.1) fun _ => operate_expected _ _ _
  | pairGate g control target =>
    simp only [Instruction.Legible, Instruction.operands, List.forall_mem_cons] at h
    exact .ite (unsupported_expected _) (.bind (position_expected _ h.1) fun _ =>
      .bind (position_expected _ h.2.1) fun _ => operate_expected _ _ _)
  | directed axis control target k d =>
    simp only [Instruction.Legible, Instruction.operands, List.forall_mem_cons] at h
    exact .ite (.bind (position_expected _ h.1) fun _ => .bind (position_expected _ h.2.1) fun _ =>
      operate_expected _ _ _) (unsupported_expected _)
  | measure q dest =>
    simp only [Instruction.Legible, Instruction.operands, List.forall_mem_cons] at h
    exact .ite (.bind (resolveRegister_expected _ h.1) fun _ => beginReadout_expected _ _ _)
      (.bind (position_expected _ h.1) fun _ => .bind (startCall_expected _ _) fun _ => .pure _)
  | _ => exact unsupported_expected _

theorem perform_raises (p : ProcessId) (e : Execution) {i : Instruction} (h : i.Legible) :
    Raises (fun f => Expected f ∨ i.Strays e.subroutine.size f) (perform p e i : NodeWork n m (Step m)) := by
  cases i with
  | jump _ | branchZero _ _ _ | branch _ _ _ _ => exact .bind (branch_raises _ _ h) fun _ => .pure _
  | init _ | gate _ _ | rotate _ _ _ _ | pairGate _ _ _ | directed _ _ _ _ _ | measure _ _ =>
    exact (quantum_expected p e h).mono fun _ => .inl
  | waitAll s =>
    obtain ⟨-, hi, hj⟩ := h _ (List.mem_singleton_self _)
    refine Raises.mono ?_ fun _ => .inl
    exact .bind (resolve_expected _ hi) fun _ => .bind (resolve_expected _ hj) fun _ =>
      .bind (log_expected _ _) fun _ => checkRange_expected _ _ _
  | _ =>
    refine Raises.mono ?_ fun _ => .inl
    exact .bind (classical_expected _ h) fun _ => .bind (advance_expected _) fun _ => .pure _

theorem beginMove_expected (p : ProcessId) (e : Execution) (r : Readout) (owner : Option (Int × Int))
    (steps : List RelocationStep) (calls : List DeviceCall) :
    Raises Expected (beginMove p e r owner steps calls : NodeWork n m (Step m)) := by
  cases calls with
  | nil => exact .pure _
  | cons c calls => exact .bind (startCall_expected p c) fun _ => .pure _

theorem claimElectron_expected (app virt : Int) : Raises Expected (claimElectron app virt : NodeWork n m Unit) :=
  .bind (updateMemory_expected app fun mem => mem.unmapQubit_refuses virt) fun _ => mapQubit_expected _ _ _

theorem exchangeOwners_expected (e : Execution) (r : Readout) (owner : Int × Int) :
    Raises Expected (exchangeOwners e r owner : NodeWork n m Unit) :=
  .bind (log_expected _ _) fun _ => .bind (updateMemory_expected _ fun mem => mem.unmapQubit_refuses _) fun _ =>
    .bind (mapQubit_expected _ _ _) fun _ => .bind (claimElectron_expected _ _) fun _ => .modifyPart _

theorem relocate_expected (p : ProcessId) (e : Execution) (r : Readout) (s : RelocationStep)
    (steps : List RelocationStep) : Raises Expected (relocate p e r s steps : NodeWork n m (Step m)) :=
  .bind (log_expected _ _) fun _ => by
    cases s with
    | allocateElectron =>
      exact .bind allocateCommunication_expected fun _ => .bind (claimElectron_expected _ _) fun _ => .pure _
    | allocateFreeCarbon =>
      exact .bind (.bind_attempt allocate_expected (fun _ => .pure _) fun _ he =>
        .bind (log_expected _ _) fun _ => .fail he) fun _ => .pure _
    | moveElectronToCarbon =>
      refine .bind (.bind .part fun _ => ?_) fun _ => beginMove_expected _ _ _ _ _ _
      split
      · exact .pure _
      · exact .bind (releaseSlot_expected _) fun _ => .bind (log_expected _ _) fun _ => .fail rfl
    | moveCarbonToElectron => exact beginMove_expected _ _ _ _ _ _
    | freeCarbon => exact .bind (freeQubit_expected _) fun _ => .pure _
    | measureElectron => exact .bind (startCall_expected _ _) fun _ => .pure _

end Execution

/-- The register that a measurement under way is for. -/
def ExecutionStage.dest? : ExecutionStage → Option Register
  | .reading _ dest => some dest
  | .relocating r _ | .moving r .. => some r.dest
  | _ => none

namespace Execution

open Node

/-- Every register that is read or will be written exists. -/
structure Legible (e : Execution) : Prop where
  instructions : ∀ i ∈ e.subroutine.instructions, i.Legible
  dest : ∀ r ∈ e.stage.dest?, r.Legible

/-- The fault of a branch out of the subroutine that is executed. -/
def Strays (e : Execution) (f : Fault) : Prop := ∃ i ∈ e.subroutine.instructions, i.Strays e.subroutine.size f

theorem fetch_raises (p : ProcessId) {e : Execution} (h : e.Legible) :
    Raises (fun f => Expected f ∨ e.Strays f) (fetch p e : NodeWork n m (Step m)) := by
  refine .bind ((memory_expected e.app).mono fun _ => .inl) fun mem => ?_
  dsimp only
  split
  · exact .pure _
  · rename_i i hi
    have hmem : i ∈ e.subroutine.instructions := List.mem_of_getElem? hi
    exact .bind ((log_expected _ _).mono fun _ => .inl) fun _ => .bind (.modifyPart _) fun _ =>
      (perform_raises p e (h.instructions i hmem)).mono fun _ => Or.imp_right fun hs => ⟨i, hmem, hs⟩

/-- A step whose registers exist ends in none but the faults of executions, and a fault of a branch is that of an
instruction whose target lies outside. -/
theorem step_raises (p : ProcessId) {e : Execution} (h : e.Legible) :
    Raises (fun f => Expected f ∨ e.Strays f) (step p e : NodeWork n m (Step m)) := by
  by_cases hfetch : e.stage = .fetch
  · rw [step, hfetch]
    exact fetch_raises p h
  · refine Raises.mono ?_ fun _ => .inl
    unfold step
    split
    · exact .bind (updateMemory_expected _ fun _ => .ok _) fun _ => .bind (log_expected _ _) fun _ => .pure _
    · next hstage => exact absurd hstage hfetch
    · exact .bind (finishCall_expected _) fun _ => .bind (advance_expected _) fun _ => .pure _
    · rename_i c dest hstage
      have hdest : dest.Legible := h.dest dest (by rw [hstage]; rfl)
      exact .bind (finishCall_expected _) fun _ => .bind (setRegister_expected _ hdest _) fun _ =>
        .bind (advance_expected _) fun _ => .pure _
    · exact .pure _
    · exact relocate_expected _ _ _ _ _
    · rename_i r owner c steps _
      refine .bind (finishCall_expected _) fun _ => .bind ?_ fun _ => .pure _
      cases owner with
      | none => exact .pure _
      | some owner => exact exchangeOwners_expected e r owner
    · exact .bind (finishCall_expected _) fun _ => beginMove_expected _ _ _ _ _ _
    · exact .bind (log_expected _ _) fun _ => checkRange_expected _ _ _

theorem step_ofExecution (p : ProcessId) {e : Execution} (h : e.Legible) :
    Raises (fun f => f.ofExecution = true) (step p e : NodeWork n m (Step m)) :=
  (step_raises p h).mono fun f hf => by
    obtain hf | ⟨i, -, target, -, -, rfl⟩ := hf
    · exact (Bool.and_eq_true_iff.1 hf).1
    · rfl

end Execution

end QuantumNode
