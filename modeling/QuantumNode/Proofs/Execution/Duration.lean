import QuantumNode.Proofs.Execution.Counter
import QuantumNode.Proofs.Node.Dispatch
import QuantumNode.Proofs.Node.Range
import QuantumNode.Proofs.Node.Starvation

/-! How long the instructions of a subroutine take on a generic device. One that asks for an operation makes its process
go on after the time of that operation; after any other one the next is fetched at once, unless it waits for pairs. A
step of an execution leaves its process with a turn more only if it rests. -/
namespace QuantumNode

open Node Work Working

variable {n m : Nat}

namespace Instruction

/-- The operation of the device that an instruction asks for. -/
def operation? : Instruction → Option Operation
  | .init _ => some .init
  | .gate g _ => some g.operation
  | .rotate axis _ _ _ => some axis.operation
  | .pairGate g _ _ => some g.operation
  | .directed axis _ _ _ _ => some axis.operation
  | .measure _ _ => some .measure
  | _ => none

/-- How long an instruction takes on a generic device: as long as its operation. -/
def time (g : GenericDevice) (i : Instruction) : Nat := i.operation?.elim 0 (Device.genericTime g)

/-- Whether an instruction waits for pairs. -/
def awaitsPairs : Instruction → Bool
  | .waitAll _ => true
  | _ => false

end Instruction

/-- No instruction waits for pairs. -/
def Subroutine.IsLocal (s : Subroutine) : Prop := ∀ i ∈ s.instructions, i.awaitsPairs = false

instance (s : Subroutine) : Decidable s.IsLocal :=
  inferInstanceAs (Decidable (∀ i ∈ s.instructions, i.awaitsPairs = false))

namespace ExecutionStage

def isStart : ExecutionStage → Bool
  | start => true
  | _ => false

def isFetch : ExecutionStage → Bool
  | fetch => true
  | _ => false

theorem isFetch_iff {stage : ExecutionStage} : stage.isFetch = true ↔ stage = .fetch := by
  cases stage <;> simp [isFetch]

/-- Stages in which the device of the node is busy for an instruction. -/
def isOperating : ExecutionStage → Bool
  | operating _ | reading _ _ => true
  | _ => false

end ExecutionStage

namespace Execution

/-- The instruction that is fetched next, by the program counter of the application. -/
def fetched? (e : Execution) (node : Node n m) : Option Instruction :=
  (node.apps.get? e.app).bind fun mem => e.subroutine.instructions[mem.pc]?

variable {p : ProcessId} {e : Execution} {g : GenericDevice}

/-- What an instruction comes to on a generic device if nothing is waited for: the next one is fetched at once, or the
process rests and goes on after the time of an operation. -/
inductive Takes (p : ProcessId) (e : Execution) (g : GenericDevice) (i : Instruction) :
    Step m → Working (Node n m) n m → Prop where
  | none {w' : Working (Node n m) n m} (hi : i.operation? = none) : Takes p e g i (.go { e with stage := .fetch }) w'
  | time {stage : ExecutionStage} {w' : Working (Node n m) n m} (hi : i.operation?.isSome = true)
      (hst : stage.isOperating = true) (hr : .resume (i.time g) p .go ∈ w'.effects.toList) :
      Takes p e g i (.rest { e with stage := stage }) w'

theorem startCall_ends {w : Working (Node n m) n m} (hg : w.part.device.config = .generic g) (c : DeviceCall) :
    Ends (startCall p c) w fun _ w' => .resume (Device.genericTime g c.op) p .go ∈ w'.effects.toList := by
  refine .part (.ofExcept fun delay hd => ?_)
  have htime : delay = Device.genericTime g c.op := by
    unfold Device.duration at hd
    split at hd
    · exact nomatch hd
    · rw [hg] at hd
      cases hd
      rfl
  subst htime
  exact fun _ w' he => by
    cases he
    simp

/-- A call that is begun before the process rests. -/
theorem Takes.call {i : Instruction} {c : DeviceCall} (hi : i.operation? = some c.op) {stage : ExecutionStage}
    (hst : stage.isOperating = true) {w : Working (Node n m) n m} (hg : w.part.device.config = .generic g) :
    Ends (startCall p c >>= fun _ => pure (.rest { e with stage := stage })) w fun flow w' => Takes p e g i flow w' :=
  .bind <| (startCall_ends hg c).mono fun _ w' hr => .pure <| .time (by rw [hi]; rfl) hst (by
    rw [Instruction.time, hi]
    exact hr)

/-- What comes before a call leaves the device alone. -/
theorem Takes.next {α : Type} {i : Instruction} {x : NodeWork n m α} (hx : Within Thrifty x)
    {f : α → NodeWork n m (Step m)} {w : Working (Node n m) n m} (hg : w.part.device.config = .generic g)
    (hf : ∀ a w', w'.part.device.config = .generic g → Ends (f a) w' fun flow w' => Takes p e g i flow w') :
    Ends (x >>= f) w fun flow w' => Takes p e g i flow w' :=
  hx.next fun a w' h => hf a w' (h.config.trans hg)

theorem quantum_takes (p : ProcessId) (e : Execution) (i : Instruction) {w : Working (Node n m) n m}
    (hg : w.part.device.config = .generic g) :
    Ends (quantum p e i) w fun flow w' => Takes p e g i flow w' := by
  have hnv : w.part.device.config.isNV = false := by rw [hg]; rfl
  have hunsupported : Ends (unsupported i) w fun flow w' => Takes p e g i flow w' :=
    .bind fun _ _ _ => .bind fun _ _ _ => .fail _
  refine .part ?_
  simp only [hnv, Bool.false_eq_true, if_false]
  cases i with
  | init q => exact .next (position_mild _ _) hg fun a w' hg => .call rfl rfl hg
  | gate op q => exact .next (position_mild _ _) hg fun a w' hg => .call rfl rfl hg
  | rotate axis q k d => exact .next (position_mild _ _) hg fun a w' hg => .call rfl rfl hg
  | pairGate op control target =>
    exact .next (position_mild _ _) hg fun a w' hg => .next (position_mild _ _) hg fun b w' hg => .call rfl rfl hg
  | measure q dest => exact .next (position_mild _ _) hg fun a w' hg => .call rfl rfl hg
  | _ => exact hunsupported

theorem perform_takes {i : Instruction} (hi : i.awaitsPairs = false) {w : Working (Node n m) n m}
    (hg : w.part.device.config = .generic g) : Ends (perform p e i) w fun flow w' => Takes p e g i flow w' := by
  cases i with
  | jump _ => exact .bind fun _ _ _ => .pure (.none rfl)
  | branchZero _ _ _ => exact .bind fun _ _ _ => .pure (.none rfl)
  | branch _ _ _ _ => exact .bind fun _ _ _ => .pure (.none rfl)
  | waitAll range => exact nomatch hi
  | init _ => exact quantum_takes p e (.init _) hg
  | gate _ _ => exact quantum_takes p e (.gate _ _) hg
  | rotate _ _ _ _ => exact quantum_takes p e (.rotate _ _ _ _) hg
  | pairGate _ _ _ => exact quantum_takes p e (.pairGate _ _ _) hg
  | directed _ _ _ _ _ => exact quantum_takes p e (.directed _ _ _ _ _) hg
  | measure _ _ => exact quantum_takes p e (.measure _ _) hg
  | _ => exact .bind fun _ _ _ => .bind fun _ _ _ => .pure (.none rfl)

/-- What a fetch comes to: the end of the subroutine, or what its instruction takes. -/
theorem fetch_takes (hl : e.subroutine.IsLocal) {w : Working (Node n m) n m} (hg : w.part.device.config = .generic g) :
    Ends (fetch p e) w fun flow w' =>
      (e.fetched? w.part = none ∧ flow = .finished .ok) ∨
        ∃ i, e.fetched? w.part = some i ∧ Takes p e g i flow w' := by
  refine .bind <| (memory_ends e.app).mono fun mem w₁ ⟨hw, hmem⟩ => ?_
  subst hw
  have hfetched : e.fetched? w₁.part = e.subroutine.instructions[mem.pc]? := by rw [fetched?, hmem, Option.bind_some]
  rw [hfetched]
  dsimp only
  split
  · exact .pure (.inl ⟨‹_›, rfl⟩)
  · rename_i i hi
    have hlocal : i.awaitsPairs = false := hl i (List.mem_of_getElem? hi)
    refine (log_mild (R := Thrifty) _ _ _).next fun _ w₂ h₂ => .modifyPart ?_
    have hg₂ : w₂.part.device.config = .generic g := h₂.config.trans hg
    let w₃ : Working (Node n m) n m := { w₂ with part := { w₂.part with executed := w₂.part.executed + 1 } }
    have htakes : Ends (perform p e i) w₃ fun flow w' => Takes p e g i flow w' := perform_takes hlocal hg₂
    exact htakes.mono fun flow w' h => .inr ⟨i, hi, h⟩

/-- Past its last instruction a subroutine ends. -/
theorem step_finishes (p : ProcessId) (hst : e.stage = .fetch) {w : Working (Node n m) n m} {mem : AppMemory}
    (hmem : w.part.apps.get? e.app = some mem) (hpc : e.subroutine.instructions[mem.pc]? = none) :
    (step p e).exec w = (.ok (.finished .ok), w) := by
  simp [step, hst, fetch, exec_bind, exec_memory, hmem, hpc]

/-- A subroutine that has just begun, or whose operation is done, goes on with a fetch. -/
theorem step_fetches (h : e.stage = .start ∨ e.stage.isOperating = true) :
    Yields (fun flow => flow = .go { e with stage := .fetch }) (step p e : NodeWork n m (Step m)) := by
  obtain ⟨s, stage⟩ := e
  cases stage with
  | start => exact .bind fun _ => .bind fun _ => .pure rfl
  | operating c => exact .bind fun _ => .bind fun _ => .pure rfl
  | reading c dest => exact .bind fun _ => .bind fun _ => .bind fun _ => .pure rfl
  | _ => exact absurd h (by simp [ExecutionStage.isOperating])

/-! A step of an execution stays with its subroutine. -/

/-- Work that goes on with the same subroutine, if it goes on. -/
def Stays (e : Execution) (flow : Step m) : Prop := Going (fun e' => e'.subroutine = e.subroutine) flow

theorem Plain.stays {flow : Step m} (h : Plain e flow) : Stays e flow := by
  cases h with
  | finished status => exact going_finished status
  | _ => exact going_of_eq rfl rfl

theorem Leads.stays {node : Node n m} {flow : Step m} (h : Leads e node flow) : Stays e flow := by
  cases h with
  | plain h => exact h.stays
  | measuring _ _ => exact going_of_eq rfl rfl

theorem beginMove_stays (p : ProcessId) (r : Readout) (owner : Option (Int × Int)) (steps : List RelocationStep)
    (calls : List DeviceCall) : Yields (Stays e) (beginMove p e r owner steps calls : NodeWork n m (Step m)) := by
  cases calls with
  | nil => exact .pure (going_of_eq rfl rfl)
  | cons c calls => exact .bind fun _ => .pure (going_of_eq rfl rfl)

theorem relocate_stays (p : ProcessId) (r : Readout) (s : RelocationStep) (steps : List RelocationStep) :
    Yields (Stays e) (relocate p e r s steps : NodeWork n m (Step m)) := .bind fun _ => by
  cases s with
  | allocateElectron => exact .bind fun _ => .bind fun _ => .pure (going_of_eq rfl rfl)
  | allocateFreeCarbon => exact .bind fun _ => .pure (going_of_eq rfl rfl)
  | moveElectronToCarbon => exact .bind fun _ => beginMove_stays _ _ _ _ _
  | moveCarbonToElectron => exact beginMove_stays _ _ _ _ _
  | freeCarbon => exact .bind fun _ => .pure (going_of_eq rfl rfl)
  | measureElectron => exact .bind fun _ => .pure (going_of_eq rfl rfl)

theorem step_stays (p : ProcessId) (e : Execution) : Yields (Stays e) (step p e : NodeWork n m (Step m)) := by
  unfold step
  split
  · exact .bind fun _ => .bind fun _ => .pure (going_of_eq rfl rfl)
  · exact fun _ => (fetch_leads p e).mono fun _ _ h => h.stays
  · exact .bind fun _ => .bind fun _ => .pure (going_of_eq rfl rfl)
  · exact .bind fun _ => .bind fun _ => .bind fun _ => .pure (going_of_eq rfl rfl)
  · exact .pure (going_of_eq rfl rfl)
  · exact relocate_stays _ _ _ _
  · exact .bind fun _ => .bind fun _ => .pure (going_of_eq rfl rfl)
  · exact .bind fun _ => beginMove_stays _ _ _ _ _
  · exact .bind fun _ => (checkRange_plain p e _).mono fun _ h => h.stays

/-! Turns. -/

theorem startCall_gains (p : ProcessId) (c : DeviceCall) : Within (Gains p) (startCall p c : NodeWork n m Unit) :=
  .of_part fun w q => by
    rcases w.part.device.duration c with _ | delay
    · exact Nat.le_add_right _ _
    · change ({ w with effects := w.effects.push (.resume delay p .go) } : Working (Node n m) n m).turns q ≤ _
      simp only [turns, resumed_push, Effect.resumed?, Option.some.injEq, eq_comm (a := q)]
      omega

theorem waitForWrite_gains (p : ProcessId) : Within (Gains p) (waitForWrite p : NodeWork n m Unit) := fun w q => by
  change w.resumed q + (w.part.memoryFreed.waiters.count q + (w.part.arrayWritten.waiters ++ [p]).count q
    + w.part.inbox.waiters.count q + w.part.service.news.waiters.count q + w.part.service.requests.waiters.count q) ≤ _
  simp only [List.count_append, List.count_singleton, beq_iff_eq, turns, lines, eq_comm (a := q)]
  omega

theorem checkRange_oneTurn (p : ProcessId) (e : Execution) (a : AwaitedRange) :
    OneTurn p (checkRange p e a : NodeWork n m (Step m)) := fun w => by
  have hw : Stirs none w { w with part := { w.part with service := (w.part.service.takeFailure e.app).2 } } :=
    Placid.flags w _ (takeFailure_alike _ _) rfl
  refine .part (.modifyPart (((?_ : OneTurn p _) _).mono fun flow w' h q => ?_))
  · split
    · exact .of_stirs ((memory_mild _).bind fun _ => (log_mild _ _ _).bind fun _ => .pure _)
    · refine .next (memory_mild _) fun mem => .next (.ofExcept _) fun values => ?_
      split
      · exact .of_stirs ((advance_counting _).bind fun _ => .pure _)
      · split
        · exact .of_stirs ((log_mild _ _ _).bind fun _ => (advance_counting _).bind fun _ => .pure _)
        · exact .rest (waitForWrite_gains p) _
  · exact Nat.le_trans (h q) (Nat.add_le_add_right (hw.turns q nofun) _)

theorem quantum_oneTurn (p : ProcessId) (e : Execution) (i : Instruction) :
    OneTurn p (quantum p e i : NodeWork n m (Step m)) := by
  have hunsupported : OneTurn p (unsupported i : NodeWork n m (Step m)) := .of_stirs (unsupported_mild i)
  have hoperate : ∀ c, OneTurn p (operate p e c : NodeWork n m (Step m)) := fun c => .rest (startCall_gains p c) _
  have hgate : ∀ (b : Bool) {x : NodeWork n m (Step m)}, OneTurn p x →
      OneTurn p (if b then unsupported i else x) ∧ OneTurn p (if b then x else unsupported i) := fun b x hx => by
    cases b with
    | true => exact ⟨hunsupported, hx⟩
    | false => exact ⟨hx, hunsupported⟩
  refine .next .part fun node => ?_
  cases i with
  | init _ => exact .next (position_mild _ _) fun _ => hoperate _
  | gate _ _ => exact (hgate _ (.next (position_mild _ _) fun _ => hoperate _)).1
  | rotate _ _ _ _ => exact .next (position_mild _ _) fun _ => hoperate _
  | pairGate _ _ _ =>
    exact (hgate _ (.next (position_mild _ _) fun _ => .next (position_mild _ _) fun _ => hoperate _)).1
  | directed _ _ _ _ _ =>
    exact (hgate _ (.next (position_mild _ _) fun _ => .next (position_mild _ _) fun _ => hoperate _)).2
  | measure _ _ =>
    dsimp only
    split
    · exact .of_stirs ((resolveRegister_mild _ _).bind fun _ => beginReadout_mild _ _ _)
    · exact .next (position_mild _ _) fun _ => .rest (startCall_gains p _) _
  | _ => exact hunsupported

theorem perform_oneTurn (p : ProcessId) (e : Execution) (i : Instruction) :
    OneTurn p (perform p e i : NodeWork n m (Step m)) := by
  cases i with
  | jump _ => exact .of_stirs ((branch_counting _ _ _).bind fun _ => .pure _)
  | branchZero _ _ _ => exact .of_stirs ((branch_counting _ _ _).bind fun _ => .pure _)
  | branch _ _ _ _ => exact .of_stirs ((branch_counting _ _ _).bind fun _ => .pure _)
  | waitAll _ =>
    exact .next (resolve_mild _ _) fun _ => .next (resolve_mild _ _) fun _ => .next (log_mild _ _ _) fun _ =>
      checkRange_oneTurn _ _ _
  | init _ => exact quantum_oneTurn p e (.init _)
  | gate _ _ => exact quantum_oneTurn p e (.gate _ _)
  | rotate _ _ _ _ => exact quantum_oneTurn p e (.rotate _ _ _ _)
  | pairGate _ _ _ => exact quantum_oneTurn p e (.pairGate _ _ _)
  | directed _ _ _ _ _ => exact quantum_oneTurn p e (.directed _ _ _ _ _)
  | measure _ _ => exact quantum_oneTurn p e (.measure _ _)
  | _ => exact .of_stirs ((classical_granting _ _).bind fun _ => (advance_counting _).bind fun _ => .pure _)

theorem beginMove_oneTurn (p : ProcessId) (e : Execution) (r : Readout) (owner : Option (Int × Int))
    (steps : List RelocationStep) (calls : List DeviceCall) :
    OneTurn p (beginMove p e r owner steps calls : NodeWork n m (Step m)) := by
  cases calls with
  | nil => exact .of_stirs (.pure _)
  | cons c calls => exact .rest (startCall_gains p c) _

theorem relocate_oneTurn (p : ProcessId) (e : Execution) (r : Readout) (s : RelocationStep)
    (steps : List RelocationStep) : OneTurn p (relocate p e r s steps : NodeWork n m (Step m)) :=
  .next (log_mild _ _ _) fun _ => by
    cases s with
    | allocateElectron =>
      exact .of_stirs (allocateCommunication_pooling.bind fun _ => (claimElectron_granting _ _).bind fun _ => .pure _)
    | allocateFreeCarbon => exact .of_stirs ((allocateSpare_pooling r).bind fun _ => .pure _)
    | moveElectronToCarbon => exact .next (electronOwner_pooling r) fun _ => beginMove_oneTurn _ _ _ _ _ _
    | moveCarbonToElectron => exact beginMove_oneTurn _ _ _ _ _ _
    | freeCarbon => exact .of_stirs ((freeQubit_pooling _).bind fun _ => .pure _)
    | measureElectron => exact .rest (startCall_gains p _) _

theorem step_oneTurn (p : ProcessId) (e : Execution) : OneTurn p (step p e : NodeWork n m (Step m)) := by
  unfold step
  split
  · exact .of_stirs ((updateMemory_counting e.app fun _ => 0).bind fun _ => (log_mild _ _ _).bind fun _ => .pure _)
  · refine .next (memory_mild e.app) fun mem => ?_
    dsimp only
    split
    · exact .of_stirs (.pure _)
    · exact .next (log_mild _ _ _) fun _ => .next countExecuted_mild fun _ => perform_oneTurn _ _ _
  · exact .of_stirs ((finishCall_mild _).bind fun _ => (advance_counting _).bind fun _ => .pure _)
  · exact .of_stirs ((finishCall_mild _).bind fun _ => (setRegister_mild _ _ _).bind fun _ =>
      (advance_counting _).bind fun _ => .pure _)
  · exact .of_stirs (.pure _)
  · exact relocate_oneTurn _ _ _ _ _
  · rename_i r owner c steps _
    refine .of_stirs ((finishCall_mild _).bind fun _ => Within.bind ?_ fun _ => .pure _)
    cases owner with
    | none => exact .pure _
    | some owner => exact exchangeOwners_granting e r owner
  · exact .next (finishCall_mild _) fun _ => beginMove_oneTurn _ _ _ _ _ _
  · exact .next (log_mild _ _ _) fun _ => checkRange_oneTurn _ _ _

end Execution

namespace Dispatch

theorem takeMessage_oneTurn (p : ProcessId) (text : String) :
    OneTurn p (takeMessage text : NodeWork n m (Step m)) := .of_stirs (takeMessage_enrolling text)

theorem awaitMessage_oneTurn (p : ProcessId) : OneTurn p (awaitMessage p : NodeWork n m (Step m)) := fun w => by
  refine .part ?_
  rcases hi : w.part.inbox.items with _ | ⟨text, rest⟩
  · simp only [Channel.receive, hi]
    refine .setPart (.pure fun q => ?_)
    simp only [turns, resumed, lines, List.count_append, List.count_singleton, beq_iff_eq, eq_comm (a := q), Flow.rests,
      true_and]
    omega
  · simp only [Channel.receive, hi]
    exact .setPart (takeMessage_oneTurn p text _)

theorem step_oneTurn (p : ProcessId) (stage : DispatchStage) (wake : Wake) :
    OneTurn p (step p stage wake : NodeWork n m (Step m)) := by
  unfold step
  split
  · exact takeMessage_oneTurn p _
  · exact awaitMessage_oneTurn p
  · exact .of_stirs (serve_mild _)
  · rename_i app e
    refine fun w => .bind <| (Execution.step_oneTurn p e w).mono fun flow w' h => ?_
    cases flow with
    | go _ => exact .pure h
    | rest _ => exact .pure h
    | call _ _ _ _ => exact .pure h
    | finished status =>
      refine fun flow w'' he q => Nat.le_add_right_of_le ?_
      have hanswer : Stirs none w' w'' := (answer_wiping app status).of_exec he
      have hstep : w'.turns q ≤ w.turns q := by simpa [Flow.rests] using h q
      exact Nat.le_trans (hanswer.turns q (Option.some_ne_none q).symm) hstep

/-- A dispatcher that is left running a subroutine has made a step of it, unless the subroutine is to begin. -/
theorem step_running (p : ProcessId) (stage : DispatchStage) (wake : Wake) (w : Working (Node n m) n m) :
    Ends (step p stage wake) w fun flow w' => ∀ app e, flow.stage = .running app e → e.stage = .start ∨
      ∃ e₀ x, stage = .running app e₀ ∧ (Execution.step p e₀).exec w = (.ok x, w') ∧ x.going? = some e ∧
        x.rests = flow.rests := by
  unfold step
  split
  · exact fun flow w' he app e hst => absurd hst (takeMessage_awake _ w flow w' he app e)
  · refine .bind fun node w₁ _ => .bind fun _ w₂ _ => ?_
    split
    · exact fun flow w' he app e hst => absurd hst (takeMessage_awake _ w₂ flow w' he app e)
    · exact .pure fun _ _ h => nomatch h
  · refine .part ?_
    split
    · refine .bind fun _ _ _ => .pure fun app e hst => .inl ?_
      cases hst
      rfl
    · exact .pure fun _ _ h => nomatch h
  · rename_i app e₀
    refine .bind fun x w₁ hx => ?_
    cases x with
    | go e =>
      refine .pure fun app e hst => .inr ⟨e₀, _, ?_, hx, ?_, rfl⟩
      iterate 2 cases hst; rfl
    | rest e =>
      refine .pure fun app e hst => .inr ⟨e₀, _, ?_, hx, ?_, rfl⟩
      iterate 2 cases hst; rfl
    | call _ _ _ _ => exact nomatch Execution.step_local p e₀ w _ w₁ hx
    | finished status =>
      intro flow w' he app' e hst
      rw [answer_serves app status w₁ flow w' he] at hst
      exact nomatch hst

end Dispatch

end QuantumNode
