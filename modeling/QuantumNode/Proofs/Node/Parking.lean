import QuantumNode.Proofs.Node.Starvation
import QuantumNode.Proofs.Ownership.Execution

/-! Where the electron's qubit is parked while another is measured: at a carbon, which does not communicate. The carbon
is chosen when the electron is taken, and nothing else happens at the node between the two. -/
namespace QuantumNode

open Node Work Working

variable {n m : Nat} {α : Type}

/-- The steps of a relocation after the electron's qubit has been parked. -/
def Late (steps : List RelocationStep) : Prop :=
  RelocationStep.allocateFreeCarbon ∉ steps ∧ RelocationStep.moveElectronToCarbon ∉ steps

theorem Late.tail {s : RelocationStep} {steps : List RelocationStep} (h : Late (s :: steps)) : Late steps :=
  ⟨fun hs => h.1 (.tail _ hs), fun hs => h.2 (.tail _ hs)⟩

/-- What is left of a relocation, with a carbon for the electron's qubit that does not communicate. -/
inductive Readout.Parks (pool : QubitPool) (r : Readout) : List RelocationStep → Prop where
  | late {steps : List RelocationStep} (h : Late steps) : Parks pool r steps
  | move {steps : List RelocationStep} (hr : pool.isCommunication r.spare = false) (h : Late steps) :
      Parks pool r (.moveElectronToCarbon :: steps)
  | spare {steps : List RelocationStep} (he : pool.Exhausted) (h : Late steps) :
      Parks pool r (.allocateFreeCarbon :: .moveElectronToCarbon :: steps)

theorem Readout.parks_plan {pool : QubitPool} (hc : ∀ slot, pool.isCommunication slot = true → slot = 0) (r : Readout)
    (target : Nat) : r.Parks pool (relocationPlan target (pool.isAllocated 0)) := by
  unfold relocationPlan
  split
  · exact .late (by simp [Late])
  · cases ha : pool.isAllocated 0 with
    | true => exact .spare (fun slot hs => hc slot hs ▸ ha) (by simp [Late])
    | false => exact .late (by simp [Late])

namespace ExecutionStage

/-- The electron's qubit, if it is moved at all, is moved to a carbon that does not communicate. -/
def Parks (pool : QubitPool) : ExecutionStage → Prop
  | relocating r steps => r.Parks pool steps
  | moving _ _ _ _ steps => Late steps
  | _ => True

/-- Whether the next step of a relocation is to be taken at once. -/
def isRelocating : ExecutionStage → Bool
  | relocating .. => true
  | _ => false

end ExecutionStage

namespace Execution

/-- A subroutine goes on with a relocation only at once, and parks the electron's qubit at a carbon. -/
def Parked (pool : QubitPool) : Step m → Prop
  | .go e => e.stage.Parks pool
  | .rest e => e.stage.Parks pool ∧ e.stage.isRelocating = false
  | .call .. | .finished _ => True

variable (p : ProcessId) (e : Execution)

theorem Plain.parked {e : Execution} {flow : Step m} (h : Plain e flow) (pool : QubitPool) : Parked pool flow := by
  cases h with
  | fetch => trivial
  | finished _ => trivial
  | _ => exact ⟨trivial, rfl⟩

/-- A readout that begins finds the electron in use, or does without a carbon. -/
theorem Leads.parked {e : Execution} {node : Node n m} {flow : Step m} (h : Leads e node flow) (he : node.Electron) :
    Parked node.pool flow := by
  cases h with
  | plain h => exact h.parked _
  | measuring hnv r => exact Readout.parks_plan (he hnv) r r.target

theorem fetch_parked {w : Working (Node n m) n m} (he : w.part.Electron) :
    Ends (fetch p e) w fun flow w' => Parked w'.part.pool flow := fun flow w' hx =>
  have hs : Stirs (some p) w w' := (fetch_granting p e).of_exec hx
  (fetch_leads p e flow w' hx).parked (he.of_same hs.config hs.communication)

theorem beginMove_parked (r : Readout) (owner : Option (Int × Int)) {steps : List RelocationStep} (h : Late steps)
    (calls : List DeviceCall) (w : Working (Node n m) n m) :
    Ends (beginMove p e r owner steps calls) w fun flow w' => Parked w'.part.pool flow := by
  cases calls with
  | nil => exact .pure (.late h)
  | cons c calls => exact .bind fun _ _ _ => .pure ⟨h, rfl⟩

/-- A carbon that is taken while the electron is in use does not communicate. -/
theorem allocateSpare_spares (r : Readout) {w : Working (Node n m) n m} (he : w.part.pool.Exhausted) :
    Ends (allocateSpare r) w fun slot w' => w'.part.pool.isCommunication slot = false := by
  refine .attempt (fun slot w' hx => .pure ?_) fun f w' _ => .bind fun _ _ _ => .fail _
  rcases ha : w.part.pool.allocate with f | ⟨slot', pool⟩
  · simp only [allocate, exec_bind, exec_part, exec_ofExcept, ha] at hx
    exact nomatch hx
  · simp only [allocate, exec_bind, exec_part, exec_ofExcept, ha] at hx
    cases hx
    have hp := QubitPool.takes_of_allocate ha
    change pool.isCommunication slot = false
    rw [hp.communication, Bool.eq_false_iff]
    exact fun hc => absurd (he slot hc) (by simp [hp.free])

theorem relocate_parked {r : Readout} {s : RelocationStep} {steps : List RelocationStep} {w : Working (Node n m) n m}
    (h : r.Parks w.part.pool (s :: steps)) :
    Ends (relocate p e r s steps) w fun flow w' => Parked w'.part.pool flow :=
  (log_mild (R := Thrifty) _ _ _).next fun _ w₁ h₁ => by
    rw [← h₁.pool] at h
    cases h with
    | late h =>
      cases s with
      | allocateElectron => exact .bind fun _ _ _ => .bind fun _ _ _ => .pure (.late h.tail)
      | allocateFreeCarbon => exact absurd (.head _) h.1
      | moveElectronToCarbon => exact absurd (.head _) h.2
      | moveCarbonToElectron => exact beginMove_parked p e r none h.tail _ w₁
      | freeCarbon => exact .bind fun _ _ _ => .pure (.late h.tail)
      | measureElectron => exact .bind fun _ _ _ => .pure ⟨trivial, rfl⟩
    | move hr h => exact .bind fun owner w₂ _ => beginMove_parked p e r (some owner) h _ w₂
    | spare he h =>
      refine .bind fun slot w₂ hx => .pure (.move ?_ h)
      exact allocateSpare_spares r he slot w₂ hx

/-- A step of a subroutine keeps to carbons for parking. -/
theorem step_parked {w : Working (Node n m) n m} (he : w.part.Electron) (h : e.stage.Parks w.part.pool) :
    Ends (step p e) w fun flow w' => Parked w'.part.pool flow := by
  unfold step
  split
  · exact .bind fun _ _ _ => .bind fun _ _ _ => .pure trivial
  · exact fetch_parked p e he
  · exact .bind fun _ _ _ => .bind fun _ _ _ => .pure trivial
  · exact .bind fun _ _ _ => .bind fun _ _ _ => .bind fun _ _ _ => .pure trivial
  · exact .pure trivial
  · rename_i hs
    rw [hs] at h
    exact relocate_parked p e h
  · rename_i hs
    rw [hs] at h
    exact .bind fun _ _ _ => .bind fun _ _ _ => .pure (.late h)
  · rename_i r owner c calls steps _ hs
    rw [hs] at h
    exact .bind fun _ w₁ _ => beginMove_parked p e r owner h calls w₁
  · exact .bind fun _ w₁ _ => ((checkRange_plain p e _) w₁).mono fun _ _ h => h.parked _

end Execution

namespace DispatchStage

/-- The subroutine that is executed, if one is, keeps to carbons for parking. -/
def Parks (pool : QubitPool) : DispatchStage → Prop
  | running _ e => e.stage.Parks pool
  | _ => True

def isRelocating : DispatchStage → Bool
  | running _ e => e.stage.isRelocating
  | _ => false

/-- The carbon at which the electron's qubit is to be parked does not communicate. -/
theorem Parks.spare {stage : DispatchStage} {pool : QubitPool} (h : stage.Parks pool) {app : Int}
    {e : Execution} {r : Readout} {steps : List RelocationStep} (hs : stage = .running app e)
    (he : e.stage = .relocating r (.moveElectronToCarbon :: steps)) : pool.isCommunication r.spare = false := by
  subst hs
  change e.stage.Parks pool at h
  rw [he] at h
  cases h with
  | late h => exact absurd (.head _) h.2
  | move hr h => exact hr

end DispatchStage

namespace Dispatch

/-- Work of a dispatcher after which no qubit is being relocated. -/
def Plain (x : NodeWork n m (Step m)) : Prop :=
  Yields (fun flow => flow.stage.isRelocating = false ∧ ∀ pool, flow.stage.Parks pool) x

theorem takeMessage_plain (text : String) : Plain (takeMessage text : NodeWork n m (Step m)) := by
  unfold takeMessage
  split
  · exact .bind fun _ => .fail _
  · refine .bind fun _ => .bind fun _ => ?_
    split
    · exact .pure ⟨rfl, fun _ => trivial⟩
    · exact .pure ⟨rfl, fun _ => trivial⟩

theorem serve_plain (app : Int) : Plain (serve app : NodeWork n m (Step m)) := .bind fun _ => by
  split
  · exact .bind fun _ => .pure ⟨rfl, fun _ => trivial⟩
  · exact .pure ⟨rfl, fun _ => trivial⟩

theorem answer_plain (app : Int) (status : ExecutionStatus) : Plain (answer app status : NodeWork n m (Step m)) :=
  .bind fun _ => by
    cases status with
    | ok => exact .bind fun _ => .bind fun _ => .pure ⟨rfl, fun _ => trivial⟩
    | aborted => exact .bind fun _ => .bind fun _ => .pure ⟨rfl, fun _ => trivial⟩

/-- A step of a dispatcher keeps to carbons for parking, and does not rest before one has been taken. -/
theorem step_parks (p : ProcessId) {stage : DispatchStage} (wake : Wake) {w : Working (Node n m) n m}
    (he : w.part.Electron) (h : stage.Parks w.part.pool) :
    Ends (step p stage wake) w fun flow w' =>
      flow.stage.Parks w'.part.pool ∧ (flow.rests = true → flow.stage.isRelocating = false) := by
  have hplain : ∀ {x : NodeWork n m (Step m)} {w : Working (Node n m) n m}, Plain x → Ends x w fun flow w' =>
      flow.stage.Parks w'.part.pool ∧ (flow.rests = true → flow.stage.isRelocating = false) :=
    fun {x w} hx => (hx w).mono fun flow _ hf => ⟨hf.2 _, fun _ => hf.1⟩
  unfold step
  split
  · exact hplain (takeMessage_plain _)
  · refine hplain (.bind fun _ => .bind fun _ => ?_)
    split
    · exact takeMessage_plain _
    · exact .pure ⟨rfl, fun _ => trivial⟩
  · exact hplain (serve_plain _)
  · rename_i app e
    refine .bind fun flow w₁ hx => ?_
    have hp := Execution.step_parked p e he h flow w₁ hx
    cases flow with
    | go e => exact .pure ⟨hp, nofun⟩
    | rest e => exact .pure ⟨hp.1, fun _ => hp.2⟩
    | call _ _ _ _ => exact nomatch Execution.step_local p e w _ w₁ hx
    | finished status => exact hplain (answer_plain app status)

end Dispatch

end QuantumNode
