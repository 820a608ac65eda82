import QuantumNode.Proofs.Isolation.Dispatch
import QuantumNode.Proofs.Network.Awaiting
import QuantumNode.Proofs.Ownership.Network

/-! The carbon to which the electron's qubit makes way. A measurement that needs one asks for a free one, and holds it
until the electron's qubit is there. -/
namespace QuantumNode

open Node Work Working

variable {n m : Nat}

/-- The measurement for which a subroutine keeps a carbon, until the electron's qubit is there. -/
def ExecutionStage.parking? : ExecutionStage → Option Readout
  | .relocating r (.moveElectronToCarbon :: _) | .moving r (some _) .. => some r
  | _ => none

theorem parking?_plan (r : Readout) (target : Nat) (electronAllocated : Bool) :
    (ExecutionStage.relocating r (relocationPlan target electronAllocated)).parking? = none := by
  unfold relocationPlan
  split
  · rfl
  · cases electronAllocated with
    | _ => rfl

/-- A subroutine that asks for a carbon, which is free. -/
def Execution.Asks (e : Execution) (node : Node n m) (r : Readout) : Prop :=
  ∃ r₀ steps, e.stage = .relocating r₀ (.allocateFreeCarbon :: steps) ∧ r = { r₀ with spare := r.spare } ∧
    node.pool.isAllocated r.spare = false

namespace Execution

variable {e : Execution} {w : Working (Node n m) n m}

/-- A subroutine that is still the same, with a carbon that it has kept or has just been given. It moves qubits on an NV
device only. -/
structure Resumes (e : Execution) (node : Node n m) (e' : Execution) : Prop where
  subroutine : e'.subroutine = e.subroutine
  parking : ∀ r, e'.stage.parking? = some r → e.stage.parking? = some r ∨ e.Asks node r
  relocating : e'.stage.isPlain = false → e.stage.isPlain = false ∨ node.device.config.isNV = true

/-- What a subroutine goes on with, if it does. -/
def Keeps (e : Execution) (node : Node n m) (flow : Step m) : Prop := ∀ e', flow.going? = some e' → e.Resumes node e'

theorem Keeps.of_going {node : Node n m} {flow : Step m} {e' : Execution} (hf : flow.going? = some e')
    (h : e.Resumes node e') : e.Keeps node flow := fun e'' he'' => by
  obtain rfl := Option.some.inj (hf.symm.trans he'')
  exact h

/-- A subroutine that keeps no carbon, and goes on to move qubits only if it is already at it. -/
theorem Keeps.of_none {node : Node n m} {flow : Step m} {e' : Execution} (hf : flow.going? = some e')
    (hs : e'.subroutine = e.subroutine) (hp : e'.stage.parking? = none)
    (hr : e'.stage.isPlain = false → e.stage.isPlain = false) : e.Keeps node flow :=
  .of_going hf ⟨hs, fun _ h => (nomatch hp.symm.trans h), fun h => .inl (hr h)⟩

theorem Plain.keeps {node : Node n m} {flow : Step m} (h : Plain e flow) : e.Keeps node flow := by
  cases h with
  | finished status => exact fun _ h => nomatch h
  | _ => exact .of_none rfl rfl rfl nofun

theorem Leads.keeps {node node' : Node n m} {flow : Step m} (h : Leads e node' flow)
    (hc : node'.device.config = node.device.config) : e.Keeps node flow := by
  cases h with
  | plain h => exact h.keeps
  | measuring hnv r =>
    rw [hc] at hnv
    exact .of_going rfl ⟨rfl, fun _ h => (nomatch (parking?_plan r _ _).symm.trans h), fun _ => .inr hnv⟩

theorem fetch_keeps (p : ProcessId) : Ends (fetch p e) w fun flow _ => e.Keeps w.part flow := fun flow w' hx =>
  have hs : Stirs (some p) w w' := (fetch_granting p e).of_exec hx
  (fetch_leads p e flow w' hx).keeps hs.config

/-- A slot that is given away was free. -/
theorem allocateSpare_ends (r : Readout) :
    Ends (allocateSpare r) w fun spare _ => w.part.pool.isAllocated spare = false := by
  refine .attempt (fun spare w₁ h₁ => .pure ?_) fun _ _ _ => .bind fun _ _ _ => .fail _
  obtain ⟨node, _, ⟨⟩, h₂⟩ := exec_bind_ok.1 h₁
  obtain ⟨⟨id, pool⟩, _, hx, h₃⟩ := exec_bind_ok.1 h₂
  obtain ⟨ha, rfl⟩ := Prod.mk.inj hx
  obtain ⟨⟨⟩, -⟩ := Prod.mk.inj h₃
  exact (QubitPool.takes_of_allocate ha).free

theorem beginMove_keeps (p : ProcessId) (r : Readout) (owner : Option (Int × Int)) (steps : List RelocationStep)
    (c : DeviceCall) (calls : List DeviceCall) {node : Node n m} (hr : e.stage.isPlain = false)
    (h : ∀ r', (ExecutionStage.moving r owner c calls steps).parking? = some r' → e.stage.parking? = some r') :
    Ends (beginMove p e r owner steps (c :: calls)) w fun flow _ => e.Keeps node flow :=
  .bind fun _ _ _ => .pure (.of_going rfl ⟨rfl, fun r' hr => .inl (h r' hr), fun _ => .inl hr⟩)

theorem relocate_keeps (p : ProcessId) {r : Readout} {s : RelocationStep} {steps : List RelocationStep}
    (hst : e.stage = .relocating r (s :: steps)) (hs : w.part.Relocates e.app r (s :: steps)) :
    Ends (relocate p e r s steps) w fun flow _ => e.Keeps w.part flow := by
  have hmoving : e.stage.isPlain = false := by
    rw [hst]
    rfl
  refine .bind <| (log_ends _ _ _).mono fun _ w₁ h₁ => ?_
  cases hs with
  | measure => exact .bind fun _ _ _ => .pure (.of_none rfl rfl rfl nofun)
  | free => exact .bind fun _ _ _ => .pure (.of_none rfl rfl rfl fun _ => hmoving)
  | move => exact beginMove_keeps p r none _ _ _ hmoving nofun
  | allocate _ _ => exact .bind fun _ _ _ => .bind fun _ _ _ => .pure (.of_none rfl rfl rfl fun _ => hmoving)
  | park _ =>
    refine .bind fun owner _ _ => beginMove_keeps p r (some owner) _ _ _ hmoving fun r' hr => ?_
    rw [hst]
    exact hr
  | spare _ =>
    refine .bind <| (allocateSpare_ends r).mono fun spare _ hfree => .pure <| .of_going rfl
      ⟨rfl, fun r' hr => .inr ?_, fun _ => .inl hmoving⟩
    obtain rfl : { r with spare := spare } = r' := Option.some.inj hr
    exact ⟨r, _, hst, rfl, h₁ ▸ hfree⟩

theorem step_keeps (p : ProcessId) (hs : w.part.Sound e.app e.stage) :
    Ends (step p e) w fun flow _ => e.Keeps w.part flow := by
  unfold step
  split
  · exact .bind fun _ _ _ => .bind fun _ _ _ => .pure (.of_none rfl rfl rfl nofun)
  · exact fetch_keeps p
  · exact .bind fun _ _ _ => .bind fun _ _ _ => .pure (.of_none rfl rfl rfl nofun)
  · exact .bind fun _ _ _ => .bind fun _ _ _ => .bind fun _ _ _ => .pure (.of_none rfl rfl rfl nofun)
  · exact .pure (.of_none rfl rfl rfl nofun)
  · rename_i r s steps hst
    rw [hst] at hs
    exact relocate_keeps p hst hs
  · rename_i r owner c steps hst
    rw [hst] at hs
    refine .bind fun _ _ _ => .bind fun _ _ _ => .pure (.of_none rfl rfl ?_ fun _ => by rw [hst]; rfl)
    cases owner with
    | none =>
      obtain rfl : steps = [.freeCarbon, .measureElectron] := hs
      rfl
    | some owner =>
      obtain ⟨rfl, -, -⟩ := hs
      rfl
  · rename_i r owner c calls steps hcalls hst
    refine .bind fun _ _ _ => ?_
    cases calls with
    | nil => exact absurd rfl hcalls
    | cons c' calls =>
      refine beginMove_keeps p r owner _ _ _ (by rw [hst]; rfl) fun r' hr => ?_
      rw [hst]
      cases owner with
      | none => exact nomatch hr
      | some owner => exact hr
  · exact .bind fun _ w₁ _ => (checkRange_plain p e _ w₁).mono fun _ _ h => h.keeps

end Execution

end QuantumNode
