import QuantumNode.Proofs.Execution.Counter
import QuantumNode.Proofs.Network.Bystander
import QuantumNode.Proofs.Node.Total
import QuantumNode.Proofs.Subroutine.Error
import QuantumNode.Proofs.Subroutine.RoundTrip

/-! Subroutines that have been read from a text run safely, on devices of either kind. Their instructions have the
operands that they need, the program counter never leaves them, and a fault has to do with what they ask for. -/
namespace QuantumNode

open Node Work Working

/-! ### Operands -/

/-- Errors that blame the text. -/
def SubroutineError.BlamesText (e : SubroutineError) : Prop := ∀ line, e ≠ .signature line

namespace Subroutine

open SubroutineError

theorem addLine_blamesText (l : Layout) (number : Nat) (raw : List Char) :
    Refuses BlamesText (l.addLine number raw) := by
  refine (addLine_refuses l number raw).mono fun e he line hsignature => ?_
  rw [hsignature] at he
  exact Bool.false_ne_true he.1

theorem operand_blamesText (l : Layout) (op : Opcode) (number : Nat) (kind : OperandKind) (cs : List Char) :
    Refuses BlamesText (operand l op number kind cs) := by
  unfold operand
  split
  · exact .ok _
  · split
    · exact .error nofun
    · exact .error nofun

/-- Operands of the right kinds always make an instruction. -/
theorem instruction_blamesText (l : Layout) (c : CodeLine) : Refuses BlamesText (instruction l c) := by
  unfold instruction
  split
  · exact .error nofun
  · split
    · exact .error nofun
    · rename_i hl
      refine Refuses.bind_of (.mapM fun _ _ => operand_blamesText l _ _ _ _) fun os hos => ?_
      obtain ⟨hk, -⟩ := mapM_operand_ok (not_not.1 hl) hos
      obtain ⟨i, hi, -⟩ := Instruction.ofOperands?_of_admitAll hk
      rw [hi]
      exact .ok i

theorem parse_blamesText (text : String) : Refuses BlamesText (parse text) :=
  have hlayout : Refuses BlamesText (Layout.ofText text.toList) :=
    Refuses.foldlM (f := fun (l : Layout) (p : Nat × List Char) => l.addLine p.1 p.2)
      (fun l p _ => addLine_blamesText l p.1 p.2) _
  hlayout.bind fun l => .bind (.mapM fun c _ => instruction_blamesText l c) fun _ => .ok _

end Subroutine

namespace Execution

variable {n m : Nat}

/-- Courses of an execution. Between two steps the rest of the node may do anything that leaves the application's
program counter alone. -/
inductive Runs (p : ProcessId) (s : Subroutine) : Execution → Working (Node n m) n m → Prop where
  | begun (w : Working (Node n m) n m) : Runs p s (.new s) w
  | step {e e' : Execution} {w w' : Working (Node n m) n m} {flow : Step m} (h : Runs p s e w)
      (hx : (step p e).exec w = (.ok flow, w')) (hgo : flow.going? = some e') : Runs p s e' w'
  | meanwhile {e : Execution} {w w' : Working (Node n m) n m} (h : Runs p s e w) (hk : KeepsPc s.appId w w') :
      Runs p s e w'

/-- What every step keeps, and the rest of the node does not change. -/
structure Sound (s : Subroutine) (e : Execution) (w : Working (Node n m) n m) : Prop where
  subroutine : e.subroutine = s
  legible : e.Legible
  bounds : e.InBounds w

variable {p : ProcessId} {s : Subroutine} {e : Execution} {w : Working (Node n m) n m}

theorem Runs.sound (hs : s.Legible) (h : Runs p s e w) : Sound s e w := by
  induction h with
  | begun w => exact ⟨rfl, ⟨hs.instructions, nofun⟩, nofun⟩
  | step _ hx hgo ih =>
    have hc := step_ends p ih.legible ih.bounds _ _ hx _ hgo
    have hsub := hc.subroutine.trans ih.subroutine
    exact ⟨hsub, ⟨hsub ▸ hs.instructions, hc.dest⟩, hc.bounds⟩
  | meanwhile _ hk ih =>
    refine ⟨ih.subroutine, ih.legible, ih.bounds.keeps ?_⟩
    rwa [app, ih.subroutine]

/-- The program counter lies in the subroutine while an instruction is under way, and at its end at most. -/
theorem Sound.pc_le (h : Sound s e w) (hst : e.stage ≠ .start) {mem : AppMemory}
    (hmem : w.part.apps.get? s.appId = some mem) : mem.pc ≤ s.size ∧ (e.stage ≠ .fetch → mem.pc < s.size) := by
  obtain ⟨rfl, -, hb⟩ := h
  obtain ⟨s, stage⟩ := e
  cases stage with
  | start => exact absurd rfl hst
  | fetch => exact ⟨Nat.le_of_lt_succ ((hb _ rfl).2 mem hmem), fun h => absurd rfl h⟩
  | operating _ | reading _ _ | relocating _ _ | moving _ _ _ _ _ | waiting _ =>
    have hlt := (hb _ rfl).2 mem hmem
    exact ⟨Nat.le_of_lt hlt, fun _ => hlt⟩

/-- An instruction is fetched, or the end is where the program counter lies. -/
theorem Sound.fetches (h : Sound s e w) (hst : e.stage = .fetch) {mem : AppMemory}
    (hmem : w.part.apps.get? s.appId = some mem) :
    (∃ i, s.instructions[mem.pc]? = some i) ∨
      mem.pc = s.size ∧ (step p e).exec w = (.ok (.finished .ok), w) := by
  obtain ⟨hle, -⟩ := h.pc_le (by simp [hst]) hmem
  obtain ⟨rfl, -, -⟩ := h
  rcases Nat.lt_or_eq_of_le hle with hlt | heq
  · exact .inl ⟨_, List.getElem?_eq_getElem hlt⟩
  · have hnone : e.subroutine.instructions[mem.pc]? = none := List.getElem?_eq_none (Nat.le_of_eq heq.symm)
    refine .inr ⟨heq, ?_⟩
    rw [step, hst]
    simp only [fetch, exec_bind, exec_memory, app, hmem, hnone, exec_pure]

/-! ### The rest of the node -/

/-- Nobody but an execution for the same application moves its program counter. -/
theorem others_keepPc (app : Int) (q : ProcessId) :
    (∀ stage wake, Within (KeepsPc app) (Pairing.step q stage wake : NodeWork n m (Pairing.Step m))) ∧
    (∀ e, e.app ≠ app → Within (KeepsPc app) (step q e : NodeWork n m (Step m))) ∧
    (∀ stage wake, (∀ k e, stage = .running k e → e.app ≠ app) →
      Within (KeepsPc app) (Dispatch.step q stage wake : NodeWork n m (Dispatch.Step m))) ∧
    ∀ a : NodeAct, Within (KeepsPc app) (a.work : NodeWork n m Unit) := by
  have hstep : ∀ e, e.app ≠ app → Within (KeepsPc app) (step q e : NodeWork n m (Step m)) := fun e hne => by
    have := counting_of_ne (n := n) (m := m) hne
    exact step_granting q e fun _ _ _ _ _ => inferInstance
  refine ⟨fun stage wake => ?_, hstep, fun stage wake hne => ?_, fun a => a.work_sociable fun _ _ => inferInstance⟩
  · exact Pairing.step_within q stage wake (fun _ _ => inferInstance) fun _ _ => inferInstance
  · exact Dispatch.step_enrolling q stage wake fun k e hst => hstep e (hne k e hst)

/-- What is read from a text has the operands that each instruction takes, and no text is refused for lack of an
instruction that takes what its opcode is said to take. On every course of its execution the program counter lies within
the subroutine while an instruction is under way, and at its end at most, where the execution ends; a fault says what is
wrong with a memory, a qubit, a device call or an instruction. Nothing else that happens at a node moves the program
counter, but for another execution for the same application. -/
theorem subroutines_run_safely {text : String} {s : Subroutine} (h : Subroutine.parse text = .ok s) :
    ((∀ op os, OperandKind.admitAll op.signature os = true ↔ ∃ i : Instruction, i.opcode = op ∧ i.operands = os) ∧
      (∀ i : Instruction, Instruction.ofOperands? i.opcode i.operands = some i) ∧
      ∀ text' line, Subroutine.parse text' ≠ .error (.signature line)) ∧
    (∀ (n m : Nat) (p : ProcessId) (e : Execution) (w : Working (Node n m) n m), Runs p s e w →
      (∀ mem, w.part.apps.get? s.appId = some mem → e.stage ≠ .start →
        mem.pc ≤ s.size ∧ (e.stage ≠ .fetch → mem.pc < s.size) ∧
        (e.stage = .fetch → (∃ i, s.instructions[mem.pc]? = some i) ∨
          mem.pc = s.size ∧ (step p e).exec w = (.ok (.finished .ok), w))) ∧
      ∀ f w', (step p e).exec w = (.error f, w') → f.ofExecution = true ∧ f.kind ≠ .protocol ∧
        f.kind ≠ .subroutineAborted ∧ (f.kind = .general → ∃ target, f = .branchOutOfRange target)) ∧
    ∀ (n m : Nat) (q : ProcessId),
      (∀ stage wake, Within (KeepsPc s.appId) (Pairing.step q stage wake : NodeWork n m (Pairing.Step m))) ∧
      (∀ e, e.app ≠ s.appId → Within (KeepsPc s.appId) (step q e : NodeWork n m (Step m))) ∧
      (∀ stage wake, (∀ k e, stage = .running k e → e.app ≠ s.appId) →
        Within (KeepsPc s.appId) (Dispatch.step q stage wake : NodeWork n m (Dispatch.Step m))) ∧
      ∀ a : NodeAct, Within (KeepsPc s.appId) (a.work : NodeWork n m Unit) := by
  have hs : s.Legible := Subroutine.legible_of_parse h
  refine ⟨⟨fun op os => Instruction.exists_iff_admitAll.symm, Instruction.ofOperands?_operands, ?_⟩, ?_,
    fun n m q => others_keepPc s.appId q⟩
  · intro text' line he
    exact Subroutine.parse_blamesText text' _ he line rfl
  · intro n m p e w hr
    have hsound := hr.sound hs
    refine ⟨fun mem hmem hst => ?_, fun f w' hx => ?_⟩
    · obtain ⟨hle, hlt⟩ := hsound.pc_le hst hmem
      exact ⟨hle, hlt, fun hst => hsound.fetches hst hmem⟩
    · have hf : f.ofExecution = true := step_ofExecution p hsound.legible w f w' hx
      exact ⟨hf, Fault.kind_of_ofExecution hf⟩

/-- A subroutine that goes to its end at once. -/
theorem subroutines_run_safely_to_their_end :
    let s : Subroutine := ⟨0, "1.0", [.jump 1]⟩
    Subroutine.parse "JMP end\nend:" = .ok s ∧ ∃ w : Working (Node 1 0) 1 0, Runs 0 s ⟨s, .fetch⟩ w ∧
      (∃ mem, w.part.apps.get? 0 = some mem ∧ mem.pc = s.size) ∧
      (step 0 ⟨s, .fetch⟩).exec w = (.ok (.finished .ok), w) := by
  intro s
  have hparse : Subroutine.parse "JMP end\nend:" = .ok s := by decide +kernel
  refine ⟨hparse, ?_⟩
  obtain ⟨-, hruns, -⟩ := subroutines_run_safely hparse
  let w : Working (Node 1 0) 1 0 := (lone 0 1).atWork
  have hmem : w.part.apps.get? 0 = some (.new 0 1) := rfl
  have hstart : Attains (step 0 (.new s)) w fun flow w₁ => flow = .go ⟨s, .fetch⟩ ∧
      w₁.part.apps.get? 0 = some (.new 0 1) :=
    .bind <| (setPc_attains hmem fun _ => 0).mono fun _ w₁ h₁ => .bind <| (log_attains _ _ _).mono fun _ w₂ h₂ =>
      .pure ⟨rfl, by simp [h₂, h₁, AppMemory.new]⟩
  obtain ⟨_, w₁, hx₁, rfl, hmem₁⟩ := hstart
  have hjump : Attains (step 0 ⟨s, .fetch⟩) w₁ fun flow w₂ => flow = .go ⟨s, .fetch⟩ ∧
      w₂.part.apps.get? 0 = some { AppMemory.new 0 1 with pc := 1 } := by
    refine .bind <| (memory_attains hmem₁).mono fun mem₀ w₀ h₀ => ?_
    obtain ⟨rfl, rfl⟩ := h₀
    refine .bind <| (log_attains _ _ _).mono fun _ w₂ h₂ => .modifyPart <| .bind <| .bind <| .pure <|
      .ite_neg (by decide) <| .bind <| (log_attains _ _ _).mono fun _ w₃ h₃ => ?_
    have hmem₃ : w₃.part.apps.get? 0 = some (.new 0 1) := by simpa [h₃, h₂] using hmem₁
    exact (setPc_attains hmem₃ fun _ => 1).mono fun _ w₄ h₄ => .pure ⟨rfl, by simp [h₄]⟩
  obtain ⟨_, w₂, hx₂, rfl, hmem₂⟩ := hjump
  have hrun : Runs 0 s ⟨s, .fetch⟩ w₂ := ((Runs.begun w).step hx₁ rfl).step hx₂ rfl
  obtain ⟨-, -, hend⟩ := (hruns 1 0 0 _ w₂ hrun).1 _ hmem₂ (by simp)
  rcases hend rfl with ⟨i, hi⟩ | ⟨hpc, hfin⟩
  · exact nomatch hi
  · exact ⟨w₂, hrun, ⟨_, hmem₂, hpc⟩, hfin⟩

end Execution

end QuantumNode
