import QuantumNode.Proofs.Node.Execution
import QuantumNode.Proofs.Ownership.Primitive

/-! A subroutine holds a slot only while it measures a qubit of an NV device: the spare carbon until the electron's
qubit has moved there, then the carbon that the measured qubit has left. -/
namespace QuantumNode

open Work Working

variable {n m : Nat}

/-- The slots that a subroutine holds. -/
def ExecutionStage.held : ExecutionStage → List Nat
  | .relocating r (.moveElectronToCarbon :: _) | .moving r (some _) .. => [r.spare]
  | .relocating r (.moveCarbonToElectron :: _) | .relocating r (.freeCarbon :: _) | .moving r none .. => [r.target]
  | _ => []

/-- The qubit to be measured is still at its carbon, unless its application has gone. -/
def Node.AtCarbon (node : Node n m) (app : Int) (r : Readout) : Prop :=
  node.StillMaps app r.virt r.target ∧ r.target ≠ 0

/-- The measured qubit is not the one that makes way for it. -/
theorem Node.AtCarbon.stays {node node₁ node₂ : Node n m} {app : Int} {r : Readout} {owner : Int × Int}
    (hc : node.AtCarbon app r) (ho : node.Maps owner.1 owner.2 0)
    (hunmap : ∀ a v q, node₁.Maps a v q ↔ node.Maps a v q ∧ ¬ (a = owner.1 ∧ v = owner.2))
    (hmap : ∀ a v q, node₂.Maps a v q ↔ node₁.Maps a v q ∨ (a = owner.1 ∧ v = owner.2 ∧ q = r.spare))
    (hg : node.Gone app → node₂.Gone app) : node₂.StillMaps app r.virt r.target := by
  refine hc.1.mono (fun hmaps => ?_) hg
  have hne : ¬ (app = owner.1 ∧ r.virt = owner.2) := fun ⟨ha, hv⟩ => by
    rw [ha, hv] at hmaps
    exact hc.2 (hmaps.unique ho)
  exact (hmap ..).2 (.inl ((hunmap ..).2 ⟨hmaps, hne⟩))

/-- What is left of a relocation, and what it relies on. -/
inductive Node.Relocates (node : Node n m) (app : Int) (r : Readout) : List RelocationStep → Prop where
  | finished : Relocates node app r []
  | measure : Relocates node app r [.measureElectron]
  | free : Relocates node app r [.freeCarbon, .measureElectron]
  | move : Relocates node app r [.moveCarbonToElectron, .freeCarbon, .measureElectron]
  | allocate (h : node.AtCarbon app r) (hnv : node.device.config.isNV = true) :
      Relocates node app r [.allocateElectron, .moveCarbonToElectron, .freeCarbon, .measureElectron]
  | park (h : node.AtCarbon app r) :
      Relocates node app r [.moveElectronToCarbon, .moveCarbonToElectron, .freeCarbon, .measureElectron]
  | spare (h : node.AtCarbon app r) :
      Relocates node app r
        [.allocateFreeCarbon, .moveElectronToCarbon, .moveCarbonToElectron, .freeCarbon, .measureElectron]

/-- What a subroutine of an application relies on while it measures. -/
def Node.Sound (node : Node n m) (app : Int) : ExecutionStage → Prop
  | .relocating r steps => node.Relocates app r steps
  | .moving r (some owner) _ _ steps => steps = [.moveCarbonToElectron, .freeCarbon, .measureElectron] ∧
      node.AtCarbon app r ∧ node.StillMaps owner.1 owner.2 0
  | .moving _ none _ _ steps => steps = [.freeCarbon, .measureElectron]
  | _ => True

/-- Stages in which no qubit is relocated. -/
def ExecutionStage.isPlain : ExecutionStage → Bool
  | .relocating .. | .moving .. => false
  | _ => true

/-- Of an NV device only the electron communicates. -/
def Node.Electron (node : Node n m) : Prop :=
  node.device.config.isNV = true → ∀ p, node.pool.isCommunication p = true → p = 0

theorem Node.Electron.of_same {node node' : Node n m} (h : node.Electron)
    (hc : node'.device.config = node.device.config) (hp : ∀ p, node'.pool.isCommunication p = node.pool.isCommunication p) :
    node'.Electron := fun hnv p hcomm => by
  rw [hc] at hnv
  rw [hp] at hcomm
  exact h hnv p hcomm

theorem Working.Trades.electron {w w' : Working (Node n m) n m} {a b : List Nat} (h : Trades a b w w')
    (he : w.part.Electron) : w'.part.Electron := he.of_same h.config h.communication

/-- What a subroutine relies on outlasts work in which no virtual id of an application that stays loses its slot. -/
theorem Node.Sound.mono {node node' : Node n m} {app : Int} {stage : ExecutionStage} (h : node.Sound app stage)
    (hm : ∀ {a v p}, node.StillMaps a v p → node'.StillMaps a v p) (hc : node'.device.config = node.device.config) :
    node'.Sound app stage := by
  cases stage with
  | relocating r steps =>
    cases (h : node.Relocates app r steps) with
    | finished => exact .finished
    | measure => exact .measure
    | free => exact .free
    | move => exact .move
    | allocate h hnv => exact .allocate ⟨hm h.1, h.2⟩ (hc ▸ hnv)
    | park h => exact .park ⟨hm h.1, h.2⟩
    | spare h => exact .spare ⟨hm h.1, h.2⟩
  | moving r owner c calls steps =>
    cases owner with
    | none => exact h
    | some owner => exact ⟨h.1, ⟨hm h.2.1.1, h.2.1.2⟩, hm h.2.2⟩
  | _ => trivial

namespace Execution

open Node

variable {w : Working (Node n m) n m}

/-- What a step of a subroutine comes to, given the slots it held. -/
def Outcome (s : Subroutine) (held : List Nat) (w : Working (Node n m) n m) (flow : Step m)
    (w' : Working (Node n m) n m) : Prop :=
  match flow with
  | .go e | .rest e => e.subroutine = s ∧ Trades held e.stage.held w w' ∧ w'.part.Sound e.app e.stage
  | .finished _ => Trades held [] w w'
  | .call .. => False

theorem Outcome.of_trades {s : Subroutine} {a b : List Nat} {w₁ w' : Working (Node n m) n m} {flow : Step m}
    (h : Trades a b w w₁) (ho : Outcome s b w₁ flow w') : Outcome s a w flow w' := by
  cases flow with
  | go e => exact ⟨ho.1, h.trans ho.2.1, ho.2.2⟩
  | rest e => exact ⟨ho.1, h.trans ho.2.1, ho.2.2⟩
  | call e l s c => exact ho
  | finished st => exact h.trans ho

theorem Outcome.of_still {s : Subroutine} {a : List Nat} {w₁ w' : Working (Node n m) n m} {flow : Step m}
    (h : Still w w₁) (ho : Outcome s a w₁ flow w') : Outcome s a w flow w' :=
  ho.of_trades (h.toThrifty.trades a)

/-- Nothing is held by a subroutine that goes on with its next instruction. -/
theorem go_fetch (e : Execution) : Ends (return .go { e with stage := .fetch } : NodeWork n m (Step m)) w
    (Outcome e.subroutine [] w) :=
  .pure ⟨rfl, (Std.Refl.refl w : Thrifty w w).trades [], trivial⟩

theorem checkRange_outcome (p : ProcessId) (e : Execution) (a : AwaitedRange) :
    Ends (checkRange p e a) w (Outcome e.subroutine [] w) := by
  refine .part ((modifyService_thrifty _).next fun _ w₁ h₁ => ?_)
  refine Ends.mono ?_ fun _ _ ho => Outcome.of_trades (h₁.trades []) ho
  split
  · exact (memory_mild _).still.next fun _ w₂ h₂ => (log_mild _ _ _).still.next fun _ w₃ h₃ =>
      .pure ((h₂.toThrifty.trans h₃.toThrifty).trades [])
  · refine (memory_mild _).still.next fun _ w₂ h₂ => .ofExcept fun vs _ => ?_
    refine Ends.mono ?_ fun _ _ ho => Outcome.of_still h₂ ho
    split
    · exact (advance_counting _).still.next fun _ w₃ h₃ => (go_fetch e).mono fun _ _ ho => ho.of_still h₃
    · split
      · exact (log_mild _ _ _).still.next fun _ w₃ h₃ => (advance_counting _).still.next fun _ w₄ h₄ =>
          (go_fetch e).mono fun _ _ ho => (ho.of_still h₄).of_still h₃
      · exact (waitForWrite_mild p).still.next fun _ w₃ h₃ => .pure ⟨rfl, h₃.toThrifty.trades [], trivial⟩

theorem waitAll_outcome (p : ProcessId) (e : Execution) (s : ArraySlice) :
    Ends (waitAll p e s) w (Outcome e.subroutine [] w) :=
  (resolve_mild _ _).still.next fun _ _ h₁ => (resolve_mild _ _).still.next fun _ _ h₂ =>
    (log_mild _ _ _).still.next fun _ _ h₃ => (checkRange_outcome _ _ _).mono fun _ _ ho =>
      ((ho.of_still h₃).of_still h₂).of_still h₁

theorem operate_outcome (p : ProcessId) (e : Execution) (c : DeviceCall) :
    Ends (operate p e c) w (Outcome e.subroutine [] w) :=
  (startCall_mild _ _).still.next fun _ _ h₁ => .pure ⟨rfl, h₁.toThrifty.trades [], trivial⟩

theorem unsupported_ends (i : Instruction) {Q : Step m → Working (Node n m) n m → Prop} : Ends (unsupported i) w Q :=
  .bind fun _ _ _ => .part (.fail _)

/-- A readout begins with a plan for the carbon at which the qubit is. -/
theorem beginReadout_outcome (e : Execution) (virt : Int) (dest : Register)
    (hnv : w.part.device.config.isNV = true) : Ends (beginReadout e virt dest) w (Outcome e.subroutine [] w) := by
  refine .bind <| (memory_ends e.app).mono fun mem w₁ ⟨hw, hmem⟩ => ?_
  subst hw
  refine .ofExcept fun q hq => ?_
  cases q with
  | none => exact .fail _
  | some target =>
    have hmaps : w₁.part.Maps e.app virt target := ⟨mem, hmem, hq⟩
    refine .part (.pure ⟨rfl, ?_, ?_⟩)
    · have hheld : ∀ b, (ExecutionStage.relocating ⟨virt, dest, target, 0⟩ (relocationPlan target b)).held = [] := by
        intro b
        unfold relocationPlan
        split
        · rfl
        · split
          · rfl
          · rfl
      dsimp only
      rw [hheld]
      exact (Std.Refl.refl w₁ : Thrifty w₁ w₁).trades []
    · change w₁.part.Relocates _ _ (relocationPlan _ _)
      unfold relocationPlan
      split
      · exact .measure
      · rename_i h0
        split
        · exact .spare ⟨.inl hmaps, h0⟩
        · exact .allocate ⟨.inl hmaps, h0⟩ hnv

theorem quantum_outcome (p : ProcessId) (e : Execution) (i : Instruction) :
    Ends (quantum p e i) w (Outcome e.subroutine [] w) := by
  refine .part ?_
  have hoperate : ∀ {w₁ : Working (Node n m) n m} c, Still w w₁ →
      Ends (operate p e c) w₁ (Outcome e.subroutine [] w) :=
    fun c h => (operate_outcome p e c).mono fun _ _ ho => ho.of_still h
  dsimp only
  split
  · exact (position_mild _ _).still.next fun _ _ h₁ => hoperate _ h₁
  · split
    · exact unsupported_ends _
    · exact (position_mild _ _).still.next fun _ _ h₁ => hoperate _ h₁
  · exact (position_mild _ _).still.next fun _ _ h₁ => hoperate _ h₁
  · split
    · exact unsupported_ends _
    · exact (position_mild _ _).still.next fun _ _ h₁ => (position_mild _ _).still.next fun _ _ h₂ =>
        hoperate _ (IsTrans.trans _ _ _ h₁ h₂)
  · split
    · exact (position_mild _ _).still.next fun _ _ h₁ => (position_mild _ _).still.next fun _ _ h₂ =>
        hoperate _ (IsTrans.trans _ _ _ h₁ h₂)
    · exact unsupported_ends _
  · split
    · rename_i hnv
      exact (resolveRegister_mild _ _).still.next fun _ w₁ h₁ =>
        (beginReadout_outcome e _ _ (by rw [h₁.config]; exact hnv)).mono fun _ _ ho => ho.of_still h₁
    · exact (position_mild _ _).still.next fun _ _ h₁ => (startCall_mild _ _).still.next fun _ _ h₂ =>
        .pure ⟨rfl, (h₁.toThrifty.trans h₂.toThrifty).trades [], trivial⟩
  · exact unsupported_ends _

/-! Taking and returning a qubit of one's own. -/

theorem qalloc_trades (app : Int) (r : Register) : Ends (qalloc app r) w fun _ w' => Trades [] [] w w' := by
  refine (resolveRegister_mild _ _).still.next fun virt w₁ h₁ => .bind ?_
  refine .attempt (fun phys w₂ h₂ => .pure ?_) fun f _ _ => .bind fun _ _ _ => .fail _
  have h₂ := (allocate_ends phys w₂ h₂).1
  refine .attempt (fun _ w₃ h₃ => ?_) fun f _ _ => .bind fun _ _ _ => .fail _
  have h₃ := (mapQubit_ends _ _ _ _ w₃ h₃).1
  exact fun _ w₄ h₄ => (((h₁.toThrifty.trades []).trans h₂).trans h₃).trans
    (((log_mild _ _ _).still.of_exec h₄).toThrifty.trades [])

theorem position_ends (app : Int) (r : Register) (virt : Int) (hv : ∀ mem, w.part.apps.get? app = some mem →
    mem.resolve (.register r) = .ok virt) :
    Ends (position app r) w fun p w' => Still w w' ∧ w'.part.Maps app virt p := by
  refine .bind fun v w₁ he => ?_
  obtain ⟨mem, w₀, h₀, h₁⟩ := exec_bind_ok.1 he
  obtain ⟨rfl, hmem⟩ := memory_ends app mem w₀ h₀
  obtain ⟨hr, rfl⟩ := Prod.mk.inj h₁
  rw [hv mem hmem] at hr
  cases hr
  refine .bind <| (memory_ends app).mono fun mem w₁ ⟨hw, hmem⟩ => ?_
  subst hw
  refine .ofExcept fun q hq => ?_
  cases q with
  | none => exact .bind fun _ _ _ => .fail _
  | some phys => exact .pure ⟨Std.Refl.refl _, mem, hmem, hq⟩

theorem resolveRegister_ends (app : Int) (r : Register) : Ends (resolveRegister app r) w fun virt w' =>
    w' = w ∧ ∀ mem, w.part.apps.get? app = some mem → mem.resolve (.register r) = .ok virt :=
  .bind <| (memory_ends app).mono fun mem w₁ ⟨hw, hmem⟩ virt w₂ he => by
    obtain ⟨hr, rfl⟩ := Prod.mk.inj he
    refine ⟨hw, fun mem' hmem' => ?_⟩
    cases hmem.symm.trans hmem'
    exact hr

theorem qfree_trades (app : Int) (r : Register) : Ends (qfree app r) w fun _ w' => Trades [] [] w w' := by
  refine .bind <| (resolveRegister_ends app r).mono fun virt w₁ ⟨hw, hr⟩ => ?_
  subst hw
  exact .bind <| (position_ends app r virt hr).mono fun p w₂ ⟨h₂, hmaps⟩ => .bind <|
    (unmapQubit_ends hmaps).mono fun _ w₃ ⟨h₃, _⟩ => (freeQubit_ends p).mono fun _ w₄ ⟨h₄, _⟩ =>
      ((h₂.toThrifty.trades []).trans h₃).trans h₄

theorem classical_trades (app : Int) (i : Instruction) :
    Ends (classical app i) w fun _ w' => Trades [] [] w w' := by
  cases h : takesQubit i with
  | false => exact fun _ _ he => ((classical_mild app h).still.of_exec he).toThrifty.trades []
  | true =>
    cases i with
    | qalloc q => exact qalloc_trades app q
    | qfree q => exact qfree_trades app q
    | _ => exact nomatch h

theorem perform_outcome (p : ProcessId) (e : Execution) (i : Instruction) :
    Ends (perform p e i) w (Outcome e.subroutine [] w) := by
  have hbranch : Ends (do
      branch e.app e.subroutine.size i
      return .go { e with stage := .fetch } : NodeWork n m (Step m)) w (Outcome e.subroutine [] w) :=
    (branch_counting _ _ _).still.next fun _ _ h₁ => (go_fetch e).mono fun _ _ ho => ho.of_still h₁
  cases i with
  | jump _ => exact hbranch
  | branchZero _ _ _ => exact hbranch
  | branch _ _ _ _ => exact hbranch
  | waitAll s => exact waitAll_outcome p e s
  | init q => exact quantum_outcome p e (.init q)
  | gate g q => exact quantum_outcome p e (.gate g q)
  | rotate a q k d => exact quantum_outcome p e (.rotate a q k d)
  | pairGate g a b => exact quantum_outcome p e (.pairGate g a b)
  | directed a b c k d => exact quantum_outcome p e (.directed a b c k d)
  | measure q dest => exact quantum_outcome p e (.measure q dest)
  | _ =>
    exact .bind <| (classical_trades e.app _).mono fun _ _ h₁ => (advance_counting _).still.next fun _ _ h₂ =>
      (go_fetch e).mono fun _ _ ho => (ho.of_still h₂).of_trades h₁

theorem fetch_outcome (p : ProcessId) (e : Execution) : Ends (fetch p e) w (Outcome e.subroutine [] w) := by
  refine (memory_mild _).still.next fun _ w₁ h₁ => ?_
  dsimp only
  split
  · exact .pure (h₁.toThrifty.trades [])
  · exact (log_mild _ _ _).still.next fun _ _ h₂ => countExecuted_mild.still.next fun _ _ h₃ =>
      (perform_outcome p e _).mono fun _ _ ho => ((ho.of_still h₃).of_still h₂).of_still h₁

/-! Measuring at the electron. -/

theorem beginMove_outcome (p : ProcessId) (e : Execution) (r : Readout) (owner : Option (Int × Int))
    (steps : List RelocationStep) (c : DeviceCall) (calls : List DeviceCall)
    (hs : w.part.Sound e.app (.moving r owner c calls steps)) :
    Ends (beginMove p e r owner steps (c :: calls)) w
      (Outcome e.subroutine (ExecutionStage.moving r owner c calls steps).held w) :=
  ((startCall_mild _ _).still.and (startCall_mild _ _).enrols).next fun _ _ ⟨h₁, g₁⟩ => .pure
    ⟨rfl, h₁.toThrifty.trades _, hs.mono (h₁.toThrifty.stillMaps g₁) h₁.config⟩

/-- The measured qubit leaves its carbon for the electron. -/
theorem claimElectron_trades {app virt : Int} {target : Nat} (h : w.part.StillMaps app virt target) :
    Ends (claimElectron app virt) w fun _ w' => Trades [0] [target] w w' := by
  rcases h with hmaps | hgone
  · exact .bind <| (unmapQubit_ends hmaps).mono fun _ _ ⟨h₁, _⟩ => (mapQubit_ends app virt 0).mono fun _ _ ⟨h₂, _⟩ =>
      ((h₁.frame [0]).perm (.refl _) (.swap _ _ _)).trans (h₂.frame [target])
  · exact .bind (updateMemory_gone hgone _)

/-- The electron's qubit moves to the spare carbon, and the measured qubit to the electron. -/
theorem exchangeOwners_trades (e : Execution) {r : Readout} {owner : Int × Int} (hc : w.part.AtCarbon e.app r)
    (ho : w.part.StillMaps owner.1 owner.2 0) :
    Ends (exchangeOwners e r owner) w fun _ w' => Trades [r.spare] [r.target] w w' := by
  refine ((log_mild _ _ _).still.and (log_mild _ _ _).enrols).next fun _ w₁ ⟨h₁, g₁⟩ => ?_
  have hc₁ : w₁.part.AtCarbon e.app r := ⟨h₁.toThrifty.stillMaps g₁ hc.1, hc.2⟩
  rcases h₁.toThrifty.stillMaps g₁ ho with ho₁ | hgone
  · refine .bind <| ((unmapQubit_ends ho₁).within (updateMemory_housing fun _ _ => AppMemory.unmapQubit_remaps).enrols).mono fun _ w₂ ⟨⟨h₂, hm₂⟩, g₂⟩ => .bind <|
      ((mapQubit_ends owner.1 owner.2 r.spare).within (mapQubit_housing _ _).enrols).mono fun _ w₃ ⟨⟨h₃, hm₃⟩, g₃⟩ => ?_
    have hc₃ : w₃.part.StillMaps e.app r.virt r.target := hc₁.stays ho₁ hm₂ hm₃ (g₂.trans g₃).gone
    refine .bind <| (claimElectron_trades hc₃).mono fun _ w₄ h₄ _ w₅ he => ?_
    obtain ⟨-, rfl⟩ := Prod.mk.inj he
    have h₅ : Thrifty w₄ { w₄ with part := { w₄.part with relocations := w₄.part.relocations + 1 } } :=
      .of_eq rfl rfl rfl
    exact ((((h₁.toThrifty.trades _).trans ((h₂.frame [r.spare]).perm (.refl _) (.swap _ _ _))).trans
      (h₃.frame [0])).trans h₄).trans (h₅.trades _)
  · exact .bind (updateMemory_gone hgone _)

theorem allocateSpare_trades (r : Readout) : Ends (allocateSpare r) w fun spare w' =>
    Trades [] [spare] w w' ∧ w'.part.apps = w.part.apps :=
  .attempt (fun spare w₁ h₁ => .pure (allocate_ends spare w₁ h₁)) fun _ _ _ => .bind fun _ _ _ => .fail _

theorem electronOwner_ends (hasc : w.part.apps.Ascending) (r : Readout) :
    Ends (electronOwner r) w fun owner w' => w' = w ∧ w.part.Maps owner.1 owner.2 0 := by
  refine .part ?_
  split
  · rename_i owner howner
    exact .pure ⟨rfl, maps_of_owner? hasc howner⟩
  · exact .bind fun _ _ _ => .bind fun _ _ _ => .fail _

theorem relocate_outcome (p : ProcessId) (e : Execution) (r : Readout) (s : RelocationStep)
    (steps : List RelocationStep) (hasc : w.part.apps.Ascending) (hel : w.part.Electron)
    (hs : w.part.Relocates e.app r (s :: steps)) :
    Ends (relocate p e r s steps) w (Outcome e.subroutine (ExecutionStage.relocating r (s :: steps)).held w) := by
  refine ((log_mild _ _ _).still.and (log_mild _ _ _).enrols).next fun _ w₁ ⟨h₁, g₁⟩ => ?_
  refine Ends.mono ?_ fun _ _ ho => Outcome.of_still h₁ ho
  have hsound : w.part.Sound e.app (.relocating r (s :: steps)) := hs
  have hs₁ : w₁.part.Relocates e.app r (s :: steps) := hsound.mono (h₁.toThrifty.stillMaps g₁) h₁.config
  have hel₁ := (h₁.toThrifty.trades []).electron hel
  have hasc₁ := h₁.ascending hasc
  cases hs₁ with
  | measure => exact (startCall_mild _ _).still.next fun _ _ h₂ => .pure ⟨rfl, h₂.toThrifty.trades [], trivial⟩
  | free => exact .bind <| (freeQubit_ends r.target).mono fun _ _ ⟨h₂, _⟩ => .pure ⟨rfl, h₂, .measure⟩
  | move => exact beginMove_outcome p e r none _ _ _ rfl
  | allocate hc hnv =>
    refine .bind <| (allocateCommunication_ends.within allocateCommunication_pooling.enrols).mono
      fun q w₂ ⟨⟨⟨h₂, happs⟩, hq⟩, g₂⟩ => ?_
    obtain rfl := hel₁ hnv q hq
    exact .bind <| (claimElectron_trades (hc.1.mono (maps_congr happs ..).2 g₂.gone)).mono fun _ _ h₃ =>
      .pure ⟨rfl, h₂.trans h₃, .move⟩
  | park hc =>
    refine .bind <| (electronOwner_ends hasc₁ r).mono fun owner w₂ ⟨hw, ho⟩ => ?_
    subst hw
    exact beginMove_outcome p e r (some owner) _ _ _ ⟨rfl, hc, .inl ho⟩
  | spare hc =>
    exact .bind <| ((allocateSpare_trades r).within (allocateSpare_pooling r).enrols).mono
      fun spare _ ⟨⟨h₂, happs⟩, g₂⟩ => .pure ⟨rfl, h₂, .park ⟨hc.1.mono (maps_congr happs ..).2 g₂.gone, hc.2⟩⟩

/-- A step of a subroutine trades the slots of its stage for those of the next. -/
theorem step_outcome (p : ProcessId) (e : Execution) (hasc : w.part.apps.Ascending) (hel : w.part.Electron)
    (hs : w.part.Sound e.app e.stage) : Ends (step p e) w (Outcome e.subroutine e.stage.held w) := by
  unfold step
  split
  · rename_i hstage
    rw [hstage]
    refine (updateMemory_mild e.app fun _ _ h => ?_).still.next fun _ _ h₁ => (log_mild _ _ _).still.next fun _ _ h₂ =>
      (go_fetch e).mono fun _ _ ho => (ho.of_still h₂).of_still h₁
    cases h
    rfl
  · rename_i hstage
    rw [hstage]
    exact fetch_outcome p e
  · rename_i hstage
    rw [hstage]
    exact (finishCall_mild _).still.next fun _ _ h₁ => (advance_counting _).still.next fun _ _ h₂ =>
      (go_fetch e).mono fun _ _ ho => (ho.of_still h₂).of_still h₁
  · rename_i hstage
    rw [hstage]
    exact (finishCall_mild _).still.next fun _ _ h₁ => (setRegister_mild _ _ _).still.next fun _ _ h₂ =>
      (advance_counting _).still.next fun _ _ h₃ => (go_fetch e).mono fun _ _ ho => ((ho.of_still h₃).of_still h₂).of_still h₁
  · rename_i hstage
    rw [hstage]
    exact go_fetch e
  · rename_i r s steps hstage
    rw [hstage] at hs ⊢
    exact relocate_outcome p e r s steps hasc hel hs
  · rename_i r owner c steps hstage
    rw [hstage] at hs ⊢
    refine ((finishCall_mild _).still.and (finishCall_mild _).enrols).next fun _ w₁ ⟨h₁, g₁⟩ => ?_
    have hs₁ := hs.mono (h₁.toThrifty.stillMaps g₁) h₁.config
    refine Ends.mono ?_ fun _ _ ho => Outcome.of_still h₁ ho
    cases owner with
    | none =>
      obtain rfl : steps = [.freeCarbon, .measureElectron] := hs₁
      exact .pure ⟨rfl, (Std.Refl.refl w₁ : Thrifty w₁ w₁).trades _, .free⟩
    | some owner =>
      obtain ⟨rfl, hc, ho⟩ := hs₁
      exact .bind <| (exchangeOwners_trades e hc ho).mono fun _ _ h₂ => .pure ⟨rfl, h₂, .move⟩
  · rename_i r owner c calls steps hcalls hstage
    rw [hstage] at hs ⊢
    refine ((finishCall_mild _).still.and (finishCall_mild _).enrols).next fun _ w₁ ⟨h₁, g₁⟩ => ?_
    have hs₁ := hs.mono (h₁.toThrifty.stillMaps g₁) h₁.config
    refine Ends.mono ?_ fun _ _ ho => Outcome.of_still h₁ ho
    cases calls with
    | nil => exact absurd rfl hcalls
    | cons c' calls =>
      cases owner with
      | none => exact beginMove_outcome p e r none _ _ _ hs₁
      | some owner => exact beginMove_outcome p e r (some owner) _ _ _ hs₁
  · rename_i hstage
    rw [hstage]
    exact (log_mild _ _ _).still.next fun _ _ h₁ => (checkRange_outcome p e _).mono fun _ _ ho => ho.of_still h₁

end Execution

end QuantumNode
