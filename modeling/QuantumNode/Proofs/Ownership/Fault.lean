import QuantumNode.Proofs.Ownership.Dispatch
import QuantumNode.Proofs.Ownership.Pairing

/-! What becomes of slots when a process of a node meets a fault. Those that it held may be lost: they stay allocated, and
nobody returns them. What the applications map is not touched by it. -/
namespace QuantumNode

open Work Working

variable {n m : Nat} {α β : Type}

namespace Working

/-- Exchanges of slots, one after another. -/
class Exchange (T : List Nat → List Nat → Working (Node n m) n m → Working (Node n m) n m → Prop) : Prop where
  trans {a b c : List Nat} {w w₁ w₂ : Working (Node n m) n m} : T a b w w₁ → T b c w₁ w₂ → T a c w w₂
  thrifty {w w' : Working (Node n m) n m} (h : Thrifty w w') (held : List Nat) : T held held w w'

instance : Exchange (Trades (n := n) (m := m)) := ⟨Trades.trans, Thrifty.trades⟩

instance : Exchange (Lodges (n := n) (m := m)) := ⟨Lodges.trans, Thrifty.lodges⟩

/-- Slots that were held are exchanged for others, which are lost. -/
def Strands (T : List Nat → List Nat → Working (Node n m) n m → Working (Node n m) n m → Prop) (given : List Nat)
    (w w' : Working (Node n m) n m) : Prop := ∃ lost, T given lost w w'

variable {T : List Nat → List Nat → Working (Node n m) n m → Working (Node n m) n m → Prop} [Exchange T]
  {w w₁ w₂ : Working (Node n m) n m} {a b : List Nat}

theorem Strands.after (h : T a b w w₁) (h' : Strands T b w₁ w₂) : Strands T a w w₂ := by
  obtain ⟨lost, h'⟩ := h'
  exact ⟨lost, Exchange.trans h h'⟩

theorem Thrifty.strands (h : Thrifty w w₁) (held : List Nat) : Strands T held w w₁ := ⟨held, Exchange.thrifty h held⟩

theorem Strands.trades (h : Strands Lodges a w w₁) : Strands Trades a w w₁ := by
  obtain ⟨lost, h⟩ := h
  exact ⟨lost, h.toTrades⟩

theorem Strands.frame (h : Strands Trades a w w₁) (others : List Nat) : Strands Trades (a ++ others) w w₁ := by
  obtain ⟨lost, h⟩ := h
  exact ⟨lost ++ others, h.frame others⟩

end Working

section Strands

variable {T : List Nat → List Nat → Working (Node n m) n m → Working (Node n m) n m → Prop} [Exchange T]
  {w : Working (Node n m) n m} {x : NodeWork n m α} {f : α → NodeWork n m β} {a : List Nat}

/-- Work that leaves qubits alone loses what was held, and no more. -/
theorem Work.Within.strands (h : Within Thrifty x) (held : List Nat) : Halts x w (Strands T held w) :=
  .of_within h fun _ h => h.strands held

theorem Work.Halts.thrifty (h : Halts x w (· = w)) : Halts x w (Thrifty w) :=
  h.mono fun w' he => by
    subst he
    exact Std.Refl.refl w'

theorem Work.Halts.strands (h : Halts x w (Thrifty w)) (held : List Nat) : Halts x w (Strands T held w) :=
  h.mono fun _ h => h.strands held

/-- Work in which slots are exchanged, and what comes after it. -/
theorem Work.Halts.exchange {b : α → List Nat} (hx : Halts x w (Strands T a w)) (he : Ends x w fun v w' => T a (b v) w w')
    (hf : ∀ v w', x.exec w = (.ok v, w') → Halts (f v) w' (Strands T (b v) w')) :
    Halts (x >>= f) w (Strands T a w) :=
  .bind hx fun v w' h => (hf v w' h).mono fun _ h' => .after (he v w' h) h'

/-- Work that leaves qubits alone, and what comes after it. -/
theorem Work.Within.strandsNext (hx : Within Thrifty x)
    (hf : ∀ v w', x.exec w = (.ok v, w') → Halts (f v) w' (Strands T a w')) : Halts (x >>= f) w (Strands T a w) :=
  .exchange (hx.strands a) (fun _ _ h => Exchange.thrifty (hx.of_exec h) a) hf

end Strands

namespace Node

variable {w : Working (Node n m) n m}

theorem mapQubit_halts (app virt : Int) (p : Nat) : Halts (mapQubit app virt p) w (Thrifty w) := by
  refine .part ?_
  split
  · split
    · exact .of_within ((log_mild _ _ _).thrifty.bind fun _ => .fail _) fun _ h => h
    · exact (updateMemory_halts _ _).thrifty
  · exact (updateMemory_halts _ _).thrifty

theorem freeQubit_strands (p : Nat) : Halts (freeQubit p) w (Strands Lodges [p] w) :=
  .exchange ((releaseSlot_halts p).thrifty.strands [p]) (releaseSlot_lodges p) fun _ _ _ =>
    (Within.bind (log_mild _ _ _).thrifty fun _ => notifyMemoryFreed_still.thrifty).strands []

end Node

namespace Pairing

open Node

variable {w : Working (Node n m) n m}

theorem tryPair_strands (p : ProcessId) (t : PairTask) (k : Nat) :
    Halts (tryPair p t k) w (Strands Lodges [] w) := by
  refine service_mild.thrifty.strandsNext fun _ w₁ _ => ?_
  split
  · exact (Within.bind (log_mild _ _ _).thrifty fun _ => .pure _).strands []
  · refine .attempt (fun position w₂ h₂ => ?_) fun e w₂ h₂ => ?_
    · refine Halts.mono ?_ fun _ h => .after (allocateCommunication_lodges position w₂ h₂) h
      exact (Within.bind (modifyService_thrifty _) fun _ => Within.bind (log_mild _ _ _).thrifty fun _ =>
        Within.bind (linkCall_mild _ _ _ _).thrifty fun _ => .pure _).strands [position]
    · obtain rfl := allocateCommunication_halts e w₂ h₂
      exact (Within.bind countWait_still.thrifty fun _ => Within.bind (log_mild _ _ _).thrifty fun _ =>
        Within.bind (waitForFree_still p).thrifty fun _ => .pure _).strands []

theorem beginPair_strands (p : ProcessId) (t : PairTask) (k : Nat) :
    Halts (beginPair p t k) w (Strands Lodges [] w) := by
  unfold beginPair
  split
  · exact (log_mild _ _ _).thrifty.strandsNext fun _ _ _ => tryPair_strands p t k
  · exact .pure _

theorem takeRefusal_strands (t : PairTask) (k position : Nat) (cause : LinkRefusal) :
    Halts (takeRefusal t k position cause) w (Strands Lodges [position] w) := by
  refine .exchange (freeQubit_strands position) (freeQubit_lodges position) fun _ w₁ _ => ?_
  have hrest : Within Thrifty (do
      notifyArrayWritten
      return Flow.go (.settling t.request) : NodeWork n m (Step m)) := notifyArrayWritten_still.thrifty.bind fun _ => .pure _
  dsimp only
  split
  · exact (Within.bind (log_mild _ _ _).thrifty fun _ => (setAborted_still _).thrifty.bind fun _ => hrest).strands []
  · exact (Within.bind (log_mild _ _ _).thrifty fun _ => (markFailed_blaming _).thrifty.bind fun _ => hrest).strands []

theorem keepHalf_strands (t : PairTask) (k position : Nat) (pair : Pair) :
    Halts (keepHalf t k position pair) w (Strands Lodges [position] w) := by
  refine .part ?_
  split
  · refine (memory_mild _).thrifty.strandsNext fun mem w₁ _ => .ofExcept ?_ fun virt _ => ?_
    · exact Thrifty.strands (Std.Refl.refl w₁) [position]
    · split
      · exact .fail (Thrifty.strands (Std.Refl.refl w₁) [position])
      · exact .exchange ((mapQubit_halts _ _ _).strands _) (mapQubit_lodges _ _ _) fun _ _ _ =>
          (Within.bind (log_mild _ _ _).thrifty fun _ => (finishPair_noting _ _ _ _).thrifty).strands []
  · exact .exchange (freeQubit_strands position) (freeQubit_lodges position) fun _ _ _ => .pure _

theorem dropHalf_strands (t : PairTask) (k position : Nat) (pair : Pair) :
    Halts (dropHalf t k position pair) w (Strands Lodges [position] w) := by
  refine .exchange (freeQubit_strands position) (freeQubit_lodges position) fun _ _ _ => .part ?_
  split
  · exact (finishPair_noting _ _ _ _).thrifty.strands []
  · exact .pure _

theorem correct_strands (p : ProcessId) (t : PairTask) (k position : Nat) (pair : Pair) (calls : List DeviceCall) :
    Halts (correct p t k position pair calls) w (Strands Lodges [position] w) := by
  cases calls with
  | nil => exact keepHalf_strands _ _ _ _
  | cons c calls => exact (Within.bind (startGate_mild _ _).thrifty fun _ => .pure _).strands [position]

theorem takePair_strands (p : ProcessId) (t : PairTask) (k position : Nat) (pair : Pair) :
    Halts (takePair p t k position pair) w (Strands Lodges [position] w) := by
  refine (log_mild _ _ _).thrifty.strandsNext fun _ _ _ => ?_
  split
  · exact correct_strands _ _ _ _ _ _
  · exact keepHalf_strands _ _ _ _
  · exact dropHalf_strands _ _ _ _

theorem takeAnswer_strands (p : ProcessId) (t : PairTask) (k position : Nat) (answer : LinkAnswer) :
    Halts (takeAnswer p t k position answer) w (Strands Lodges [position] w) := by
  refine (modifyService_thrifty _).strandsNext fun _ _ _ => ?_
  cases answer with
  | refused cause kind => exact takeRefusal_strands _ _ _ _
  | pair pair => exact takePair_strands _ _ _ _ _

/-- A pair service that meets a fault loses at most the slots of its stage, or of the stage that it was about to reach. -/
theorem step_strands (p : ProcessId) (stage : PairStage) (wake : Wake) :
    Halts (step p stage wake) w (Strands Lodges stage.held w) := by
  unfold step
  split
  · exact (beginRequest_sociable (R := Thrifty) _).strands []
  · exact (awaitRequest_standing (R := Thrifty) p).strands []
  · exact (awaitReply_listening (R := Thrifty) _ _ _).strands []
  · exact (awaitDescriptor_listening (R := Thrifty) _ _).strands []
  · exact beginPair_strands _ _ _
  · exact (log_mild _ _ _).thrifty.strandsNext fun _ _ _ => tryPair_strands _ _ _
  · exact takeAnswer_strands _ _ _ _ _
  · exact .pure _
  · exact (finishCall_mild _).thrifty.strandsNext fun _ _ _ => correct_strands _ _ _ _ _ _
  · exact (settle_rousing _).thrifty.strands []

end Pairing

namespace Execution

open Node

variable {w : Working (Node n m) n m}

/-! Taking and returning a qubit of one's own. -/

theorem qalloc_strands (app : Int) (r : Register) : Halts (qalloc app r) w (Strands Trades [] w) := by
  refine (resolveRegister_mild _ _).thrifty.strandsNext fun virt w₁ _ => ?_
  have hallocate : Halts (allocateFor app virt) w₁ (Strands Trades [] w₁) := by
    refine .attempt (fun _ _ _ => .pure _) fun f w₂ h₂ => ?_
    obtain rfl := allocate_halts f w₂ h₂
    exact (Within.bind (log_mild _ _ _).thrifty fun _ => .fail _).strands []
  have hallocated : Ends (allocateFor app virt) w₁ fun phys w' => Trades [] [phys] w₁ w' :=
    .attempt (fun phys w₂ h₂ => .pure (allocate_ends phys w₂ h₂).1) fun _ _ _ => .bind fun _ _ _ => .fail _
  refine .exchange hallocate hallocated fun phys w₂ _ => .attempt (fun _ w₃ h₃ => ?_) fun f w₃ h₃ => ?_
  · exact ((log_mild _ _ _).thrifty.strands []).mono fun _ h => .after (mapQubit_ends _ _ _ _ w₃ h₃).1 h
  · refine Halts.mono ?_ fun _ h => .after ((mapQubit_halts _ _ _ f w₃ h₃).trades [phys]) h
    exact .exchange (b := fun _ => []) ((releaseSlot_halts phys).thrifty.strands [phys])
      ((releaseSlot_lodges phys).mono fun _ _ h => h.toTrades) fun _ w₄ _ => .fail (Thrifty.strands (Std.Refl.refl w₄) [])

theorem qfree_strands (app : Int) (r : Register) : Halts (qfree app r) w (Strands Trades [] w) := by
  refine .bind ((resolveRegister_mild _ _).thrifty.strands []) ((resolveRegister_ends app r).mono fun virt w₁ ⟨hw, hr⟩ => ?_)
  subst hw
  refine .bind ((position_mild app r).thrifty.strands []) ((position_ends app r virt hr).mono fun p w₂ ⟨h₂, hmaps⟩ => ?_)
  refine Halts.mono ?_ fun _ h => .after (h₂.toThrifty.trades []) h
  exact .exchange ((updateMemory_halts _ _).thrifty.strands []) ((unmapQubit_ends hmaps).mono fun _ _ h => h.1)
    fun _ _ _ => (freeQubit_strands p).mono fun _ h => h.trades

theorem classical_strands (app : Int) (i : Instruction) : Halts (classical app i) w (Strands Trades [] w) := by
  cases h : takesQubit i with
  | false => exact (classical_mild app h).thrifty.strands []
  | true =>
    cases i with
    | qalloc q => exact qalloc_strands app q
    | qfree q => exact qfree_strands app q
    | _ => exact nomatch h

theorem perform_strands (p : ProcessId) (e : Execution) (i : Instruction) :
    Halts (perform p e i) w (Strands Trades [] w) := by
  have hbranch : Halts (do
      branch e.app e.subroutine.size i
      return .go { e with stage := .fetch } : NodeWork n m (Step m)) w (Strands Trades [] w) :=
    (Within.bind (branch_counting _ _ _).thrifty fun _ => .pure _).strands []
  cases i with
  | jump _ => exact hbranch
  | branchZero _ _ _ => exact hbranch
  | branch _ _ _ _ => exact hbranch
  | waitAll s => exact (waitAll_counting p e s).thrifty.strands []
  | init q => exact (quantum_mild p e (.init q)).thrifty.strands []
  | gate g q => exact (quantum_mild p e (.gate g q)).thrifty.strands []
  | rotate a q k d => exact (quantum_mild p e (.rotate a q k d)).thrifty.strands []
  | pairGate g a b => exact (quantum_mild p e (.pairGate g a b)).thrifty.strands []
  | directed a b c k d => exact (quantum_mild p e (.directed a b c k d)).thrifty.strands []
  | measure q dest => exact (quantum_mild p e (.measure q dest)).thrifty.strands []
  | _ =>
    exact .exchange (classical_strands e.app _) (classical_trades e.app _) fun _ _ _ =>
      (Within.bind (advance_counting _).thrifty fun _ => .pure _).strands []

theorem fetch_strands (p : ProcessId) (e : Execution) : Halts (fetch p e) w (Strands Trades [] w) := by
  refine (memory_mild _).thrifty.strandsNext fun _ w₁ _ => ?_
  dsimp only
  split
  · exact .pure _
  · exact (log_mild _ _ _).thrifty.strandsNext fun _ _ _ => countExecuted_mild.thrifty.strandsNext fun _ _ _ =>
      perform_strands p e _

/-! Measuring at the electron. -/

theorem claimElectron_strands {app virt : Int} {target : Nat} (h : w.part.StillMaps app virt target) :
    Halts (claimElectron app virt) w (Strands Trades [0] w) := by
  refine .exchange (b := fun _ => [0, target]) ((updateMemory_halts _ _).thrifty.strands [0]) ?_ fun _ _ _ =>
    (mapQubit_halts _ _ _).strands [0, target]
  rcases h with hmaps | hgone
  · exact (unmapQubit_ends hmaps).mono fun _ _ ⟨h₁, _⟩ => (h₁.frame [0]).perm (.refl _) (.swap _ _ _)
  · exact updateMemory_gone hgone _

theorem exchangeOwners_strands (e : Execution) {r : Readout} {owner : Int × Int} (hc : w.part.AtCarbon e.app r)
    (ho : w.part.StillMaps owner.1 owner.2 0) : Halts (exchangeOwners e r owner) w (Strands Trades [r.spare] w) := by
  refine (log_mild _ _ _).thrifty.strandsNext fun _ w₁ he₁ => ?_
  have h₁ : Thrifty w w₁ := (log_mild _ _ _).of_exec he₁
  have g₁ : Enrols w w₁ := (log_mild _ _ _).of_exec he₁
  have hc₁ : w₁.part.AtCarbon e.app r := ⟨h₁.stillMaps g₁ hc.1, hc.2⟩
  have hunmap : Halts (updateMemory owner.1 (·.unmapQubit owner.2)) w₁ (Strands Trades [r.spare] w₁) :=
    (updateMemory_halts _ _).thrifty.strands [r.spare]
  rcases h₁.stillMaps g₁ ho with ho₁ | hgone
  · refine .exchange (b := fun _ => [0, r.spare]) hunmap
      ((unmapQubit_ends ho₁).mono fun _ _ h => (h.1.frame [r.spare]).perm (.refl _) (.refl _)) fun _ w₂ he₂ => ?_
    have hm₂ := (unmapQubit_ends ho₁ () w₂ he₂).2
    have g₂ : Enrols w₁ w₂ := (updateMemory_housing fun _ _ => AppMemory.unmapQubit_remaps).of_exec he₂
    refine .exchange (b := fun _ => [0]) ((mapQubit_halts _ _ _).strands [0, r.spare])
      ((mapQubit_ends owner.1 owner.2 r.spare).mono fun _ _ h => (h.1.frame [0]).perm (.swap _ _ _) (.refl _))
      fun _ w₃ he₃ => ?_
    have hm₃ := (mapQubit_ends owner.1 owner.2 r.spare () w₃ he₃).2
    have g₃ : Enrols w₂ w₃ := (mapQubit_housing _ _).of_exec he₃
    have hc₃ : w₃.part.StillMaps e.app r.virt r.target := hc₁.stays ho₁ hm₂ hm₃ (g₂.trans g₃).gone
    exact .exchange (b := fun _ => [r.target]) (claimElectron_strands hc₃) (claimElectron_trades hc₃)
      fun _ _ _ _ _ he => nomatch he
  · exact .bind hunmap (updateMemory_gone hgone _)

theorem allocateSpare_strands (r : Readout) : Halts (allocateSpare r) w (Strands Trades [] w) := by
  refine .attempt (fun _ _ _ => .pure _) fun f w₁ h₁ => ?_
  obtain rfl := allocate_halts f w₁ h₁
  exact (Within.bind (log_mild _ _ _).thrifty fun _ => .fail _).strands []

theorem electronOwner_trades (r : Readout) :
    Ends (electronOwner r) w fun _ w' => Trades [r.spare] [r.spare] w w' := by
  refine .part ?_
  split
  · exact .pure ((Std.Refl.refl w : Thrifty w w).trades _)
  · exact .bind fun _ _ _ => .bind fun _ _ _ => .fail _

theorem electronOwner_strands (r : Readout) : Halts (electronOwner r) w (Strands Trades [r.spare] w) := by
  refine .part ?_
  split
  · exact .pure _
  · exact .exchange (b := fun _ => []) ((releaseSlot_halts _).thrifty.strands [r.spare])
      ((releaseSlot_lodges _).mono fun _ _ h => h.toTrades) fun _ _ _ =>
        (Within.bind (log_mild _ _ _).thrifty fun _ => .fail _).strands []

theorem relocate_strands (p : ProcessId) (e : Execution) (r : Readout) (s : RelocationStep)
    (steps : List RelocationStep) (hel : w.part.Electron) (hs : w.part.Relocates e.app r (s :: steps)) :
    Halts (relocate p e r s steps) w (Strands Trades (ExecutionStage.relocating r (s :: steps)).held w) := by
  refine (log_mild _ _ _).thrifty.strandsNext fun _ w₁ he₁ => ?_
  have h₁ : Thrifty w w₁ := (log_mild _ _ _).of_exec he₁
  have g₁ : Enrols w w₁ := (log_mild _ _ _).of_exec he₁
  have hsound : w.part.Sound e.app (.relocating r (s :: steps)) := hs
  have hs₁ : w₁.part.Relocates e.app r (s :: steps) := hsound.mono (h₁.stillMaps g₁) h₁.config
  have hel₁ := (h₁.trades []).electron hel
  cases hs₁ with
  | measure => exact (Within.bind (startCall_mild _ _).thrifty fun _ => .pure _).strands []
  | free =>
    exact .exchange ((freeQubit_strands r.target).mono fun _ h => h.trades)
      ((freeQubit_lodges r.target).mono fun _ _ h => h.toTrades) fun _ _ _ => .pure _
  | move => exact (beginMove_mild _ _ _ _ _ _).thrifty.strands [r.target]
  | allocate hc hnv =>
    refine .exchange (allocateCommunication_halts.thrifty.strands [])
      (allocateCommunication_ends.mono fun _ _ h => h.1.1) fun q w₂ he => ?_
    obtain ⟨⟨_, happs⟩, hq⟩ := allocateCommunication_ends q w₂ he
    obtain rfl := hel₁ hnv q hq
    have g₂ : Enrols w₁ w₂ := allocateCommunication_pooling.of_exec he
    have hc₂ : w₂.part.StillMaps e.app r.virt r.target := hc.1.mono (maps_congr happs ..).2 g₂.gone
    exact .exchange (claimElectron_strands hc₂) (claimElectron_trades hc₂) fun _ _ _ => .pure _
  | park hc =>
    exact .exchange (electronOwner_strands r) (electronOwner_trades r) fun _ _ _ =>
      (beginMove_mild _ _ _ _ _ _).thrifty.strands [r.spare]
  | spare hc => exact .exchange (allocateSpare_strands r) ((allocateSpare_trades r).mono fun _ _ h => h.1) fun _ _ _ => .pure _

/-- A subroutine that meets a fault loses at most the slots that it held. -/
theorem step_strands (p : ProcessId) (e : Execution) (hel : w.part.Electron) (hs : w.part.Sound e.app e.stage) :
    Halts (step p e) w (Strands Trades e.stage.held w) := by
  unfold step
  split
  · rename_i hstage
    rw [hstage]
    exact (Within.bind (updateMemory_counting e.app fun _ => 0).thrifty fun _ => (log_mild _ _ _).thrifty.bind fun _ =>
      .pure _).strands []
  · rename_i hstage
    rw [hstage]
    exact fetch_strands p e
  · rename_i hstage
    rw [hstage]
    exact (Within.bind (finishCall_mild _).thrifty fun _ => (advance_counting _).thrifty.bind fun _ => .pure _).strands []
  · rename_i hstage
    rw [hstage]
    exact (Within.bind (finishCall_mild _).thrifty fun _ => (setRegister_mild _ _ _).thrifty.bind fun _ =>
      (advance_counting _).thrifty.bind fun _ => .pure _).strands []
  · exact .pure _
  · rename_i r s steps hstage
    rw [hstage] at hs ⊢
    exact relocate_strands p e r s steps hel hs
  · rename_i r owner c steps hstage
    rw [hstage] at hs ⊢
    refine (finishCall_mild _).thrifty.strandsNext fun _ w₁ he₁ => ?_
    have h₁ : Thrifty w w₁ := (finishCall_mild _).of_exec he₁
    have g₁ : Enrols w w₁ := (finishCall_mild _).of_exec he₁
    have hs₁ := hs.mono (h₁.stillMaps g₁) h₁.config
    cases owner with
    | none => exact .pure _
    | some owner =>
      obtain ⟨rfl, hc, ho⟩ := hs₁
      exact .exchange (exchangeOwners_strands e hc ho) (exchangeOwners_trades e hc ho) fun _ _ _ => .pure _
  · rename_i r owner c calls steps hcalls hstage
    rw [hstage]
    exact (Within.bind (finishCall_mild _).thrifty fun _ => (beginMove_mild _ _ _ _ _ _).thrifty).strands _
  · rename_i hstage
    rw [hstage]
    exact (Within.bind (log_mild _ _ _).thrifty fun _ => (checkRange_counting _ _ _).thrifty).strands []

end Execution

namespace Dispatch

open Node

variable {w : Working (Node n m) n m}

theorem freeAll_strands (l : List Nat) : Halts (l.forM freeQubit) w (Strands Trades l w) := by
  induction l generalizing w with
  | nil => exact .pure _
  | cons p l ih =>
    refine .exchange (b := fun _ => l) ((freeQubit_strands p).mono fun _ h => h.trades.frame l) ?_ fun _ _ _ => ih
    exact (freeQubit_lodges p).mono fun _ _ h => h.toTrades.frame l

theorem clearApp_strands (app : Int) (remove : Bool) : Halts (clearApp app remove) w (Strands Trades [] w) := by
  refine .part ?_
  split
  · refine .bind ((memory_mild _).thrifty.strands []) <| (Execution.memory_ends app).mono fun mem w₁ ⟨hw, hmem⟩ => ?_
    subst hw
    refine .exchange (fun _ _ he => nomatch he) ((unmapAll_ends hmem).mono fun _ _ h => h.1) fun _ _ _ => ?_
    refine .exchange (freeAll_strands mem.mapped) ((freeAll_ends mem.mapped).mono fun _ _ h => h.1) fun _ _ _ => ?_
    split
    · exact fun _ _ he => nomatch he
    · exact .pure _
  · exact .pure _

theorem stopApp_strands (app : Int) : Halts (stopApp app) w (Strands Trades [] w) := by
  have hrest : Within Thrifty (do
      Pairing.removeApp app
      modifyDispatcher fun d => { d with apps := d.apps.erase app } : NodeWork n m Unit) :=
    (Pairing.removeApp_rousing app).thrifty.bind fun _ => modifyDispatcher_steering _
  refine (log_mild _ _ _).thrifty.strandsNext fun _ _ _ => .part ?_
  dsimp only
  split
  · exact (log_mild _ _ _).thrifty.strandsNext fun _ _ _ =>
      .exchange (clearApp_strands app true) (clearApp_trades app true) fun _ _ _ => hrest.strands []
  · exact (Within.bind (log_mild _ _ _).thrifty fun _ => hrest).strands []

theorem apply_strands (message : HostMessage) : Halts (apply message) w (Strands Trades [] w) := by
  cases message with
  | initNewApp maxQubits =>
    have hl : Within (Lodges [] []) (apply (.initNewApp maxQubits) : NodeWork n m Unit) :=
      (initApp_lodges maxQubits).bind fun _ => Within.lodges (reply_steering _)
    exact .of_within hl fun _ h => ⟨[], h.toTrades⟩
  | openSocket _ _ _ => exact (Within.bind (log_mild _ _ _).thrifty fun _ => (openSocket_mild _ _ _).thrifty).strands []
  | subroutine text =>
    unfold apply
    dsimp only
    split
    · exact (addSubroutine_mild _ _).thrifty.strands []
    · exact (Within.bind (log_mild _ _ _).thrifty fun _ => .fail _).strands []
  | stopApp app => exact stopApp_strands app

theorem takeMessage_strands (text : String) : Halts (takeMessage text) w (Strands Trades [] w) := by
  unfold takeMessage
  split
  · exact (Within.bind (log_mild _ _ _).thrifty fun _ => .fail _).strands []
  · refine .exchange (apply_strands _) (apply_trades _) fun _ _ _ => .part ?_
    split
    · exact .pure _
    · exact .pure _

theorem awaitMessage_strands (p : ProcessId) : Halts (awaitMessage p) w (Strands Trades [] w) := by
  refine .part ?_
  obtain ⟨text, inbox⟩ := w.part.inbox.receive p
  have h₁ : Thrifty w { w with part := { w.part with inbox := inbox } } := .of_eq rfl rfl rfl
  refine .setPart (Halts.mono ?_ fun _ h => .after (h₁.trades []) h)
  split
  · exact takeMessage_strands _
  · exact .pure _

theorem serve_strands (app : Int) : Halts (serve app) w (Strands Trades [] w) := by
  refine .part ?_
  split
  · exact (Within.bind (modifyDispatcher_steering _) fun _ => .pure _ : Within Thrifty _).strands []
  · exact .pure _

theorem answer_strands (app : Int) (status : ExecutionStatus) : Halts (answer app status) w (Strands Trades [] w) := by
  refine Within.strandsNext (modifyDispatcher_steering _) fun _ _ _ => ?_
  cases status with
  | ok =>
    exact (Within.bind (memory_mild _).thrifty fun _ => Within.bind (reply_steering _) fun _ => .pure _).strands []
  | aborted =>
    exact .exchange (clearApp_strands app false) (clearApp_trades app false) fun _ _ _ =>
      (Within.bind (reply_steering _) fun _ => .pure _ : Within Thrifty _).strands []

/-- A dispatcher that meets a fault loses at most the slots that its subroutine held. -/
theorem step_strands (p : ProcessId) (stage : DispatchStage) (wake : Wake) (hasc : w.part.apps.Ascending)
    (hel : w.part.Electron) (hs : w.part.Serves stage) : Halts (step p stage wake) w (Strands Trades stage.held w) := by
  unfold step
  split
  · exact takeMessage_strands _
  · exact awaitMessage_strands p
  · exact serve_strands _
  · refine .bind (Execution.step_strands p _ hel hs) <| (Execution.step_outcome p _ hasc hel hs).mono fun flow w₁ ho => ?_
    cases flow with
    | go e' => exact .pure _
    | rest e' => exact .pure _
    | call _ _ _ _ => exact absurd ho id
    | finished status => exact (answer_strands _ status).mono fun _ h => .after ho h

end Dispatch

end QuantumNode
