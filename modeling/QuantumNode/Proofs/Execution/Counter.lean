import QuantumNode.Proofs.Execution.Fault
import QuantumNode.Proofs.Node.Books
import QuantumNode.Proofs.Node.Dispatch

/-! The program counter of an execution. A step moves it within the subroutine or to its end, whatever the rest of the
node does between two steps. -/
namespace QuantumNode

open Node Work

variable {n m : Nat} {app : Int}

namespace Working

/-- The program counter of an application is left alone, or that of a new memory. -/
def KeepsPc (app : Int) (w w' : Working (Node n m) n m) : Prop :=
  ∀ mem', w'.part.apps.get? app = some mem' → mem'.pc = 0 ∨ ∃ mem, w.part.apps.get? app = some mem ∧ mem'.pc = mem.pc

/-- The program counter of an application, if that has a memory, lies below a bound. -/
def PcBelow (app : Int) (k : Nat) (w : Working (Node n m) n m) : Prop :=
  0 < k ∧ ∀ mem, w.part.apps.get? app = some mem → mem.pc < k

variable {w w' : Working (Node n m) n m} {k : Nat}

theorem PcBelow.keeps (h : PcBelow app k w) (hk : KeepsPc app w w') : PcBelow app k w' := by
  refine ⟨h.1, fun mem' hmem' => ?_⟩
  rcases hk mem' hmem' with h₀ | ⟨mem, hmem, hpc⟩
  · rw [h₀]
    exact h.1
  · rw [hpc]
    exact h.2 mem hmem

theorem PcBelow.mono (h : PcBelow app k w) {k' : Nat} (hk : k ≤ k') : PcBelow app k' w :=
  ⟨Nat.lt_of_lt_of_le h.1 hk, fun mem hmem => Nat.lt_of_lt_of_le (h.2 mem hmem) hk⟩

theorem KeepsPc.of_insert {other : Int} {mem mem' : AppMemory} (h : w.part.apps.get? other = some mem)
    (hpc : mem'.pc = mem.pc) :
    KeepsPc app w { w with part := { w.part with apps := w.part.apps.insert other mem' } } := fun x hx => by
  by_cases ha : app = other
  · subst ha
    rw [SortedMap.get?_insert_self] at hx
    cases hx
    exact .inr ⟨mem, h, hpc⟩
  · rw [SortedMap.get?_insert_of_ne _ ha] at hx
    exact .inr ⟨x, hx, rfl⟩

end Working

open Working

instance : Bookish (KeepsPc app : Working (Node n m) n m → Working (Node n m) n m → Prop) where
  trans _ _ _ h h' mem₂ h₂ := by
    rcases h' mem₂ h₂ with h₀ | ⟨mem₁, h₁, hpc⟩
    · exact .inl h₀
    · rw [hpc]
      exact h mem₁ h₁
  same h mem' hmem' := .inr ⟨mem', h.apps ▸ hmem', rfl⟩

instance : Tame (KeepsPc app : Working (Node n m) n m → Working (Node n m) n m → Prop) :=
  tame_of_contents fun _ _ _ _ h ha => .of_insert h ha.pc

instance : Steering (KeepsPc app : Working (Node n m) n m → Working (Node n m) n m → Prop) where
  dispatcher _ _ _ := fun mem' hmem' => .inr ⟨mem', hmem', rfl⟩
  reply _ _ _ := fun mem' hmem' => .inr ⟨mem', hmem', rfl⟩

instance (other : Int) : Granting other (KeepsPc app : Working (Node n m) n m → Working (Node n m) n m → Prop) where
  memory _ _ _ h hpc := .of_insert h hpc

instance : Clearing (KeepsPc app : Working (Node n m) n m → Working (Node n m) n m → Prop) where
  fresh w other h mem' hmem' := by
    by_cases ha : app = other
    · subst ha
      rw [SortedMap.get?_insert_self] at hmem'
      cases hmem'
      exact .inl rfl
    · rw [SortedMap.get?_insert_of_ne _ ha] at hmem'
      exact .inr ⟨mem', hmem', rfl⟩
  unmapped _ _ _ h := .of_insert h rfl
  erased w other mem' hmem' := by
    by_cases ha : app = other
    · subst ha
      simp at hmem'
    · exact .inr ⟨mem', SortedMap.get?_erase_of_ne _ ha ▸ hmem', rfl⟩

theorem counting_of_ne {other : Int} (h : other ≠ app) :
    Counting other (KeepsPc app : Working (Node n m) n m → Working (Node n m) n m → Prop) where
  count w mem pc _ mem' hmem' := by
    rw [SortedMap.get?_insert_of_ne _ h.symm] at hmem'
    exact .inr ⟨mem', hmem', rfl⟩

namespace Execution

/-- Where the program counter of an execution has to lie: below the end while an instruction is under way, and there at
most when the next one is to be fetched. -/
def limit? (e : Execution) : Option Nat :=
  match e.stage with
  | .start => none
  | .fetch => some (e.subroutine.size + 1)
  | _ => some e.subroutine.size

def InBounds (e : Execution) (w : Working (Node n m) n m) : Prop := ∀ k ∈ e.limit?, PcBelow e.app k w

theorem InBounds.keeps {e : Execution} {w w' : Working (Node n m) n m} (h : e.InBounds w) (hk : KeepsPc e.app w w') :
    e.InBounds w' := fun k hk' => (h k hk').keeps hk

/-- What an execution goes on with: the same subroutine, in bounds and with registers that exist. -/
structure Continues (e e' : Execution) (w' : Working (Node n m) n m) : Prop where
  subroutine : e'.subroutine = e.subroutine
  dest : ∀ r ∈ e'.stage.dest?, r.Legible
  bounds : e'.InBounds w'

/-- What holds of whatever a step goes on with. -/
def Going (P : Execution → Prop) (flow : Step m) : Prop := ∀ e', flow.going? = some e' → P e'

/-- An instruction is under way. -/
structure UnderWay (e e' : Execution) : Prop where
  subroutine : e'.subroutine = e.subroutine
  limit : e'.limit? = some e.subroutine.size
  dest : ∀ r ∈ e'.stage.dest?, r.Legible

variable {e : Execution} {w : Working (Node n m) n m}

theorem going_of_eq {P : Execution → Prop} {flow : Step m} {e' : Execution} (hf : flow.going? = some e') (h : P e') :
    Going P flow := fun e'' he => by
  cases hf.symm.trans he
  exact h

theorem going_finished {P : Execution → Prop} (s : ExecutionStatus) : Going P (.finished s : Step m) :=
  fun _ h => nomatch h

theorem UnderWay.continues {e' : Execution} (h : UnderWay e e') (hw : PcBelow e.app e.subroutine.size w) :
    e.Continues e' w where
  subroutine := h.subroutine
  dest := h.dest
  bounds k hk := by
    rw [h.limit] at hk
    cases hk
    rwa [app, h.subroutine]

theorem continues_fetch (hw : PcBelow e.app (e.subroutine.size + 1) w) :
    Going (e.Continues · w) (.go { e with stage := .fetch } : Step m) :=
  going_of_eq rfl {
    subroutine := rfl
    dest := nofun
    bounds := fun k hk => by
      cases hk
      exact hw }

/-- Work that leaves the program counter alone while its instruction is under way. -/
theorem ends_underWay {x : NodeWork n m (Step m)} (hx : Within (KeepsPc e.app) x) (hy : Yields (Going (UnderWay e)) x)
    (hw : PcBelow e.app e.subroutine.size w) : Ends x w fun flow w' => Going (e.Continues · w') flow :=
  fun flow w' he e' hgo => (hy w flow w' he e' hgo).continues (hw.keeps (hx.of_exec he))

/-! ### Moving the program counter -/

theorem advance_pcBelow {size : Nat} (h : PcBelow app size w) :
    Ends (advance app) w fun _ w' => PcBelow app (size + 1) w' := fun _ w' he => by
  refine ⟨Nat.succ_pos _, fun mem' hmem' => ?_⟩
  rw [advance, exec_updateMemory] at he
  split at he
  · exact nomatch he
  · rename_i mem hmem
    obtain ⟨-, rfl⟩ := Prod.mk.inj he
    rw [SortedMap.get?_insert_self] at hmem'
    cases hmem'
    have hlt := h.2 mem hmem
    have hle : (mem.pc + 1) % Word.size64 ≤ mem.pc + 1 := Nat.mod_le _ _
    change (mem.pc + 1) % Word.size64 < size + 1
    omega

theorem setPc_ends (pc : Nat) :
    Ends (updateMemory app fun mem => .ok { mem with pc := pc }) w fun _ w' => PcBelow app (pc + 1) w' := fun _ w' he => by
  refine ⟨Nat.succ_pos _, fun mem' hmem' => ?_⟩
  rw [exec_updateMemory] at he
  split at he
  · exact nomatch he
  · obtain ⟨-, rfl⟩ := Prod.mk.inj he
    rw [SortedMap.get?_insert_self] at hmem'
    cases hmem'
    exact Nat.lt_succ_self pc

theorem goTo_ends (size : Nat) (target : Int) : Ends (goTo app size target) w fun _ w' => PcBelow app (size + 1) w' := by
  unfold goTo
  split
  · exact .bind fun _ _ _ => .fail _
  · rename_i h
    refine .bind fun _ w₁ _ => (setPc_ends target.toNat).mono fun _ w' h' => h'.mono ?_
    omega

theorem branch_ends {size : Nat} (i : Instruction) (h : PcBelow app size w) :
    Ends (branch app size i) w fun _ w' => PcBelow app (size + 1) w' :=
  (branchTarget?_mild (R := KeepsPc app) app i).next fun target w' hk => by
    cases target with
    | some target => exact goTo_ends size target
    | none => exact advance_pcBelow (h.keeps hk)

theorem advance_fetch_ends (h : PcBelow e.app e.subroutine.size w) :
    Ends (do advance e.app; return .go { e with stage := .fetch } : NodeWork n m (Step m)) w fun flow w' =>
      Going (e.Continues · w') flow :=
  .bind <| (advance_pcBelow h).mono fun _ _ h' => .pure (continues_fetch h')

theorem checkRange_ends (p : ProcessId) (a : AwaitedRange) (h : PcBelow e.app e.subroutine.size w) :
    Ends (checkRange p e a) w fun flow w' => Going (e.Continues · w') flow := by
  refine .part ?_
  dsimp only
  have hservice : Within (KeepsPc e.app) (modifyService fun _ => (w.part.service.takeFailure e.app).2 :
      NodeWork n m Unit) := fun _ => Bookish.same (R := KeepsPc e.app) ⟨rfl, rfl⟩
  refine hservice.next fun _ w₁ h₁ => ?_
  split
  · exact .bind fun _ _ _ => .bind fun _ _ _ => .pure (going_finished _)
  · refine (memory_mild (R := KeepsPc e.app) e.app).next fun mem w₂ h₂ => .ofExcept fun values _ => ?_
    have hw := (h.keeps h₁).keeps h₂
    split
    · exact advance_fetch_ends hw
    · split
      · exact (log_mild (R := KeepsPc e.app) _ _ _).next fun _ w₃ h₃ => advance_fetch_ends (hw.keeps h₃)
      · refine ends_underWay ((waitForWrite_mild p).bind fun _ => .pure _) (.bind fun _ => .pure ?_) hw
        exact going_of_eq rfl ⟨rfl, rfl, nofun⟩

/-! ### Instructions under way -/

theorem operate_underWay (p : ProcessId) (e : Execution) (c : DeviceCall) :
    Yields (Going (UnderWay e)) (operate p e c : NodeWork n m (Step m)) :=
  .bind fun _ => .pure (going_of_eq rfl ⟨rfl, rfl, nofun⟩)

theorem unsupported_underWay (i : Instruction) :
    Yields (Going (UnderWay e)) (unsupported i : NodeWork n m (Step m)) := .bind fun _ => .bind fun _ => .fail _

theorem beginReadout_underWay (virt : Int) {dest : Register} (hd : dest.Legible) :
    Yields (Going (UnderWay e)) (beginReadout e virt dest : NodeWork n m (Step m)) :=
  .bind fun _ => .bind fun q => by
    cases q with
    | none => exact .fail _
    | some target =>
      refine .bind fun _ => .pure (going_of_eq rfl ⟨rfl, rfl, fun r hr => ?_⟩)
      cases hr
      exact hd

theorem quantum_underWay (p : ProcessId) {i : Instruction} (h : i.Legible) :
    Yields (Going (UnderWay e)) (quantum p e i : NodeWork n m (Step m)) := by
  refine .bind fun _ => ?_
  split
  · exact .bind fun _ => operate_underWay _ _ _
  · exact .ite (unsupported_underWay _) (.bind fun _ => operate_underWay _ _ _)
  · exact .bind fun _ => operate_underWay _ _ _
  · exact .ite (unsupported_underWay _) (.bind fun _ => .bind fun _ => operate_underWay _ _ _)
  · exact .ite (.bind fun _ => .bind fun _ => operate_underWay _ _ _) (unsupported_underWay _)
  · rename_i dest
    have hd : dest.Legible := h (.register dest) (List.mem_cons_of_mem _ (List.mem_singleton_self _))
    refine .ite (.bind fun _ => beginReadout_underWay _ hd) (.bind fun _ => .bind fun _ => .pure ?_)
    refine going_of_eq rfl ⟨rfl, rfl, fun r hr => ?_⟩
    cases hr
    exact hd
  · exact unsupported_underWay _

theorem beginMove_underWay (p : ProcessId) {r : Readout} (hd : r.dest.Legible) (owner : Option (Int × Int))
    (steps : List RelocationStep) (calls : List DeviceCall) :
    Yields (Going (UnderWay e)) (beginMove p e r owner steps calls : NodeWork n m (Step m)) := by
  have hdest : ∀ d ∈ some r.dest, d.Legible := fun d h => by
    cases h
    exact hd
  cases calls with
  | nil => exact .pure (going_of_eq rfl ⟨rfl, rfl, hdest⟩)
  | cons c calls => exact .bind fun _ => .pure (going_of_eq rfl ⟨rfl, rfl, hdest⟩)

theorem relocate_underWay (p : ProcessId) {r : Readout} (hd : r.dest.Legible) (s : RelocationStep)
    (steps : List RelocationStep) :
    Yields (Going (UnderWay e)) (relocate p e r s steps : NodeWork n m (Step m)) := by
  have hdest : ∀ d ∈ some r.dest, d.Legible := fun d h => by
    cases h
    exact hd
  refine .bind fun _ => ?_
  cases s with
  | allocateElectron => exact .bind fun _ => .bind fun _ => .pure (going_of_eq rfl ⟨rfl, rfl, hdest⟩)
  | allocateFreeCarbon => exact .bind fun _ => .pure (going_of_eq rfl ⟨rfl, rfl, hdest⟩)
  | moveElectronToCarbon => exact .bind fun _ => beginMove_underWay p hd _ _ _
  | moveCarbonToElectron => exact beginMove_underWay p hd _ _ _
  | freeCarbon => exact .bind fun _ => .pure (going_of_eq rfl ⟨rfl, rfl, hdest⟩)
  | measureElectron => exact .bind fun _ => .pure (going_of_eq rfl ⟨rfl, rfl, hdest⟩)

theorem perform_ends (p : ProcessId) {i : Instruction} (hi : i.Legible) (h : PcBelow e.app e.subroutine.size w) :
    Ends (perform p e i) w fun flow w' => Going (e.Continues · w') flow := by
  have hquantum : Ends (quantum p e i) w fun flow w' => Going (e.Continues · w') flow :=
    ends_underWay (quantum_mild p e i) (quantum_underWay p hi) h
  cases i with
  | jump _ => exact .bind <| (branch_ends _ h).mono fun _ _ h' => .pure (continues_fetch h')
  | branchZero _ _ _ => exact .bind <| (branch_ends _ h).mono fun _ _ h' => .pure (continues_fetch h')
  | branch _ _ _ _ => exact .bind <| (branch_ends _ h).mono fun _ _ h' => .pure (continues_fetch h')
  | waitAll s =>
    exact (resolve_mild (R := KeepsPc e.app) _ _).next fun _ w₁ h₁ => (resolve_mild (R := KeepsPc e.app) _ _).next
      fun _ w₂ h₂ => (log_mild (R := KeepsPc e.app) _ _ _).next fun _ w₃ h₃ =>
        checkRange_ends p _ (((h.keeps h₁).keeps h₂).keeps h₃)
  | init _ => exact hquantum
  | gate _ _ => exact hquantum
  | rotate _ _ _ _ => exact hquantum
  | pairGate _ _ _ => exact hquantum
  | directed _ _ _ _ _ => exact hquantum
  | measure _ _ => exact hquantum
  | _ => exact (classical_granting (R := KeepsPc e.app) _ _).next fun _ w₁ h₁ => advance_fetch_ends (h.keeps h₁)

theorem fetch_ends (p : ProcessId) (hl : e.Legible) (h : PcBelow e.app (e.subroutine.size + 1) w) :
    Ends (fetch p e) w fun flow w' => Going (e.Continues · w') flow := by
  refine .bind <| (memory_ends e.app).mono fun mem w₁ ⟨hw₁, hmem⟩ => ?_
  subst hw₁
  dsimp only
  split
  · exact .pure (going_finished _)
  · rename_i i hi
    obtain ⟨hlt, -⟩ := List.getElem?_eq_some_iff.1 hi
    have hbelow : PcBelow e.app e.subroutine.size w₁ :=
      ⟨Nat.lt_of_le_of_lt (Nat.zero_le _) hlt, fun mem' hmem' => by
        rw [hmem] at hmem'
        cases hmem'
        exact hlt⟩
    refine (log_mild (R := KeepsPc e.app) _ _ _).next fun _ w₂ h₂ =>
      (countExecuted_mild (R := KeepsPc e.app)).next fun _ w₃ h₃ => ?_
    exact perform_ends p (hl.instructions i (List.mem_of_getElem? hi)) ((hbelow.keeps h₂).keeps h₃)

/-- A step of an execution that is in bounds goes on in bounds. -/
theorem step_ends (p : ProcessId) (hl : e.Legible) (h : e.InBounds w) :
    Ends (step p e) w fun flow w' => Going (e.Continues · w') flow := by
  obtain ⟨s, stage⟩ := e
  cases stage with
  | start =>
    exact .bind <| (setPc_ends 0).mono fun _ w₁ h₁ => (log_mild (R := KeepsPc s.appId) _ _ _).next fun _ w₂ h₂ =>
      .pure (continues_fetch ((h₁.keeps h₂).mono (Nat.succ_le_succ (Nat.zero_le _))))
  | fetch => exact fetch_ends p hl (h _ rfl)
  | operating c =>
    exact (finishCall_mild (R := KeepsPc s.appId) c).next fun _ w₁ h₁ => advance_fetch_ends ((h _ rfl).keeps h₁)
  | reading c dest =>
    exact (finishCall_mild (R := KeepsPc s.appId) c).next fun _ w₁ h₁ =>
      (setRegister_mild (R := KeepsPc s.appId) _ _ _).next fun _ w₂ h₂ =>
        advance_fetch_ends (((h _ rfl).keeps h₁).keeps h₂)
  | relocating r steps =>
    cases steps with
    | nil => exact .pure (continues_fetch ((h _ rfl).mono (Nat.le_succ _)))
    | cons step steps =>
      exact ends_underWay (relocate_granting p _ r step steps) (relocate_underWay p (hl.dest _ rfl) _ _) (h _ rfl)
  | moving r owner c calls steps =>
    have hd : r.dest.Legible := hl.dest _ rfl
    cases calls with
    | nil =>
      refine ends_underWay ((finishCall_mild c).bind fun _ => Within.bind ?_ fun _ => .pure _)
        (.bind fun _ => .bind fun _ => .pure (going_of_eq rfl ⟨rfl, rfl, hl.dest⟩)) (h _ rfl)
      cases owner with
      | none => exact .pure _
      | some owner => exact exchangeOwners_granting _ r owner
    | cons c' calls =>
      exact ends_underWay ((finishCall_mild c).bind fun _ => beginMove_mild p _ r owner steps _)
        (.bind fun _ => beginMove_underWay p hd owner steps _) (h _ rfl)
  | waiting a => exact (log_mild (R := KeepsPc s.appId) _ _ _).next fun _ w₁ h₁ => checkRange_ends p a ((h _ rfl).keeps h₁)

end Execution

end QuantumNode
