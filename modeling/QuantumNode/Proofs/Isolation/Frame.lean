import QuantumNode.Proofs.Node.Books
import QuantumNode.Proofs.Node.Total
import QuantumNode.Proofs.Ownership.Dispatch

/-! What is done for one application leaves the memories of others alone: the steps of its subroutines, and clearing or
stopping it. The one exception is a measurement for which the electron's qubit has to make way: the application that has
it there maps the same virtual id to a carbon afterwards. -/
namespace QuantumNode

open Node Work Working

variable {n m : Nat}

namespace AppMemory

/-- Memories that differ in nothing but where one virtual id is. -/
structure Moves (mem : AppMemory) (virt slot : Nat) (mem' : AppMemory) : Prop where
  appId : mem'.appId = mem.appId
  registers : mem'.registers = mem.registers
  arrays : mem'.arrays = mem.arrays
  pc : mem'.pc = mem.pc
  phys? : ∀ u, mem'.phys? u = if u = virt then some slot else mem.phys? u

/-- Memories with the same registers, arrays and program counter, in which the same virtual ids are mapped. -/
structure Undisturbed (mem mem' : AppMemory) : Prop where
  registers : mem'.registers = mem.registers
  arrays : mem'.arrays = mem.arrays
  pc : mem'.pc = mem.pc
  mapped : ∀ u, (mem'.phys? u).isSome = (mem.phys? u).isSome

theorem Undisturbed.refl (mem : AppMemory) : mem.Undisturbed mem := ⟨rfl, rfl, rfl, fun _ => rfl⟩

/-- A virtual id that was mapped is mapped elsewhere. -/
theorem Moves.undisturbed {mem mem' : AppMemory} {virt slot old : Nat} (h : mem.Moves virt slot mem')
    (hold : mem.phys? virt = some old) : mem.Undisturbed mem' := by
  refine ⟨h.registers, h.arrays, h.pc, fun u => ?_⟩
  rw [h.phys?]
  split
  · rename_i hu
    rw [hu, hold]
    rfl
  · rfl

/-- A virtual id gives up its slot and takes one that the memory does not map. -/
theorem exists_moves {mem : AppMemory} {virt slot old : Nat} (hold : mem.phys? virt = some old)
    (hfree : ∀ u, mem.phys? u ≠ some slot) : ∃ mem₁ mem', mem.unmapQubit virt = .ok mem₁ ∧
      (∀ u, mem₁.phys? u ≠ some slot) ∧ mem₁.mapQubit virt slot = .ok mem' ∧ mem.Moves virt slot mem' := by
  have hv := lt_size_of_phys? hold
  let mem₁ := mem.setQubit ⟨virt, hv⟩ none
  have hphys : ∀ u, mem₁.phys? u = if u = virt then none else mem.phys? u := phys?_setQubit ⟨virt, hv⟩ none
  have hv₁ : virt < mem₁.qubits.size := by
    rw [size_setQubit]
    exact hv
  have hfree₁ : ∀ u, mem₁.phys? u ≠ some slot := fun u hu => by
    rw [hphys] at hu
    split at hu
    · exact nomatch hu
    · exact hfree u hu
  have hmap : mem₁.mapQubit virt slot = .ok (mem₁.setQubit ⟨virt, hv₁⟩ (some slot)) :=
    mapQubit_of_free hv₁ (by rw [hphys, if_pos rfl]) hfree₁
  refine ⟨mem₁, _, unmapQubit_of_lt hv, hfree₁, hmap, rfl, rfl, rfl, rfl, fun u => ?_⟩
  rw [phys?_setQubit]
  split
  · rfl
  · rename_i hu
    rw [hphys, if_neg hu]

end AppMemory

/-- The memory of an application is left alone. -/
def Working.Leaves (app : Int) (w w' : Working (Node n m) n m) : Prop := w'.part.apps.get? app = w.part.apps.get? app

variable {app other : Int}

instance : Bookish (Leaves app : Working (Node n m) n m → Working (Node n m) n m → Prop) where
  trans _ _ _ h h' := Eq.trans h' h
  same h := congrArg (SortedMap.get? · app) h.apps

instance : Steering (Leaves app : Working (Node n m) n m → Working (Node n m) n m → Prop) where
  dispatcher _ _ _ := rfl
  reply _ _ _ := rfl

namespace Working.Leaves

theorem granting (h : app ≠ other) :
    Granting other (Leaves app : Working (Node n m) n m → Working (Node n m) n m → Prop) where
  memory _ _ _ _ _ := SortedMap.get?_insert_of_ne _ h _

theorem counting (h : app ≠ other) :
    Counting other (Leaves app : Working (Node n m) n m → Working (Node n m) n m → Prop) where
  count _ _ _ _ := SortedMap.get?_insert_of_ne _ h _

theorem wiping (h : app ≠ other) :
    Wiping other (Leaves app : Working (Node n m) n m → Working (Node n m) n m → Prop) where
  unmapped _ _ _ := SortedMap.get?_insert_of_ne _ h _
  erased _ := SortedMap.get?_erase_of_ne _ h

end Working.Leaves

namespace Execution

variable {w : Working (Node n m) n m}

/-- Where a subroutine moves the qubit of an application away from the electron. -/
def Evicts (e : Execution) (app : Int) (virt : Int) (slot : Nat) : Prop :=
  ∃ r c steps, e.stage = .moving r (some (app, virt)) c [] steps ∧ r.spare = slot

/-- A subroutine of another application that moves nothing of this one away from the electron. -/
theorem step_leaves (p : ProcessId) {e : Execution} (hne : app ≠ e.app) (he : ∀ virt slot, ¬ e.Evicts app virt slot) :
    Within (Leaves app) (step p e : NodeWork n m (Step m)) := by
  have := Leaves.granting (n := n) (m := m) hne
  have := Leaves.counting (n := n) (m := m) hne
  exact step_granting p e fun r owner c steps hst =>
    Leaves.granting fun ha => he owner.2 r.spare ⟨r, c, steps, by rw [hst, ha], rfl⟩

/-- A qubit is mapped to a slot that nobody maps. -/
theorem mapQubit_attains {virt : Int} {slot : Nat} {mem mem' : AppMemory} (hmem : w.part.apps.get? app = some mem)
    (howner : w.part.owner? slot = none) (hmap : mem.mapQubit virt slot = .ok mem') :
    Attains (mapQubit app virt slot) w fun _ w' =>
      w' = { w with part := { w.part with apps := w.part.apps.insert app mem' } } := by
  refine .part ?_
  rw [howner]
  exact updateMemory_attains hmem hmap

/-- The electron's qubit makes way for one of another application: its virtual id is at the spare carbon then. -/
theorem exchangeOwners_moves {e : Execution} {r : Readout} {virt : Nat} {mem : AppMemory} (hne : app ≠ e.app)
    (hasc : w.part.apps.Ascending) (hmem : w.part.apps.get? app = some mem) (h0 : mem.phys? virt = some 0)
    (hfree : ∀ a v, ¬ w.part.Maps a v r.spare) :
    ∃ mem', mem.Moves virt r.spare mem' ∧
      ((exchangeOwners e r (app, (virt : Int))).exec w).2.part.apps.get? app = some mem' := by
  have hunmapped : ∀ u, mem.phys? u ≠ some r.spare := fun u hu => hfree app u (maps_iff.2 ⟨mem, hmem, u, rfl, hu⟩)
  obtain ⟨mem₁, mem', hunmap, hfree₁, hmap, hmoves⟩ := AppMemory.exists_moves h0 hunmapped
  refine ⟨mem', hmoves, ?_⟩
  obtain ⟨_, w₁, hx₁, hpart⟩ := log_attains (w := w) .warning "Processor"
    s!"moving virtual qubit {(virt : Int)} of app {app} from physical qubit 0 to {r.spare}"
  obtain ⟨_, w₂, hx₂, hw₂⟩ := updateMemory_attains (hpart ▸ hmem) (f := (·.unmapQubit virt)) hunmap
  have howner : w₂.part.owner? r.spare = none := by
    subst hw₂
    refine owner?_eq_none ((hpart ▸ hasc).insert _ _) fun a v hm => ?_
    rw [maps_insert, hpart] at hm
    split at hm
    · obtain ⟨u, -, hu⟩ := hm
      exact hfree₁ u hu
    · exact hfree a v hm
  have hmem₂ : w₂.part.apps.get? app = some mem₁ := by rw [hw₂, SortedMap.get?_insert_self]
  obtain ⟨_, w₃, hx₃, hw₃⟩ := mapQubit_attains hmem₂ howner hmap
  have hx : (exchangeOwners e r (app, (virt : Int))).exec w = (do
      claimElectron e.app r.virt
      modifyPart fun node => { node with relocations := node.relocations + 1 } : NodeWork n m Unit).exec w₃ :=
    (exec_bind_of_ok hx₁).trans ((exec_bind_of_ok hx₂).trans (exec_bind_of_ok hx₃))
  have := Leaves.granting (n := n) (m := m) hne
  have hrest : Within (Leaves app) (do
      claimElectron e.app r.virt
      modifyPart fun node => { node with relocations := node.relocations + 1 } : NodeWork n m Unit) :=
    (claimElectron_granting _ _).bind fun _ =>
      modifyPart_mild fun _ => ⟨rfl, rfl, rfl, rfl, rfl, rfl, rfl, rfl, rfl, rfl⟩
  rw [hx]
  refine (hrest w₃).trans ?_
  rw [hw₃, SortedMap.get?_insert_self]

/-- What a step of a subroutine does to the memory of another application. -/
theorem step_moves (p : ProcessId) {e : Execution} {mem : AppMemory} (hne : app ≠ e.app) (hasc : w.part.apps.Ascending)
    (hmem : w.part.apps.get? app = some mem)
    (he : ∀ virt slot, e.Evicts app virt slot → w.part.Maps app virt 0 ∧ ∀ a v, ¬ w.part.Maps a v slot) :
    ((step p e).exec w).2.part.apps.get? app = some mem ∨
      ∃ (virt : Nat) (slot : Nat) (mem' : AppMemory), e.Evicts app virt slot ∧ mem.phys? virt = some 0 ∧
        mem.Moves virt slot mem' ∧ ((step p e).exec w).2.part.apps.get? app = some mem' := by
  by_cases hev : ∃ virt slot, e.Evicts app virt slot
  · obtain ⟨virt, slot, hev⟩ := hev
    obtain ⟨hm, hfree⟩ := he virt slot hev
    obtain ⟨mem', hmem', v, rfl, h0⟩ := maps_iff.1 hm
    obtain rfl := Option.some.inj (hmem.symm.trans hmem')
    obtain ⟨r, c, steps, hst, rfl⟩ := hev
    obtain ⟨subroutine, stage⟩ := e
    subst hst
    obtain ⟨o, w₁, hx⟩ : ∃ o w₁, (finishCall c).exec w = (.ok o, w₁) := ⟨_, _, rfl⟩
    have hbooks : SameBooks w w₁ := (finishCall_mild c).of_exec hx
    have hfree₁ : ∀ a u, ¬ w₁.part.Maps a u r.spare := fun a u h => hfree a u ((maps_congr hbooks.apps a u _).1 h)
    obtain ⟨mem', hmoves, hmem'⟩ :=
      exchangeOwners_moves (r := r) hne (hbooks.apps ▸ hasc) (hbooks.apps ▸ hmem) h0 hfree₁
    refine .inr ⟨v, r.spare, mem', ⟨r, c, steps, rfl, rfl⟩, h0, hmoves, ?_⟩
    rw [step, exec_bind_of_ok hx]
    exact exec_bind_keeps (P := fun w : Working (Node n m) n m => w.part.apps.get? app = some mem') hmem' fun _ _ h => h
  · refine .inl ((step_leaves p hne fun virt slot h => hev ⟨virt, slot, h⟩) w |>.trans hmem)

end Execution

namespace Dispatch

variable {w : Working (Node n m) n m}

theorem clearApp_leaves (h : app ≠ other) (remove : Bool) :
    Within (Leaves app) (clearApp other remove : NodeWork n m Unit) := by
  have := Leaves.wiping (n := n) (m := m) h
  exact clearApp_wiping other remove

theorem stopApp_leaves (h : app ≠ other) : Within (Leaves app) (stopApp other : NodeWork n m Unit) := by
  have := Leaves.wiping (n := n) (m := m) h
  exact stopApp_wiping other

theorem clearApp_gone (app : Int) : Ends (clearApp app true) w fun _ w' => w'.part.hasApp app = false := by
  refine .part ?_
  split
  · refine .bind fun mem w₁ _ => .bind fun _ w₂ _ => .bind fun _ w₃ _ _ w₄ he => ?_
    obtain ⟨-, rfl⟩ := Prod.mk.inj he
    simp [hasApp, SortedMap.contains]
  · rename_i happ
    exact .pure (Bool.eq_false_iff.2 happ)

/-- What an application maps stays so, unless its memory goes. -/
theorem stopApp_keeps (app : Int) : Ends (stopApp app) w fun _ w' => ∀ a v p, w.part.Maps a v p →
    w'.part.Maps a v p ∨ w'.part.hasApp a = false := by
  have hrest : Within Thrifty (do
      Pairing.removeApp app
      modifyDispatcher fun d => { d with apps := d.apps.erase app } : NodeWork n m Unit) :=
    (Pairing.removeApp_rousing app).thrifty.bind fun _ => modifyDispatcher_steering _
  have hown : Ends (stopApp app) w fun _ w' => ∀ v p, w.part.Maps app v p →
      w'.part.Maps app v p ∨ w'.part.hasApp app = false := by
    refine (log_mild _ _ _).thrifty.next fun _ w₁ h₁ => .part ?_
    dsimp only
    split
    · refine (log_mild _ _ _).thrifty.next fun _ _ _ => .bind <| (clearApp_gone app).mono fun _ w₂ h₂ _ w' he v p _ => .inr ?_
      rw [(hrest.of_exec he).hasApp, h₂]
    · refine (log_mild _ _ _).thrifty.next fun _ w₂ h₂ _ w' he v p hm => .inl ?_
      exact (((h₁.trans h₂).trans (hrest.of_exec he)).maps app v p).2 hm
  intro u w' he a v p hm
  by_cases ha : a = app
  · subst ha
    exact hown u w' he v p hm
  · have hl : Leaves a w w' := (stopApp_leaves ha).of_exec he
    obtain ⟨mem, hmem, hp⟩ := hm
    exact .inl ⟨mem, Eq.trans hl hmem, hp⟩

/-- Answering a subroutine, which clears its application when it has been aborted. -/
theorem answer_leaves (h : app ≠ other) (status : ExecutionStatus) :
    Within (Leaves app) (answer other status : NodeWork n m (Step m)) := by
  have := Leaves.wiping (n := n) (m := m) h
  exact answer_wiping other status

/-- What a step of a dispatcher does to the memory of an application whose subroutine it does not execute. -/
theorem step_moves (p : ProcessId) (wake : Wake) {e : Execution} {mem : AppMemory} (hne : app ≠ e.app)
    (hasc : w.part.apps.Ascending) (hmem : w.part.apps.get? app = some mem)
    (he : ∀ virt slot, e.Evicts app virt slot → w.part.Maps app virt 0 ∧ ∀ a v, ¬ w.part.Maps a v slot) :
    ((step p (.running e.app e) wake).exec w).2.part.apps.get? app = some mem ∨
      ∃ (virt : Nat) (slot : Nat) (mem' : AppMemory), e.Evicts app virt slot ∧ mem.phys? virt = some 0 ∧
        mem.Moves virt slot mem' ∧ ((step p (.running e.app e) wake).exec w).2.part.apps.get? app = some mem' := by
  have hlast : ∀ mem', ((Execution.step p e).exec w).2.part.apps.get? app = some mem' →
      ((step p (.running e.app e) wake).exec w).2.part.apps.get? app = some mem' := fun mem' h => by
    refine exec_bind_keeps (P := fun w : Working (Node n m) n m => w.part.apps.get? app = some mem') h fun flow w₁ h₁ => ?_
    cases flow with
    | finished status => exact (answer_leaves hne status w₁).trans h₁
    | _ => exact h₁
  rcases Execution.step_moves p hne hasc hmem he with h | ⟨virt, slot, mem', hev, h0, hmoves, h⟩
  · exact .inl (hlast mem h)
  · exact .inr ⟨virt, slot, mem', hev, h0, hmoves, hlast mem' h⟩

end Dispatch

end QuantumNode
