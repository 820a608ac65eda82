import QuantumNode.Proofs.Network.Rehearsal
import QuantumNode.Proofs.Network.Turn
import QuantumNode.Proofs.Ownership.Network

/-! What is left of an application that is cleared or stopped. Its slots are free, whoever waited for one is told, and nothing
else at the node has changed hands. -/
namespace QuantumNode

open Node Work Working

variable {n m : Nat} {w w₁ w' : Working (Node n m) n m} {app : Int} {mem : AppMemory}

namespace Working

/-- Slots have been freed, one at a time, and nobody else's. The first of them is told to those who wait. -/
structure Frees (slots : List Nat) (w w' : Working (Node n m) n m) : Prop where
  apps : w'.part.apps = w.part.apps
  allocated : ∀ p, w'.part.pool.isAllocated p = true ↔ w.part.pool.isAllocated p = true ∧ p ∉ slots
  later : ∀ q, w.resumed q ≤ w'.resumed q
  told : slots ≠ [] → ∀ q, w.resumed q + w.part.memoryFreed.waiters.count q ≤ w'.resumed q

theorem Frees.cons {p : Nat} {slots : List Nat} (h : Frees [p] w w₁) (h' : Frees slots w₁ w') : Frees (p :: slots) w w' where
  apps := h'.apps.trans h.apps
  allocated q := by
    rw [h'.allocated, h.allocated, List.mem_singleton, List.mem_cons, not_or, and_assoc]
  later q := Nat.le_trans (h.later q) (h'.later q)
  told _ q := Nat.le_trans (h.told (List.cons_ne_nil _ _) q) (h'.later q)

/-- The slots of an application have been freed, and it maps nothing. -/
structure Clears (app : Int) (w w' : Working (Node n m) n m) : Prop where
  allocated : ∀ p, w'.part.pool.isAllocated p = true ↔ w.part.pool.isAllocated p = true ∧ ∀ v, ¬ w.part.Maps app v p
  bare : ∀ v p, ¬ w'.part.Maps app v p
  others : ∀ a, a ≠ app → w'.part.apps.get? a = w.part.apps.get? a
  told : (∃ v p, w.part.Maps app v p) → ∀ q, w.resumed q + w.part.memoryFreed.waiters.count q ≤ w'.resumed q

/-- What is done next leaves slots and memories alone. -/
theorem Clears.trans (h : Clears app w w₁) (happs : w'.part.apps = w₁.part.apps) (hpool : w'.part.pool = w₁.part.pool)
    (hlater : ∀ q, w₁.resumed q ≤ w'.resumed q) : Clears app w w' where
  allocated p := by
    rw [hpool]
    exact h.allocated p
  bare v p hm := h.bare v p ((maps_congr happs ..).1 hm)
  others a ha := by
    rw [happs]
    exact h.others a ha
  told hm q := Nat.le_trans (h.told hm q) (hlater q)

/-- What was done before has left the node alone. -/
theorem Clears.of_part (h : Clears app w₁ w') (hpart : w₁.part = w.part) (hlater : ∀ q, w.resumed q ≤ w₁.resumed q) :
    Clears app w w' where
  allocated p := by
    rw [← hpart]
    exact h.allocated p
  bare := h.bare
  others a ha := by
    rw [← hpart]
    exact h.others a ha
  told hm q := by
    rw [← hpart] at hm ⊢
    exact Nat.le_trans (Nat.add_le_add_right (hlater q) _) (h.told hm q)

end Working

namespace Node

theorem log_quiet (level : LogLevel) (kind text : String) :
    Ends (log level kind text) w fun _ w' => w'.part = w.part ∧ ∀ q, w'.resumed q = w.resumed q := fun _ w' hx => by
  obtain ⟨-, rfl⟩ := Prod.mk.inj hx
  exact ⟨rfl, fun q => (resumed_push ..).trans (Nat.add_zero _)⟩

theorem freeQubit_frees (p : Nat) : Ends (freeQubit p) w fun _ w' => Frees [p] w w' := by
  have hreleased : Ends (releaseSlot p) w fun _ w₁ => ∃ pool, w.part.pool.free p = .ok pool ∧
      w₁ = { w with part := { w.part with pool := pool } } := .part <| .ofExcept fun pool hfree _ w₁ hx => by
    obtain ⟨-, rfl⟩ := Prod.mk.inj hx
    exact ⟨pool, hfree, rfl⟩
  refine .bind <| hreleased.mono fun _ w₁ ⟨pool, hfree, hw₁⟩ => .bind <| (log_quiet _ _ _).mono fun _ w₂ ⟨hpart, hres⟩ _ w₃ hx => ?_
  subst hw₁
  obtain ⟨w', hx', hpart', hres'⟩ := exec_notifyMemoryFreed w₂
  obtain rfl : w₃ = w' := (Prod.mk.inj (hx.symm.trans hx')).2
  have htold : ∀ q, w₃.resumed q = w.resumed q + w.part.memoryFreed.waiters.count q := fun q => by
    rw [hres', hres, hpart]
    rfl
  rw [hpart] at hpart'
  constructor
  case apps => rw [hpart']
  case allocated =>
    intro q
    rw [hpart', (QubitPool.returns_of_free hfree).allocated, List.mem_singleton]
    split
    · rename_i hq
      exact iff_of_false Bool.false_ne_true fun h => h.2 hq
    · rename_i hq
      exact (and_iff_left hq).symm
  case later => exact fun q => (Nat.le_add_right _ _).trans_eq (htold q).symm
  case told => exact fun _ q => Nat.le_of_eq (htold q).symm

theorem freeAll_frees (slots : List Nat) : Ends (slots.forM freeQubit) w fun _ w' => Frees slots w w' := by
  induction slots generalizing w with
  | nil => exact .pure ⟨rfl, fun p => (and_iff_left List.not_mem_nil).symm, fun _ => Nat.le_refl _, fun h => absurd rfl h⟩
  | cons p slots ih => exact .bind <| (freeQubit_frees p).mono fun _ _ h₁ => ih.mono fun _ _ h₂ => h₁.cons h₂

end Node

/-- An application is cleared by emptying its map and freeing the slots that were in it; its memory may go as well. -/
theorem Working.Clears.of_frees (hmem : w.part.apps.get? app = some mem)
    (h : Frees mem.mapped { w with part := { w.part with apps := w.part.apps.insert app mem.unmapAll } } w₁)
    (hsame : ∀ a, a ≠ app → w'.part.apps.get? a = w₁.part.apps.get? a) (hbare : ∀ v p, ¬ w'.part.Maps app v p)
    (hpool : w'.part.pool = w₁.part.pool) (hlater : ∀ q, w'.resumed q = w₁.resumed q) : Clears app w w' where
  allocated p := by
    rw [hpool, h.allocated, Node.mem_mapped_iff hmem, not_exists]
  bare := hbare
  others a ha := by
    rw [hsame a ha, h.apps]
    exact SortedMap.get?_insert_of_ne _ ha _
  told hm q := by
    obtain ⟨v, p, hm⟩ := hm
    rw [hlater]
    exact h.told (List.ne_nil_of_mem ((Node.mem_mapped_iff hmem).2 ⟨v, hm⟩)) q

namespace Dispatch

theorem clearApp_clears (app : Int) (remove : Bool) : Ends (clearApp app remove) w fun _ w' => Clears app w w' := by
  refine .part ?_
  split
  · refine .bind <| (Execution.memory_ends app).mono fun mem w₁ ⟨hw, hmem⟩ => ?_
    subst hw
    refine .modifyPart <| .bind <| (freeAll_frees mem.mapped).mono fun _ w₂ h₂ => ?_
    split
    · intro _ w₃ hx
      obtain ⟨-, rfl⟩ := Prod.mk.inj hx
      refine .of_frees hmem h₂ (fun a ha => SortedMap.get?_erase_of_ne _ ha) ?_ rfl fun _ => rfl
      rintro v p ⟨mem, hmem, -⟩
      rw [SortedMap.get?_erase_self] at hmem
      exact nomatch hmem
    · refine .pure (.of_frees hmem h₂ (fun _ _ => rfl) (fun v p hm => ?_) rfl fun _ => rfl)
      exact (unmapAll_ends hmem () _ rfl).2 v p ((maps_congr h₂.apps ..).1 hm)
  · rename_i happ
    have hbare : ∀ v p, ¬ w.part.Maps app v p := fun v p ⟨mem, hmem, _⟩ =>
      happ (Option.isSome_iff_exists.2 ⟨mem, hmem⟩)
    exact .pure ⟨fun p => (and_iff_left fun v => hbare v p).symm, hbare, fun _ _ => rfl,
      fun ⟨v, p, hm⟩ => absurd hm (hbare v p)⟩

/-- An application that is stopped is cleared on the way. -/
theorem stopApp_clears (hclear : w.part.dispatcher.clearOnStop = true) (app : Int) :
    Ends (stopApp app) w fun _ w' => Clears app w w' := by
  refine .bind <| (log_quiet _ _ _).mono fun _ w₁ ⟨hpart₁, hres₁⟩ => .part ?_
  rw [hpart₁, if_pos hclear]
  refine .bind <| (log_quiet _ _ _).mono fun _ w₂ ⟨hpart₂, hres₂⟩ => ?_
  refine .bind <| (clearApp_clears app true).mono fun _ w₃ h₃ => ?_
  have hcleared : Clears app w w₃ :=
    h₃.of_part (hpart₂.trans hpart₁) fun q => Nat.le_of_eq ((hres₂ q).trans (hres₁ q)).symm
  -- What the pair service and the dispatcher forget are not slots.
  refine .bind <| .modifyPart fun _ w₄ hx => ?_
  obtain ⟨w₅, hx₅, hpart, hres⟩ := exec_notifyNews { w₃ with part := { w₃.part with service := w₃.part.service.forget app } }
  obtain rfl : w₄ = w₅ := (Prod.mk.inj (hx.symm.trans hx₅)).2
  have happs : w₄.part.apps = w₃.part.apps := by rw [hpart]
  have hpool : w₄.part.pool = w₃.part.pool := by rw [hpart]
  intro _ w' hx'
  obtain ⟨-, rfl⟩ := Prod.mk.inj hx'
  exact hcleared.trans happs hpool fun q => (Nat.le_add_right _ _).trans_eq (hres q).symm

/-- The pieces of work that take its qubits from an application: it is cleared, with or without its memory, or it is stopped
at a node that clears what it stops. -/
inductive TakesQubits (app : Int) (node : Node n m) : NodeWork n m Unit → Prop where
  | clear (remove : Bool) : TakesQubits app node (clearApp app remove)
  | stop (h : node.dispatcher.clearOnStop = true) : TakesQubits app node (stopApp app)

theorem TakesQubits.attains {held : List Nat} {x : NodeWork n m Unit} (hx : TakesQubits app w.part x)
    (h : w.part.Accounted held) : Attains x w fun _ w' => Clears app w w' ∧ w'.part.Accounted held := by
  cases hx with
  | clear remove => exact (clearApp_attains h app remove).ends (clearApp_clears app remove)
  | stop hclear => exact (stopApp_attains h app).ends (stopApp_clears hclear app)

end Dispatch

namespace Network

open Dispatch

/-- At a node whose slots are accounted for, taking its qubits from an application always succeeds. Afterwards a slot is
allocated just if it was and that application did not map it: so the slot of a pair under way is, whoever the pair is for. The
application maps nothing, the memories of all others are as they were, and if it had a slot, whoever waited for one is due. -/
theorem clearing_frees_what_was_mapped {s : Network n m} {i : Fin n} {others : List Nat}
    (h : (s.node i).Accounted ((s.pairStage i).held ++ others)) (app : Int) {x : NodeWork n m Unit}
    (hx : TakesQubits app (s.node i) x) :
    ∃ w, x.exec (s.working i) = (.ok (), w) ∧
      (∀ p, ((s.commit i w).node i).pool.isAllocated p = true ↔
        (s.node i).pool.isAllocated p = true ∧ ∀ v, ¬ (s.node i).Maps app v p) ∧
      (∀ v p, ¬ ((s.commit i w).node i).Maps app v p) ∧
      (∀ a, a ≠ app → ((s.commit i w).node i).apps.get? a = (s.node i).apps.get? a) ∧
      ((∃ v p, (s.node i).Maps app v p) → ∀ q, s.due q + (s.node i).memoryFreed.waiters.count q ≤ (s.commit i w).due q) ∧
      (∀ p ∈ (s.pairStage i).held, ((s.commit i w).node i).pool.isAllocated p = true) ∧
      ((s.commit i w).node i).Accounted ((s.pairStage i).held ++ others) := by
  obtain ⟨_, w, hw, hc, hacc⟩ := TakesQubits.attains (w := s.working i) hx h
  have hslots := commit_slots s i w i
  rw [if_pos rfl] at hslots
  have hacc' := hacc.congr hslots
  refine ⟨w, hw, fun p => ?_, fun v p hm => ?_, fun a ha => ?_, fun hm q => ?_, fun p hp => ?_, hacc'⟩
  · rw [hslots.pool]
    exact hc.allocated p
  · exact hc.bare v p ((maps_congr hslots.apps ..).1 hm)
  · rw [hslots.apps]
    exact hc.others a ha
  · have htold : 0 + (s.node i).memoryFreed.waiters.count q ≤ w.resumed q := hc.told hm q
    have := due_commit s i w q
    omega
  · exact hacc'.heldAllocated (List.mem_append_left _ hp)

/-- A subroutine has taken one slot of a node, and a pair for the same application is under way in the other. -/
def duoUnderWay : List (Direction duo.nodes.length) :=
  duoOpening ++ [.act (.post 0 "SUBROUTINE\n# NETQASM 1.0\n# APPID 0\nset Q0 0\nqalloc Q0\n"), .run 0 100,
    .act (.atNode 0 (.submit (duoRequest 0))), .act (.atNode 1 (.submit (duoRequest 1))), .run 0 100]

theorem clearing_frees_what_was_mapped_beside_pair : ∃ s : Network duo.nodes.length duo.links.length,
    Reachable duo ClientAct.Orderly s ∧ (s.pairStage 0).held = [1] ∧ (s.node 0).pool.allocatedSlots = [0, 1] ∧
      ∃ w, (clearApp 0 true).exec (s.working 0) = (.ok (), w) ∧
        ∀ p, ((s.commit 0 w).node 0).pool.isAllocated p = true ↔ p = 1 := by
  obtain ⟨past, s, ht, hs⟩ := Trace.exists_of_rehearse duo ClientAct.Orderly duoUnderWay
    (fun r => (r.2.pairStage 0).held = [1] ∧ (r.2.node 0).pool.allocatedSlots = [0, 1] ∧
      ((r.2.node 0).apps.get? 0).bind (·.phys? 0) = some 0) (by decide +kernel) (by decide)
  obtain ⟨hheld, hallocated, hmapped⟩ := of_decide_eq_true hs
  obtain ⟨mem, hmem, hphys⟩ := Option.bind_eq_some_iff.1 hmapped
  have hm : (s.node 0).Maps 0 0 0 := maps_iff.2 ⟨mem, hmem, 0, rfl, hphys⟩
  have hbefore {p : Nat} : (s.node 0).pool.isAllocated p = true ↔ p ∈ [0, 1] := by
    rw [← QubitPool.mem_allocatedSlots, hallocated]
  obtain ⟨w, hw, hslots, -, -, -, hpair, -⟩ :=
    clearing_frees_what_was_mapped (ht.owned 0).accounted 0 (TakesQubits.clear true)
  refine ⟨s, ⟨past, ht⟩, hheld, hallocated, w, hw, fun p => ⟨fun hp => ?_, ?_⟩⟩
  · obtain ⟨hp, hno⟩ := (hslots p).1 hp
    rcases List.mem_pair.1 (hbefore.1 hp) with rfl | rfl
    · exact absurd hm (hno 0)
    · rfl
  · rintro rfl
    exact hpair 1 (by simp [hheld])

end Network

end QuantumNode
