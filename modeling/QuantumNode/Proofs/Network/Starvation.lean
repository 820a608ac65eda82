import Mathlib.Algebra.Order.BigOperators.Group.Finset
import QuantumNode.Proofs.Network.Pace
import QuantumNode.Proofs.Network.Rehearsal

/-! How a pair service waits for a slot to communicate with. It begins to wait when it has looked for one in vain, and
sleeps until a slot of its node becomes free or an application is aborted; it then has one turn, at which it looks again.
No wake-up is lost: while it is not to go on, no slot that communicates is free. -/
namespace QuantumNode

open Node Work Working

variable {n m : Nat}

/-- Whether a pair service waits for a slot to communicate with. -/
def PairStage.isStarving : PairStage → Bool
  | starving _ _ => true
  | _ => false

namespace Network

namespace Stride

/-- Whether the pair service of a node is the one to go on. -/
def goesOn (e : Stride n m) (i : Fin n) : Bool := e.before.current.map Prod.fst == some (pairId i)

/-- Whether the pair service of a node has gone on, and begun to wait for a slot. -/
def starves (e : Stride n m) (i : Fin n) : Bool := e.goesOn i && (e.after.pairStage i).isStarving

/-- Whether a signal about free slots has been given at a node. -/
def notifies (e : Stride n m) (i : Fin n) : Prop :=
  (e.before.node i).memoryFreed.notified ≠ (e.after.node i).memoryFreed.notified

/-- A slot of a node has become free. -/
def frees (e : Stride n m) (i : Fin n) : Prop :=
  ∃ slot, (e.before.node i).pool.isAllocated slot = true ∧ (e.after.node i).pool.isAllocated slot = false

end Stride

/-- A pair service that looked for a slot in vain in step `e`, and has not gone on in the steps since then. -/
structure Vigil (i : Fin n) (t : PairTask) (k : Nat) (e : Stride n m) (since : List (Stride n m)) (s : Network n m) :
    Prop where
  /-- It has looked for a slot, and begun to wait. -/
  attempt : e.goesOn i = true ∧ e.after.pairStage i = .starving t k
  asleep : ∀ d ∈ since, d.goesOn i = false
  /-- It is told of nothing but slots that become free and applications that are aborted. -/
  told : ∀ d ∈ since, d.notifies i → d.cause.aborts i ∨ d.frees i
  /-- It is to go on once if it has been told of anything, and not otherwise. -/
  due : s.due (pairId i) =
    if (s.node i).memoryFreed.notified = (e.after.node i).memoryFreed.notified then 0 else 1
  later : (e.after.node i).memoryFreed.notified ≤ (s.node i).memoryFreed.notified
  inLine : (s.node i).memoryFreed.notified = (e.after.node i).memoryFreed.notified →
    0 < (s.node i).memoryFreed.waiters.count (pairId i)
  /-- As long as it is not to go on, there is nothing for it to find. -/
  needed : s.due (pairId i) = 0 → (s.node i).pool.Exhausted ∧ (s.node i).service.isAborted t.request.app = false

variable {s s' : Network n m} {i : Fin n} {cause : Cause n}

theorem lines_le_waits (s : Network n m) (i : Fin n) (q : ProcessId) : (s.node i).lines q ≤ s.waits q := by
  have hsum := Finset.single_le_sum (f := fun j => (s.node j).lines q) (fun _ _ => Nat.zero_le _) (Finset.mem_univ i)
  unfold waits
  omega

theorem Paced.turns_le (h : s.Paced) (hst : s.pairStage i ≠ .idle) : s.turns (pairId i) ≤ 1 := by
  cases hp : s.processes.get? (pairId i) with
  | none => exact absurd (pairStage_of_gone hp) hst
  | some process => exact h.once i process hp

/-- Whoever stands in a line and has but one turn is not to go on. -/
theorem due_of_inLine (h : s.turns (pairId i) ≤ 1) (hl : 0 < (s.node i).memoryFreed.waiters.count (pairId i)) :
    s.due (pairId i) = 0 := by
  have := lines_le_waits s i (pairId i)
  unfold turns at h
  unfold Node.lines at this
  omega

theorem Famished.vigil {t : PairTask} {k : Nat} (h : Famished i t k s s') (hown : s.current.map Prod.fst = some (pairId i))
    (hp : s'.Paced) : Vigil i t k ⟨s, cause, s'⟩ [] s' where
  attempt := ⟨beq_iff_eq.2 hown, h.stage⟩
  asleep _ hd := nomatch hd
  told _ hd := nomatch hd
  due := (due_of_inLine (hp.turns_le (by simp [h.stage])) h.waiting).trans (if_pos rfl).symm
  later := Nat.le_refl _
  inLine _ := h.waiting
  needed _ := ⟨h.exhausted.1 ▸ h.exhausted.2, h.going⟩

theorem Vigil.step {t : PairTask} {k : Nat} {e : Stride n m} {since : List (Stride n m)} (h : Vigil i t k e since s)
    (hb : Bystands i cause s s') (hown : s.current.map Prod.fst ≠ some (pairId i)) (ht : s'.turns (pairId i) ≤ 1)
    (hbuild : Node.SameBuild (s.node i) (s'.node i)) : Vigil i t k e (⟨s, cause, s'⟩ :: since) s' := by
  have hdue := hb.due
  have hle : s'.due (pairId i) ≤ 1 := Nat.le_trans (Nat.le_add_right _ _) ht
  have hlater := h.later
  have hold := h.due
  have hasleep : ∀ d ∈ (⟨s, cause, s'⟩ : Stride n m) :: since, d.goesOn i = false :=
    List.forall_mem_cons.2 ⟨beq_eq_false_iff_ne.2 hown, h.asleep⟩
  rcases hb.supply with ⟨hfreed, hslots, haborted⟩ | ⟨hlt, hwake, htold⟩
  · have hline := h.inLine
    rw [← hfreed] at hold hlater hline
    refine ⟨h.attempt, hasleep, List.forall_mem_cons.2 ⟨fun hn => absurd ?_ hn, h.told⟩, ?_, hlater, hline, fun hz => ?_⟩
    · rw [hfreed]
    · split at hold
      · rename_i heq
        exact (due_of_inLine ht (hline heq)).trans (if_pos heq).symm
      · rename_i hne
        rw [if_neg hne]
        omega
    · obtain ⟨hex, hgoing⟩ := h.needed (by omega)
      refine ⟨fun slot hc => ?_, Bool.eq_false_iff.2 fun ha => absurd (haborted _ ha) (by simp [hgoing])⟩
      rw [hbuild.communication] at hc
      exact hslots slot hc (hex slot hc)
  · have hne : (s'.node i).memoryFreed.notified ≠ (e.after.node i).memoryFreed.notified := by omega
    have hone : s'.due (pairId i) = 1 := by
      split at hold
      · rename_i heq
        have := h.inLine heq
        omega
      · omega
    refine ⟨h.attempt, hasleep, List.forall_mem_cons.2 ⟨fun _ => htold, h.told⟩, ?_, by omega, fun heq => absurd heq hne,
      fun hz => ?_⟩
    · rw [if_neg hne, hone]
    · omega

/-- What the searches of a pair service for a slot to communicate with have come to. -/
structure Searches (i : Fin n) (past : List (Stride n m)) (s : Network n m) : Prop where
  vigil : ∀ t k, s.pairStage i = .starving t k →
    ∃ since e before, past = since ++ e :: before ∧ Vigil i t k e since s
  waits : (s.node i).service.allocationWaits = past.countP (·.starves i)
  attempts : ∀ e ∈ past, e.goesOn i = true → ∀ t k, Pairing.Asks t k (e.before.pairStage i) →
    Famished i t k e.before e.after ∨ Granted i t k e.before e.after

/-- A step at which a pair service does not go on, or need not wait for a slot. -/
theorem Searches.rest {past : List (Stride n m)} (h : Searches i past s)
    (hv : ∀ t k, s'.pairStage i = .starving t k →
      ∃ since e before, (⟨s, cause, s'⟩ : Stride n m) :: past = since ++ e :: before ∧ Vigil i t k e since s')
    (hw : (s'.node i).service.allocationWaits = (s.node i).service.allocationWaits)
    (hs : s.current.map Prod.fst = some (pairId i) → Fed i s s') : Searches i (⟨s, cause, s'⟩ :: past) s' := by
  have hstarves : (⟨s, cause, s'⟩ : Stride n m).starves i = false := by
    rw [Stride.starves, Bool.and_eq_false_imp]
    intro hg
    have hsated := (hs (beq_iff_eq.1 hg)).sated
    cases hst : s'.pairStage i with
    | starving t k => exact absurd hst (hsated t k)
    | _ => rfl
  refine ⟨hv, ?_, List.forall_mem_cons.2 ⟨fun hg t k ha => .inr ((hs (beq_iff_eq.1 hg)).granted t k ha), h.attempts⟩⟩
  rw [hw, h.waits, List.countP_cons, hstarves]
  rfl

theorem Happens.searches {past : List (Stride n m)} (hh : s.Happens cause s') (hs : s.Crewed) (hp : s.Paced)
    (h : Searches i past s) : Searches i (⟨s, cause, s'⟩ :: past) s' := by
  have hp' := hh.paced hs hp
  by_cases hown : s.current.map Prod.fst = some (pairId i)
  · have htread : s.Treads s' := by
      cases hh with
      | tread h => exact h
      | start hc => exact absurd hown (by simp [hc])
      | hear hc _ => exact absurd hown (by simp [hc])
      | pass hc _ _ => exact absurd hown (by simp [hc])
      | labour hc _ _ => exact absurd hown (by simp [hc])
    rcases htread.own hown with ⟨t, k, hf⟩ | hf
    · have hgoes : (⟨s, cause, s'⟩ : Stride n m).goesOn i = true := beq_iff_eq.2 hown
      refine ⟨fun t' k' hst => ?_, ?_, List.forall_mem_cons.2 ⟨fun _ t' k' ha => ?_, h.attempts⟩⟩
      · obtain ⟨rfl, rfl⟩ : t = t' ∧ k = k' := by
          rw [hf.stage] at hst
          cases hst
          exact ⟨rfl, rfl⟩
        exact ⟨[], _, past, rfl, hf.vigil hown hp'⟩
      · rw [hf.waits, h.waits, List.countP_cons, if_pos]
        rw [Stride.starves, hgoes, hf.stage]
        rfl
      · obtain ⟨rfl, rfl⟩ := hf.asked.unique ha
        exact .inl hf
    · exact h.rest (fun t k hst => absurd hst (hf.sated t k)) hf.waits fun _ => hf
  · rcases hh.bystands hown (hp.relocates i).1 with hb | ⟨hst, rfl⟩
    · refine h.rest (fun t k hst => ?_) hb.waits fun hown' => absurd hown' hown
      have ht := hp'.turns_le (i := i) (by simp [hst])
      rw [pairStage_of_get? hb.process] at hst
      obtain ⟨since, e, before, rfl, hv⟩ := h.vigil t k hst
      exact ⟨_ :: since, e, before, rfl, hv.step hb hown ht (hh.build _)⟩
    · refine h.rest (fun t k hst' => ?_) (by rw [start_node]) fun hown' => absurd hown' hown
      rw [start_pairStage hs, pairStage_of_gone (by rw [(hs.unstarted hst).2]; rfl)] at hst'
      exact nomatch hst'

theorem Built.searches (h : s.Built) (i : Fin n) : Searches i [] s := by
  refine ⟨fun t k hst => ?_, ?_, fun _ he => nomatch he⟩
  · rw [h.pairStage] at hst
    exact nomatch hst
  · obtain ⟨latencies, hservice⟩ := h.service i
    rw [hservice]
    rfl

/-- Along every run, a pair service that waits for a slot to communicate with misses nothing, and does not poll: it looks
again once after a slot has become free or an application has been aborted, and only then; each search that fails counts
as one wait, and each that succeeds takes a slot that communicates and was free. -/
theorem searches_wake_once {c : NetworkConfig} {past : List (Stride c.nodes.length c.links.length)}
    {s : Network c.nodes.length c.links.length} (h : Course c past s) (i : Fin c.nodes.length) : Searches i past s := by
  induction h with
  | built h => exact (built_of_build h).searches i
  | step hprev hf ih => exact (hf.happens hprev.crewed).searches hprev.crewed hprev.paced ih

/-- A subroutine has taken both slots of a node, whose application is then asked for a pair. -/
def duoStarving : List (Direction duo.nodes.length) :=
  duoOpening ++ [
    .act (.post 0 "SUBROUTINE\n# NETQASM 1.0\n# APPID 0\nset Q0 0\nqalloc Q0\nset Q1 1\nqalloc Q1\n"), .run 1000000 200,
    .act (.atNode 0 (.submit (duoRequest 0))), .act (.atNode 1 (.submit (duoRequest 1))), .run 1000000 100]

theorem searches_wake_once_after_qalloc : ∃ past s, Course duo past s ∧ s.due (pairId (0 : Fin duo.nodes.length)) = 0 ∧
    (∃ t k since e before, past = since ++ e :: before ∧ Vigil 0 t k e since s) ∧ (s.node 0).pool.Exhausted ∧
      past.countP (·.starves 0) = 1 := by
  obtain ⟨past, s, ht, hs⟩ := Trace.exists_of_rehearse duo (fun _ => True) duoStarving
    (fun r => (r.2.pairStage 0).isStarving = true ∧ r.2.due (pairId (0 : Fin duo.nodes.length)) = 0 ∧
      (r.2.node 0).service.allocationWaits = 1) (by decide +kernel) (fun _ _ => trivial)
  obtain ⟨hstarving, hdue, hwaits⟩ := of_decide_eq_true hs
  obtain ⟨strides, hcourse, -⟩ := ht.course
  have hsearches := searches_wake_once hcourse 0
  cases hst : s.pairStage 0 with
  | starving t k =>
    obtain ⟨since, e, before, hpast, hv⟩ := hsearches.vigil t k hst
    exact ⟨strides, s, hcourse, hdue, ⟨t, k, since, e, before, hpast, hv⟩, (hv.needed hdue).1,
      hsearches.waits.symm.trans hwaits⟩
  | _ =>
    rw [hst] at hstarving
    exact nomatch hstarving

end Network

end QuantumNode
