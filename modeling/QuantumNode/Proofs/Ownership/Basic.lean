import QuantumNode.Proofs.Memory.Application
import QuantumNode.Proofs.Memory.Pool
import QuantumNode.Proofs.Node.Enrolment

/-! Who owns the qubits of a node. A slot that is allocated is mapped by one virtual id, or held by one activity
that is under way. -/
namespace QuantumNode.Node

open Work Working

variable {n m : Nat}

/-- A virtual id of an application stands for a physical slot. -/
def Maps (node : Node n m) (app virt : Int) (p : Nat) : Prop :=
  ∃ mem, node.apps.get? app = some mem ∧ mem.physicalFor virt = .ok (some p)

theorem maps_iff {node : Node n m} {app virt : Int} {p : Nat} :
    node.Maps app virt p ↔ ∃ mem, node.apps.get? app = some mem ∧ ∃ v : Nat, virt = v ∧ mem.phys? v = some p := by
  constructor
  · rintro ⟨mem, hmem, h⟩
    obtain ⟨v, hv, -, hp⟩ := AppMemory.physicalFor_ok h
    exact ⟨mem, hmem, v, hv, hp⟩
  · rintro ⟨mem, hmem, v, rfl, hp⟩
    exact ⟨mem, hmem, AppMemory.physicalFor_of_phys? hp⟩

/-- What the memory of an application maps is what the application does. -/
theorem mem_mapped_iff {node : Node n m} {app : Int} {mem : AppMemory} (hmem : node.apps.get? app = some mem) {p : Nat} :
    p ∈ mem.mapped ↔ ∃ v, node.Maps app v p := by
  rw [AppMemory.mem_mapped]
  constructor
  · rintro ⟨v, hv⟩
    exact ⟨v, maps_iff.2 ⟨mem, hmem, v, rfl, hv⟩⟩
  · rintro ⟨v, hm⟩
    obtain ⟨mem', hmem', u, -, hu⟩ := maps_iff.1 hm
    rw [hmem] at hmem'
    cases hmem'
    exact ⟨u, hu⟩

theorem Maps.unique {node : Node n m} {app virt : Int} {p q : Nat} (hp : node.Maps app virt p)
    (hq : node.Maps app virt q) : p = q := by
  obtain ⟨mem, hmem, hp⟩ := hp
  obtain ⟨mem', hmem', hq⟩ := hq
  rw [hmem] at hmem'
  cases hmem'
  rw [hp] at hq
  cases hq
  rfl

/-- A virtual id stands for a physical slot as long as its application is there. -/
def StillMaps (node : Node n m) (app virt : Int) (p : Nat) : Prop := node.Maps app virt p ∨ node.Gone app

theorem StillMaps.mono {node node' : Node n m} {app virt : Int} {p : Nat} (h : node.StillMaps app virt p)
    (hm : node.Maps app virt p → node'.Maps app virt p) (hg : node.Gone app → node'.Gone app) :
    node'.StillMaps app virt p := h.imp hm hg

/-- Of an application that is there a slot is known for certain. -/
theorem StillMaps.maps {node : Node n m} {app virt : Int} {p : Nat} {mem : AppMemory} (h : node.StillMaps app virt p)
    (hmem : node.apps.get? app = some mem) : node.Maps app virt p :=
  h.resolve_right fun hg => by simp [Gone, hasApp, SortedMap.contains, hmem] at hg

theorem ownerIn_some {phys : Nat} {l : List (Int × AppMemory)} {app virt : Int}
    (h : ownerIn phys l = some (app, virt)) : ∃ mem, (app, mem) ∈ l ∧ mem.virtualFor? phys = some virt := by
  induction l with
  | nil => exact nomatch h
  | cons d l ih =>
    obtain ⟨a, mem⟩ := d
    rw [ownerIn] at h
    split at h
    · rename_i hv
      cases h
      exact ⟨mem, List.mem_cons_self, hv⟩
    · obtain ⟨mem', hmem', hv⟩ := ih h
      exact ⟨mem', List.mem_cons_of_mem _ hmem', hv⟩

/-- The owner of a slot maps it. -/
theorem maps_of_owner? {node : Node n m} {app virt : Int} {p : Nat} (hasc : node.apps.Ascending)
    (h : node.owner? p = some (app, virt)) : node.Maps app virt p := by
  obtain ⟨mem, hmem, hv⟩ := ownerIn_some h
  obtain ⟨v, hv, hp⟩ := AppMemory.virtualFor?_some hv
  exact maps_iff.2 ⟨mem, hasc.get?_of_mem hmem, v, hv, hp⟩

/-- A slot that nobody maps has no owner. -/
theorem owner?_eq_none {node : Node n m} {p : Nat} (hasc : node.apps.Ascending)
    (h : ∀ app virt, ¬ node.Maps app virt p) : node.owner? p = none := by
  rcases ho : node.owner? p with _ | ⟨app, virt⟩
  · rfl
  · exact absurd (maps_of_owner? hasc ho) (h app virt)

private theorem ownerIn_none {phys : Nat} {l : List (Int × AppMemory)} (h : ownerIn phys l = none) :
    ∀ d ∈ l, d.2.virtualFor? phys = none := by
  induction l with
  | nil => exact nofun
  | cons d l ih =>
    obtain ⟨a, mem⟩ := d
    rw [ownerIn] at h
    split at h
    · exact nomatch h
    · rename_i hv
      exact List.forall_mem_cons.2 ⟨hv, ih h⟩

/-- A slot without an owner is mapped by nobody. -/
theorem not_maps_of_owner? {node : Node n m} {p : Nat} (h : node.owner? p = none) (app virt : Int) :
    ¬ node.Maps app virt p := fun hm => by
  obtain ⟨mem, hmem, v, -, hp⟩ := maps_iff.1 hm
  exact AppMemory.virtualFor?_none (ownerIn_none h _ (SortedMap.mem_entries_of_get? hmem)) v hp

/-- The slots of a node are accounted for, given those held by activities under way. -/
structure Accounted (node : Node n m) (held : List Nat) : Prop where
  ascending : node.apps.Ascending
  injective : ∀ {app virt app' virt' : Int} {p : Nat},
    node.Maps app virt p → node.Maps app' virt' p → app = app' ∧ virt = virt'
  allocated : ∀ {app virt : Int} {p : Nat}, node.Maps app virt p → node.pool.isAllocated p = true
  apart : ∀ {app virt : Int} {p : Nat}, node.Maps app virt p → p ∉ held
  heldAllocated : ∀ {p : Nat}, p ∈ held → node.pool.isAllocated p = true
  nodup : held.Nodup
  covered : ∀ {p : Nat}, node.pool.isAllocated p = true → (∃ app virt, node.Maps app virt p) ∨ p ∈ held

namespace Accounted

variable {node node' : Node n m} {held held' : List Nat} {p : Nat}

theorem perm (h : node.Accounted held) (hp : held.Perm held') : node.Accounted held' where
  ascending := h.ascending
  injective := h.injective
  allocated := h.allocated
  apart hm := fun hp' => h.apart hm (hp.mem_iff.2 hp')
  heldAllocated hp' := h.heldAllocated (hp.mem_iff.2 hp')
  nodup := hp.nodup_iff.1 h.nodup
  covered ha := (h.covered ha).imp_right hp.mem_iff.1

/-- A change that keeps the map of qubits and the pool. -/
theorem of_same (h : node.Accounted held) (hasc : node'.apps.Ascending)
    (hmaps : ∀ app virt p, node'.Maps app virt p ↔ node.Maps app virt p) (hpool : node'.pool = node.pool) :
    node'.Accounted held where
  ascending := hasc
  injective hm hm' := h.injective ((hmaps ..).1 hm) ((hmaps ..).1 hm')
  allocated hm := hpool ▸ h.allocated ((hmaps ..).1 hm)
  apart hm := h.apart ((hmaps ..).1 hm)
  heldAllocated hp := hpool ▸ h.heldAllocated hp
  nodup := h.nodup
  covered ha := (h.covered (hpool ▸ ha)).imp_left fun ⟨app, virt, hm⟩ => ⟨app, virt, (hmaps ..).2 hm⟩

/-- A slot that is taken is held. -/
theorem take (h : node.Accounted held) {pool : QubitPool} (ht : node.pool.Takes pool p) :
    ({ node with pool := pool } : Node n m).Accounted (p :: held) where
  ascending := h.ascending
  injective := h.injective
  allocated hm := by
    rw [ht.allocated]
    split
    · rfl
    · exact h.allocated hm
  apart {app virt q} hm := fun hq => by
    rcases List.mem_cons.1 hq with rfl | hq
    · have := h.allocated hm
      rw [ht.free] at this
      exact nomatch this
    · exact h.apart hm hq
  heldAllocated {q} hq := by
    rw [ht.allocated]
    split
    · rfl
    · rename_i hne
      exact h.heldAllocated ((List.mem_cons.1 hq).resolve_left hne)
  nodup := by
    refine List.nodup_cons.2 ⟨fun hp => ?_, h.nodup⟩
    have := h.heldAllocated hp
    rw [ht.free] at this
    exact nomatch this
  covered {q} ha := by
    change pool.isAllocated q = true at ha
    rw [ht.allocated] at ha
    split at ha
    · rename_i hq
      exact .inr (hq ▸ List.mem_cons_self)
    · exact (h.covered ha).imp_right (List.mem_cons_of_mem _)

/-- A slot that is held can be returned. -/
theorem giveBack (h : node.Accounted (p :: held)) {pool : QubitPool} (hr : node.pool.Returns pool p) :
    ({ node with pool := pool } : Node n m).Accounted held := by
  obtain ⟨hp, hnd⟩ := List.nodup_cons.1 h.nodup
  have hne : ∀ {q}, q ∈ held → q ≠ p := fun hq hqp => hp (hqp ▸ hq)
  exact {
    ascending := h.ascending
    injective := h.injective
    allocated := fun {app virt q} hm => by
      have hqp : q ≠ p := fun hqp => h.apart hm (hqp ▸ List.mem_cons_self)
      rw [hr.allocated, if_neg hqp]
      exact h.allocated hm
    apart := fun hm hq => h.apart hm (List.mem_cons_of_mem _ hq)
    heldAllocated := fun hq => by
      rw [hr.allocated, if_neg (hne hq)]
      exact h.heldAllocated (List.mem_cons_of_mem _ hq)
    nodup := hnd
    covered := fun {q} ha => by
      change pool.isAllocated q = true at ha
      rw [hr.allocated] at ha
      split at ha
      · exact nomatch ha
      · rename_i hqp
        exact (h.covered ha).imp_right fun hq => (List.mem_cons.1 hq).resolve_left hqp }

/-- A virtual id without a slot takes over one that is held. -/
theorem map (h : node.Accounted (p :: held)) {app virt : Int} (hpool : node'.pool = node.pool)
    (hasc : node'.apps.Ascending) (hfree : ∀ q, ¬ node.Maps app virt q)
    (hmaps : ∀ a v q, node'.Maps a v q ↔ node.Maps a v q ∨ (a = app ∧ v = virt ∧ q = p)) :
    node'.Accounted held := by
  obtain ⟨hp, hnd⟩ := List.nodup_cons.1 h.nodup
  have hun : ∀ {a v}, ¬ node.Maps a v p := fun hm => h.apart hm List.mem_cons_self
  exact {
    ascending := hasc
    injective := fun {a v a' v' q} hm hm' => by
      rcases (hmaps ..).1 hm with hm | ⟨rfl, rfl, rfl⟩
      · rcases (hmaps ..).1 hm' with hm' | ⟨rfl, rfl, rfl⟩
        · exact h.injective hm hm'
        · exact absurd hm hun
      · rcases (hmaps ..).1 hm' with hm' | ⟨rfl, rfl, -⟩
        · exact absurd hm' hun
        · exact ⟨rfl, rfl⟩
    allocated := fun hm => by
      rw [hpool]
      rcases (hmaps ..).1 hm with hm | ⟨-, -, rfl⟩
      · exact h.allocated hm
      · exact h.heldAllocated List.mem_cons_self
    apart := fun hm hq => by
      rcases (hmaps ..).1 hm with hm | ⟨-, -, rfl⟩
      · exact h.apart hm (List.mem_cons_of_mem _ hq)
      · exact hp hq
    heldAllocated := fun hq => hpool ▸ h.heldAllocated (List.mem_cons_of_mem _ hq)
    nodup := hnd
    covered := fun {q} ha => by
      rcases h.covered (hpool ▸ ha) with ⟨a, v, hm⟩ | hq
      · exact .inl ⟨a, v, (hmaps ..).2 (.inl hm)⟩
      · rcases List.mem_cons.1 hq with rfl | hq
        · exact .inl ⟨app, virt, (hmaps ..).2 (.inr ⟨rfl, rfl, rfl⟩)⟩
        · exact .inr hq }

/-- Slots whose virtual ids give them up are held. -/
theorem unmap (h : node.Accounted held) {given : List Nat} {gone : Int → Int → Prop} (hpool : node'.pool = node.pool)
    (hasc : node'.apps.Ascending) (hgiven : ∀ q, q ∈ given ↔ ∃ a v, gone a v ∧ node.Maps a v q)
    (hnd : given.Nodup) (hmaps : ∀ a v q, node'.Maps a v q ↔ node.Maps a v q ∧ ¬ gone a v) :
    node'.Accounted (given ++ held) where
  ascending := hasc
  injective hm hm' := h.injective ((hmaps ..).1 hm).1 ((hmaps ..).1 hm').1
  allocated hm := hpool ▸ h.allocated ((hmaps ..).1 hm).1
  apart {a v q} hm := fun hq => by
    obtain ⟨hm, hng⟩ := (hmaps ..).1 hm
    rcases List.mem_append.1 hq with hq | hq
    · obtain ⟨a', v', hg, hm'⟩ := (hgiven q).1 hq
      obtain ⟨rfl, rfl⟩ := h.injective hm hm'
      exact hng hg
    · exact h.apart hm hq
  heldAllocated {q} hq := by
    rw [hpool]
    rcases List.mem_append.1 hq with hq | hq
    · obtain ⟨a, v, -, hm⟩ := (hgiven q).1 hq
      exact h.allocated hm
    · exact h.heldAllocated hq
  nodup := List.nodup_append.2 ⟨hnd, h.nodup, fun q hq q' hq' hqq => by
    obtain ⟨a, v, -, hm⟩ := (hgiven q).1 hq
    exact h.apart hm (hqq ▸ hq')⟩
  covered {q} ha := by
    rcases h.covered (hpool ▸ ha) with ⟨a, v, hm⟩ | hq
    · by_cases hg : gone a v
      · exact .inr (List.mem_append_left _ ((hgiven q).2 ⟨a, v, hg, hm⟩))
      · exact .inl ⟨a, v, (hmaps ..).2 ⟨hm, hg⟩⟩
    · exact .inr (List.mem_append_right _ hq)

end Accounted

end QuantumNode.Node
