import Mathlib.Data.List.Nodup
import QuantumNode.Proofs.Network.Rehearsal
import QuantumNode.Proofs.Ownership.Network

/-! A node that has neither a pair nor a measurement under way has as many slots allocated as its applications map. -/
namespace QuantumNode

variable {n m : Nat}

namespace Node

variable {node : Node n m} {held : List Nat}

/-- The slots that the applications of a node map. -/
def mappedSlots (node : Node n m) : List Nat := node.apps.values.flatMap AppMemory.mapped

theorem Accounted.mem_mappedSlots (h : node.Accounted held) {p : Nat} :
    p ∈ node.mappedSlots ↔ ∃ app virt, node.Maps app virt p := by
  unfold mappedSlots SortedMap.values
  rw [List.mem_flatMap]
  constructor
  · rintro ⟨mem, hmem, hp⟩
    obtain ⟨⟨app, mem⟩, he, rfl⟩ := List.mem_map.1 hmem
    exact ⟨app, (mem_mapped_iff (h.ascending.get?_of_mem he)).1 hp⟩
  · rintro ⟨app, virt, mem, hmem, hphys⟩
    exact ⟨mem, List.mem_map.2 ⟨_, SortedMap.mem_entries_of_get? hmem, rfl⟩, (mem_mapped_iff hmem).2 ⟨virt, mem, hmem, hphys⟩⟩

theorem Accounted.nodup_mappedSlots (h : node.Accounted held) : node.mappedSlots.Nodup := by
  have hmaps : ∀ {e : Int × AppMemory}, e ∈ node.apps.entries → ∀ {v p : Nat}, e.2.phys? v = some p →
      node.Maps e.1 v p :=
    fun {e} he v p hv => maps_iff.2 ⟨e.2, h.ascending.get?_of_mem he, v, rfl, hv⟩
  unfold mappedSlots SortedMap.values
  rw [List.flatMap_map]
  refine List.nodup_flatMap.2 ⟨fun e he => ?_, ?_⟩
  · refine AppMemory.nodup_mapped fun u v p hu hv => ?_
    have := (h.injective (hmaps he hu) (hmaps he hv)).2
    omega
  · have hkeys := List.pairwise_map.1 h.ascending.nodup_keys
    refine hkeys.imp_of_mem fun {a b} ha hb hne => ?_
    intro p hpa hpb
    obtain ⟨u, hu⟩ := AppMemory.mem_mapped.1 hpa
    obtain ⟨v, hv⟩ := AppMemory.mem_mapped.1 hpb
    exact hne (h.injective (hmaps ha hu) (hmaps hb hv)).1

theorem length_mappedSlots (node : Node n m) :
    node.mappedSlots.length = (node.apps.values.map fun mem => mem.mapped.length).sum :=
  List.length_flatMap ..

theorem Accounted.balance (h : node.Accounted []) :
    node.pool.allocatedCount = (node.apps.values.map fun mem => mem.mapped.length).sum := by
  rw [← QubitPool.length_allocatedSlots, ← length_mappedSlots]
  refine List.Perm.length_eq ((List.perm_ext_iff_of_nodup node.pool.nodup_allocatedSlots h.nodup_mappedSlots).2 ?_)
  intro p
  rw [QubitPool.mem_allocatedSlots, h.mem_mappedSlots]
  constructor
  · intro ha
    exact (h.covered ha).resolve_right List.not_mem_nil
  · rintro ⟨app, virt, hm⟩
    exact h.allocated hm

end Node

namespace Network

/-- In every state that a run can reach, and at every node: no slot is mapped twice; a slot that is mapped lies in the
pool and is allocated; a slot that an activity holds is allocated; a slot that is allocated is either mapped, or held
once by the pair or the measurement under way, and never both. Without such an activity there are as many allocated
slots as mapped virtual ids. -/
theorem slots_accounted_for {c : NetworkConfig} {s : Network c.nodes.length c.links.length}
    (h : Reachable c ClientAct.Orderly s) (i : Fin c.nodes.length) :
    (∀ app virt app' virt' p, (s.node i).Maps app virt p → (s.node i).Maps app' virt' p → app = app' ∧ virt = virt') ∧
      (∀ app virt p, (s.node i).Maps app virt p →
        p < (s.node i).pool.size ∧ (s.node i).pool.isAllocated p = true) ∧
      (∀ p ∈ s.held i, (s.node i).pool.isAllocated p = true) ∧
      (∀ p, (s.node i).pool.isAllocated p = true →
        ((∃ app virt, (s.node i).Maps app virt p) ∧ (s.held i).count p = 0) ∨
          ((¬ ∃ app virt, (s.node i).Maps app virt p) ∧ (s.held i).count p = 1)) ∧
      ((s.pairStage i).held = [] → (s.dispatchStage i).held = [] →
        (s.node i).pool.allocatedCount = ((s.node i).apps.values.map fun mem => mem.mapped.length).sum) := by
  obtain ⟨past, ht⟩ := h
  have hacc := (ht.owned i).accounted
  refine ⟨?_, ?_, ?_, ?_, ?_⟩
  · intro app virt app' virt' p hm hm'
    exact hacc.injective hm hm'
  · intro app virt p hm
    have ha := hacc.allocated hm
    exact ⟨QubitPool.lt_size_of_isAllocated ha, ha⟩
  · intro p hp
    exact hacc.heldAllocated hp
  · intro p ha
    by_cases hmap : ∃ app virt, (s.node i).Maps app virt p
    · obtain ⟨app, virt, hm⟩ := hmap
      exact .inl ⟨⟨app, virt, hm⟩, List.count_eq_zero.2 (hacc.apart hm)⟩
    · exact .inr ⟨hmap, List.count_eq_one_of_mem hacc.nodup ((hacc.covered ha).resolve_left hmap)⟩
  · intro hps hds
    rw [held, hps, hds] at hacc
    exact hacc.balance

/-- An NV device with two carbons. -/
def carbonConfig : NetworkConfig :=
  { NetworkConfig.standard with
    nodes := [⟨"a", .nv { NVDevice.standard with numQubits := 3 }⟩] }

instance : NeZero carbonConfig.nodes.length := ⟨by decide⟩

/-- A carbon is measured while the electron is in use: the electron's qubit moves to the other carbon first. -/
def carbonScript : List (Direction carbonConfig.nodes.length) :=
  [.start, .run 0 100, .act (.post 0 "INIT_NEW_APP 2\n"),
    .act (.post 0 ("SUBROUTINE\n# NETQASM 1.0\n# APPID 0\nset Q0 0\nqalloc Q0\ninit Q0\nset Q1 1\nqalloc Q1\n" ++
      "init Q1\nmeas Q1 M0\n")),
    .run 1700000 100]

theorem slots_accounted_for_moving_electron :
    ∃ s : Network carbonConfig.nodes.length carbonConfig.links.length, Reachable carbonConfig ClientAct.Orderly s ∧
      s.held 0 = [1] ∧ (s.node 0).pool.allocatedSlots = [0, 1, 2] ∧
        (∀ p, (s.node 0).pool.isAllocated p = true → p ≠ 1 → ∃ app virt, (s.node 0).Maps app virt p) ∧
        ¬ ∃ app virt, (s.node 0).Maps app virt 1 := by
  obtain ⟨past, s, ht, hs⟩ := Trace.exists_of_rehearse carbonConfig ClientAct.Orderly carbonScript
    (fun r => r.2.held 0 = [1] ∧ (r.2.node 0).pool.allocatedSlots = [0, 1, 2]) (by decide +kernel) (by decide)
  obtain ⟨hheld, halloc⟩ := of_decide_eq_true hs
  have hmapped := (slots_accounted_for ⟨past, ht⟩ 0).2.2.2.1
  rw [hheld] at hmapped
  refine ⟨s, ⟨past, ht⟩, hheld, halloc, fun p hp hne => ?_, ?_⟩
  · rcases hmapped p hp with ⟨hm, -⟩ | ⟨-, hc⟩
    · exact hm
    · exact absurd hc (by simp [Ne.symm hne])
  · have h1 : (s.node 0).pool.isAllocated 1 = true :=
      QubitPool.mem_allocatedSlots.1 (by rw [halloc]; decide)
    rcases hmapped 1 h1 with ⟨-, hc⟩ | ⟨hm, -⟩
    · exact absurd hc (by decide)
    · exact hm

end Network

end QuantumNode
