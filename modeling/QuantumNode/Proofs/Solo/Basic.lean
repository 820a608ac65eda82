import QuantumNode.Proofs.Node.Books
import QuantumNode.Proofs.Ownership.Primitive
import Mathlib.Data.Fintype.EquivFin
import Mathlib.Tactic.ByContra
import Mathlib.Tactic.Choose

/-! An application alone on a node with a generic device: every slot that is allocated is a qubit of its own, so that
there is room for each of its virtual ids. -/
namespace QuantumNode

open Node Work Working

variable {n m : Nat}

/-- Memories, slots and the device are left alone; the rest of a node may change. -/
structure Working.Idle (w w' : Working (Node n m) n m) : Prop where
  apps : w'.part.apps = w.part.apps
  pool : w'.part.pool = w.part.pool
  config : w'.part.device.config = w.part.device.config

namespace Working.Idle

variable {w w' : Working (Node n m) n m}

theorem refl (w : Working (Node n m) n m) : Idle w w := ⟨rfl, rfl, rfl⟩

theorem of_part (h : w'.part = w.part) : Idle w w' := ⟨by rw [h], by rw [h], by rw [h]⟩

theorem of_books (hb : SameBooks w w') (ht : Thrifty w w') : Idle w w' := ⟨hb.apps, ht.pool, ht.config⟩

end Working.Idle

instance : Bland (Idle : Working (Node n m) n m → Working (Node n m) n m → Prop) where
  refl := .refl
  trans _ _ _ h h' := ⟨h'.apps.trans h.apps, h'.pool.trans h.pool, h'.config.trans h.config⟩
  emit _ _ _ := ⟨rfl, rfl, rfl⟩
  part _ _ h := ⟨h.apps, h.pool, h.config⟩
  quantum _ _ := ⟨rfl, rfl, rfl⟩

theorem Node.notifyMemoryFreed_idle : Within Idle (notifyMemoryFreed : NodeWork n m Unit) := fun w =>
  .of_books (notifyMemoryFreed_sameBooks w) (notifyMemoryFreed_still w).toThrifty

namespace Execution

variable {p : ProcessId} {w : Working (Node n m) n m}

theorem startCall_attains {c : DeviceCall} {t : Nat} (h : w.part.device.duration c = .ok t) :
    Attains (startCall p c) w fun _ w' => Idle w w' :=
  .part <| .ofExcept h ⟨_, _, rfl, rfl, rfl, rfl⟩

theorem finishCall_attains (c : DeviceCall) :
    Attains (finishCall c) w fun r w' => Idle w w' ∧ r = (w.part.device.effect c w.quantum).1 :=
  ⟨_, _, rfl, (finishCall_mild c).of_exec rfl, rfl⟩

theorem freeQubit_attains {q : Nat} {pool : QubitPool} (h : w.part.pool.free q = .ok pool) :
    Attains (freeQubit q) w fun _ w' => Idle { w with part := { w.part with pool := pool } } w' := by
  let w₁ : Working (Node n m) n m := { w with part := { w.part with pool := pool } }
  have hx : (releaseSlot q).exec w = (.ok (), w₁) := by simp [releaseSlot, exec_bind, h, setPool, w₁]
  refine .next hx <| .bind <| (log_attains _ _ _).mono fun _ w₂ h₂ => ?_
  have hi : Idle w₁ w₂ := .of_part h₂
  exact (notifyMemoryFreed_attains.within notifyMemoryFreed_idle).mono fun _ _ h₃ => IsTrans.trans _ _ _ hi h₃.1

end Execution

/-- An application is the only one to map qubits, and each of its virtual ids may have a slot. -/
structure Node.Solo (node : Node n m) (app : Int) (mem : AppMemory) : Prop where
  memory : node.apps.get? app = some mem
  generic : node.device.config.isNV = false
  size : node.device.size = node.pool.size
  room : mem.qubits.size = node.pool.size
  accounted : node.Accounted []
  alone : ∀ {other virt : Int} {p : Nat}, node.Maps other virt p → other = app

namespace Node.Solo

variable {node : Node n m} {app : Int} {mem mem' : AppMemory}

theorem idle {w w' : Working (Node n m) n m} (h : w.part.Solo app mem) (hi : Idle w w') : w'.part.Solo app mem where
  memory := hi.apps ▸ h.memory
  generic := hi.config ▸ h.generic
  size := by
    rw [Device.size, hi.config, hi.pool]
    exact h.size
  room := hi.pool ▸ h.room
  accounted := h.accounted.of_same (hi.apps ▸ h.accounted.ascending) (maps_congr hi.apps) hi.pool
  alone hm := h.alone ((maps_congr hi.apps ..).1 hm)

theorem maps (h : node.Solo app mem) {virt : Int} {p : Nat} :
    node.Maps app virt p ↔ ∃ v : Nat, virt = v ∧ mem.phys? v = some p := by
  rw [maps_iff, h.memory]
  simp

theorem lt_size (h : node.Solo app mem) {v p : Nat} (hp : mem.phys? v = some p) : p < node.pool.size :=
  QubitPool.lt_size_of_isAllocated (h.accounted.allocated (h.maps.2 ⟨v, rfl, hp⟩))

theorem injective (h : node.Solo app mem) {u v p : Nat} (hu : mem.phys? u = some p) (hv : mem.phys? v = some p) : u = v := by
  obtain ⟨-, he⟩ := h.accounted.injective (h.maps.2 ⟨u, rfl, hu⟩) (h.maps.2 ⟨v, rfl, hv⟩)
  exact Int.ofNat.inj he

/-- A generic device does whatever has no direction, on positions that it has. -/
theorem exists_duration (h : node.Solo app mem) {c : DeviceCall} (hl : c.positions.length = c.op.arity)
    (hp : ∀ p ∈ c.positions, p < node.pool.size) (hd : Device.samePair c.positions = false)
    (hop : c.op ≠ .directedX ∧ c.op ≠ .directedY) : ∃ t, node.device.duration c = .ok t := by
  have hfind : c.positions.find? (node.device.size ≤ ·) = none := List.find?_eq_none.2 fun p hmem => by
    have := hp p hmem
    rw [h.size]
    simpa using this
  have hg := h.generic
  unfold Device.duration Device.refusal
  cases hc : node.device.config with
  | generic g => exact ⟨Device.genericTime g c.op, by simp [hl, hfind, hd, hop.1, hop.2]⟩
  | nv v => simp [hc, DeviceConfig.isNV] at hg

/-- The memory changes, but for what it maps. -/
theorem replace (h : node.Solo app mem) (hq : mem'.qubits = mem.qubits) :
    ({ node with apps := node.apps.insert app mem' } : Node n m).Solo app mem' := by
  have hmaps : ∀ a v p, ({ node with apps := node.apps.insert app mem' } : Node n m).Maps a v p ↔ node.Maps a v p := by
    intro a v p
    rw [maps_insert]
    by_cases ha : a = app
    · subst ha
      simp only [if_pos, h.maps, AppMemory.phys?_congr hq]
    · rw [if_neg ha]
  exact {
    memory := SortedMap.get?_insert_self ..
    generic := h.generic
    size := h.size
    room := hq ▸ h.room
    accounted := h.accounted.of_same (h.accounted.ascending.insert _ _) hmaps rfl
    alone := fun hm => h.alone ((hmaps ..).1 hm) }

/-- As long as a virtual id is free, so is a slot: otherwise every slot would be mapped, by a virtual id of its own, and
there are no more virtual ids than slots. -/
theorem exists_free (h : node.Solo app mem) {v : Nat} (hv : v < mem.qubits.size) (hn : mem.phys? v = none) :
    ∃ i < node.pool.size, node.pool.isAllocated i = false := by
  by_contra hall
  simp only [not_exists, not_and, Bool.not_eq_false] at hall
  have hmapped : ∀ i : Fin node.pool.size, ∃ u : Fin node.pool.size, mem.phys? u = some i.val := fun i => by
    rcases h.accounted.covered (hall i i.isLt) with ⟨other, virt, hm⟩ | hi
    · obtain rfl := h.alone hm
      obtain ⟨u, -, hu⟩ := h.maps.1 hm
      exact ⟨⟨u, h.room ▸ AppMemory.lt_size_of_phys? hu⟩, hu⟩
    · exact nomatch hi
  choose f hf using hmapped
  have hinj : Function.Injective f := fun i j hij => by
    have he := hf i
    rw [hij, hf j] at he
    exact Fin.ext (Option.some.inj he).symm
  obtain ⟨i, hi⟩ := Finite.injective_iff_surjective.1 hinj ⟨v, h.room ▸ hv⟩
  have he := hf i
  rw [hi, hn] at he
  exact nomatch he

/-- A free virtual id is mapped to a slot that is taken for it. -/
theorem occupy (h : node.Solo app mem) {v : Nat} (hv : v < mem.qubits.size) (hn : mem.phys? v = none) {pool : QubitPool}
    {p : Nat} (ht : node.pool.Takes pool p) :
    ({ node with pool := pool, apps := node.apps.insert app (mem.setQubit ⟨v, hv⟩ (some p)) } : Node n m).Solo app
      (mem.setQubit ⟨v, hv⟩ (some p)) := by
  have hmaps : ∀ a u q, ({ node with pool := pool, apps := node.apps.insert app (mem.setQubit ⟨v, hv⟩ (some p)) } :
      Node n m).Maps a u q ↔ node.Maps a u q ∨ (a = app ∧ u = v ∧ q = p) := by
    intro a u q
    have hinsert := @maps_insert n m { node with pool := pool } app (mem.setQubit ⟨v, hv⟩ (some p)) a u q
    refine hinsert.trans ?_
    by_cases ha : a = app
    · subst ha
      rw [if_pos rfl, h.maps]
      constructor
      · rintro ⟨u, rfl, hu⟩
        rw [AppMemory.phys?_setQubit] at hu
        split at hu
        · cases hu
          simp_all
        · exact .inl ⟨u, rfl, hu⟩
      · rintro (⟨u, rfl, hu⟩ | ⟨-, rfl, rfl⟩)
        · refine ⟨u, rfl, ?_⟩
          rw [AppMemory.phys?_setQubit, if_neg fun he => by simp [he, hn] at hu]
          exact hu
        · exact ⟨v, rfl, by rw [AppMemory.phys?_setQubit, if_pos rfl]⟩
    · rw [if_neg ha]
      simp only [ha, false_and, or_false]
      exact maps_congr rfl a u q
  have hfree : ∀ q, ¬ ({ node with pool := pool } : Node n m).Maps app v q := fun q hm => by
    obtain ⟨u, hu, hq⟩ := h.maps.1 hm
    obtain rfl := Int.ofNat.inj hu
    rw [hn] at hq
    exact nomatch hq
  exact {
    memory := SortedMap.get?_insert_self ..
    generic := h.generic
    size := h.size.trans ht.size.symm
    room := (AppMemory.size_setQubit _ _).trans (h.room.trans ht.size.symm)
    accounted := (h.accounted.take ht).map rfl (h.accounted.ascending.insert _ _) hfree hmaps
    alone := fun hm => by
      rcases (hmaps ..).1 hm with hm | ⟨rfl, -⟩
      · exact h.alone hm
      · rfl }

/-- A virtual id gives up its slot, which is returned. -/
theorem vacate (h : node.Solo app mem) {v : Nat} (hv : v < mem.qubits.size) {p : Nat} (hp : mem.phys? v = some p)
    {pool : QubitPool} (hr : node.pool.Returns pool p) :
    ({ node with pool := pool, apps := node.apps.insert app (mem.setQubit ⟨v, hv⟩ none) } : Node n m).Solo app
      (mem.setQubit ⟨v, hv⟩ none) := by
  let node' : Node n m := { node with apps := node.apps.insert app (mem.setQubit ⟨v, hv⟩ none) }
  have hmaps : ∀ a u q, node'.Maps a u q ↔ node.Maps a u q ∧ ¬ (a = app ∧ u = v) := by
    intro a u q
    rw [maps_insert]
    by_cases ha : a = app
    · subst ha
      rw [if_pos rfl, h.maps]
      constructor
      · rintro ⟨u, rfl, hu⟩
        rw [AppMemory.phys?_setQubit] at hu
        split at hu
        · exact nomatch hu
        · rename_i hne
          exact ⟨⟨u, rfl, hu⟩, fun ⟨_, he⟩ => hne (Int.ofNat.inj he)⟩
      · rintro ⟨⟨u, rfl, hu⟩, hne⟩
        exact ⟨u, rfl, by rwa [AppMemory.phys?_setQubit, if_neg fun he => hne ⟨rfl, congrArg _ he⟩]⟩
    · simp [ha]
  have hm : node.Maps app v p := h.maps.2 ⟨v, rfl, hp⟩
  have hacc : node'.Accounted ([p] ++ []) := by
    refine h.accounted.unmap rfl (h.accounted.ascending.insert _ _) (fun q => ?_)
      (List.nodup_cons.2 ⟨List.not_mem_nil, .nil⟩) hmaps
    rw [List.mem_singleton]
    constructor
    · rintro rfl
      exact ⟨app, v, ⟨rfl, rfl⟩, hm⟩
    · rintro ⟨_, _, ⟨rfl, rfl⟩, hq⟩
      exact hq.unique hm
  exact {
    memory := SortedMap.get?_insert_self ..
    generic := h.generic
    size := h.size.trans hr.size.symm
    room := (AppMemory.size_setQubit _ _).trans (h.room.trans hr.size.symm)
    accounted := hacc.giveBack hr
    alone := fun hm => h.alone ((hmaps ..).1 hm).1 }

end Node.Solo

end QuantumNode
