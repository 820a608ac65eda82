import Mathlib.Data.List.Nodup
import QuantumNode.Memory.Pool
import QuantumNode.Proofs.Data.Except

/-! What taking and returning a slot changes about a pool, and what a pool hands out under calls in any order. -/
namespace QuantumNode.QubitPool

variable {p q : QubitPool} {id i : Nat}

theorem isAllocated_setAllocated (b : Bool) :
    (p.setAllocated id b).isAllocated i = if i = id ∧ id < p.size then b else p.isAllocated i := by
  unfold isAllocated setAllocated size
  rw [Array.getElem?_modify]
  rcases h : p.slots[i]? with _ | s
  · have := Array.getElem?_eq_none_iff.1 h
    by_cases hi : i = id
    · subst hi
      simp [Nat.not_lt.2 this]
    · simp [hi]
  · obtain ⟨hlt, -⟩ := Array.getElem?_eq_some_iff.1 h
    by_cases hi : i = id
    · subst hi
      simp [hlt]
    · simp [hi, Ne.symm hi]

theorem isCommunication_setAllocated (b : Bool) : (p.setAllocated id b).isCommunication i = p.isCommunication i := by
  unfold isCommunication setAllocated
  rw [Array.getElem?_modify]
  by_cases hi : id = i
  · rcases p.slots[i]? with _ | s
    · simp [hi]
    · simp [hi]
  · simp [hi]

theorem size_setAllocated (b : Bool) : (p.setAllocated id b).size = p.size := by
  simp [size, setAllocated]

theorem lt_size_of_isAllocated (h : p.isAllocated i = true) : i < p.size := by
  unfold isAllocated at h
  split at h
  · rename_i hs
    exact (Array.getElem?_eq_some_iff.1 hs).1
  · exact nomatch h

/-- A slot that is taken was free, and is the only one to change. -/
structure Takes (p q : QubitPool) (id : Nat) : Prop where
  free : p.isAllocated id = false
  allocated : ∀ i, q.isAllocated i = if i = id then true else p.isAllocated i
  communication : ∀ i, q.isCommunication i = p.isCommunication i
  size : q.size = p.size

theorem Takes.inside (h : Takes p q id) : id < p.size := by
  rw [← h.size]
  exact lt_size_of_isAllocated (by rw [h.allocated, if_pos rfl])

private theorem takes_setAllocated {f : QubitSlot → Bool} (hf : ∀ s, f s = true → s.allocated = false)
    (h : p.slots.findIdx? f = some id) : Takes p (p.setAllocated id true) id := by
  obtain ⟨hlt, hs, -⟩ := Array.findIdx?_eq_some_iff_getElem.1 h
  refine ⟨?_, fun i => ?_, fun i => isCommunication_setAllocated _, size_setAllocated _⟩
  · unfold isAllocated
    rw [Array.getElem?_eq_getElem hlt]
    exact hf _ hs
  · rw [isAllocated_setAllocated]
    have : id < p.size := hlt
    simp [this]

theorem takes_of_allocate (h : p.allocate = .ok (id, q)) : Takes p q id := by
  unfold allocate at h
  split at h
  · rename_i hs
    cases h
    exact takes_setAllocated (by simp) hs
  · exact nomatch h

theorem takes_of_allocateCommunication (h : p.allocateCommunication = .ok (id, q)) :
    Takes p q id ∧ p.isCommunication id = true := by
  unfold allocateCommunication at h
  split at h
  · rename_i hs
    cases h
    obtain ⟨hlt, hc, -⟩ := Array.findIdx?_eq_some_iff_getElem.1 hs
    refine ⟨takes_setAllocated (by simp_all) hs, ?_⟩
    unfold isCommunication
    rw [Array.getElem?_eq_getElem hlt]
    simp_all
  · exact nomatch h

/-- A slot that is returned was taken, and is the only one to change. -/
structure Returns (p q : QubitPool) (id : Nat) : Prop where
  taken : p.isAllocated id = true
  allocated : ∀ i, q.isAllocated i = if i = id then false else p.isAllocated i
  communication : ∀ i, q.isCommunication i = p.isCommunication i
  size : q.size = p.size

theorem returns_of_free (h : p.free id = .ok q) : Returns p q id := by
  unfold free at h
  split at h
  · rename_i ha
    cases h
    refine ⟨ha, fun i => ?_, fun i => isCommunication_setAllocated _, size_setAllocated _⟩
    rw [isAllocated_setAllocated]
    simp [lt_size_of_isAllocated ha]
  · exact nomatch h

theorem size_build (count : Nat) (communication : Nat → Bool) : (build count communication).size = count := by
  simp [size, build]

theorem build_isAllocated (count : Nat) (communication : Nat → Bool) : (build count communication).isAllocated i = false := by
  unfold isAllocated build
  rw [Array.getElem?_map]
  rcases (Array.range count)[i]? with _ | j
  · rfl
  · rfl

theorem build_isCommunication {count : Nat} {communication : Nat → Bool}
    (h : (build count communication).isCommunication i = true) : communication i = true := by
  unfold isCommunication build at h
  rw [Array.getElem?_map] at h
  rcases hj : (Array.range count)[i]? with _ | j
  · rw [hj] at h
    exact nomatch h
  · rw [hj] at h
    obtain ⟨hlt, hij⟩ := Array.getElem?_eq_some_iff.1 hj
    rw [Array.getElem_range] at hij
    subst hij
    exact h

/-- The slots that are allocated, lowest first. -/
def allocatedSlots (p : QubitPool) : List Nat := (List.range p.size).filter p.isAllocated

theorem mem_allocatedSlots {p : QubitPool} {i : Nat} : i ∈ p.allocatedSlots ↔ p.isAllocated i = true := by
  rw [allocatedSlots, List.mem_filter, List.mem_range]
  exact ⟨fun h => h.2, fun h => ⟨lt_size_of_isAllocated h, h⟩⟩

theorem nodup_allocatedSlots (p : QubitPool) : p.allocatedSlots.Nodup := List.Nodup.filter _ List.nodup_range

private theorem countP_getElem? {α : Type} (f : α → Bool) (l : List α) :
    ((List.range l.length).filter fun i => (l[i]?).any f).length = l.countP f := by
  induction l with
  | nil => rfl
  | cons a l ih =>
    rw [List.length_cons, List.range_succ_eq_map, List.filter_cons, List.countP_cons]
    have hmap : ((List.map Nat.succ (List.range l.length)).filter fun i => ((a :: l)[i]?).any f).length =
        l.countP f := by
      rw [List.filter_map, List.length_map, ← ih]
      rfl
    rw [List.getElem?_cons_zero, Option.any_some]
    cases f a with
    | true =>
      rw [if_pos rfl, if_pos rfl, List.length_cons, hmap]
    | false =>
      rw [if_neg Bool.false_ne_true, if_neg Bool.false_ne_true, hmap, Nat.add_zero]

theorem length_allocatedSlots (p : QubitPool) : p.allocatedSlots.length = p.allocatedCount := by
  have hany : p.isAllocated = fun i => (p.slots.toList[i]?).any (·.allocated) := by
    funext i
    rw [isAllocated, Array.getElem?_toList]
    cases p.slots[i]? with
    | none => rfl
    | some s => rfl
  rw [allocatedCount, ← Array.countP_toList, ← countP_getElem?, allocatedSlots, hany]
  rfl

theorem Takes.allocatedCount (h : Takes p q id) : q.allocatedCount = p.allocatedCount + 1 := by
  have hnew : id ∉ p.allocatedSlots := fun hid => by
    rw [mem_allocatedSlots, h.free] at hid
    exact nomatch hid
  have hperm : q.allocatedSlots.Perm (id :: p.allocatedSlots) := by
    refine (List.perm_ext_iff_of_nodup q.nodup_allocatedSlots (List.nodup_cons.2 ⟨hnew, p.nodup_allocatedSlots⟩)).2 fun i => ?_
    rw [mem_allocatedSlots, h.allocated, List.mem_cons, mem_allocatedSlots]
    by_cases hi : i = id
    · simp [hi]
    · simp [hi]
  rw [← length_allocatedSlots, hperm.length_eq, List.length_cons, length_allocatedSlots]

theorem Returns.takes (h : Returns p q id) : Takes q p id where
  free := by rw [h.allocated, if_pos rfl]
  allocated i := by
    rw [h.allocated]
    by_cases hi : i = id
    · rw [if_pos hi, hi, h.taken]
    · rw [if_neg hi, if_neg hi]
  communication i := (h.communication i).symm
  size := h.size.symm

/-- A slot that is returned right after it has been taken leaves the pool as it was. -/
theorem free_of_taken (h : p.isAllocated id = false) (hid : id < p.size) : (p.setAllocated id true).free id = .ok p := by
  have hset : (p.setAllocated id true).setAllocated id false = p := by
    obtain ⟨slots⟩ := p
    have hs : slots[id] = { slots[id] with allocated := false } := by
      have := h
      unfold isAllocated at this
      rw [Array.getElem?_eq_getElem hid] at this
      dsimp only at this
      rw [← this]
    refine congrArg QubitPool.mk (Array.ext_getElem? fun i => ?_)
    simp only [setAllocated, Array.getElem?_modify]
    by_cases hi : id = i
    · subst hi
      rw [if_pos rfl, if_pos rfl, Array.getElem?_eq_getElem hid]
      exact congrArg some hs.symm
    · rw [if_neg hi, if_neg hi]
  have htaken : (p.setAllocated id true).isAllocated id = true := by
    rw [isAllocated_setAllocated, if_pos ⟨rfl, hid⟩]
  rw [free, if_pos htaken, hset]

theorem free_of_allocate (h : p.allocate = .ok (id, q)) : q.free id = .ok p := by
  have ht := takes_of_allocate h
  unfold allocate at h
  split at h
  · cases h
    exact free_of_taken ht.free ht.inside
  · exact nomatch h

end QuantumNode.QubitPool

/-! Calls in any order. A slot that is given away is the lowest free one of its kind, a call is refused just if there is
none, and the slots that are taken are those that were given away and have not come back. -/
namespace QuantumNode

/-- What can be asked of a pool. -/
inductive PoolCall where
  | allocate
  | allocateCommunication
  | free (id : Nat)
  | clear

/-- A pool, and how many slots it has given away and taken back since it was cleared last. -/
structure PoolUse where
  pool : QubitPool
  granted : Nat
  returned : Nat

namespace PoolUse

def start (p : QubitPool) : PoolUse := ⟨p, 0, 0⟩

def call (u : PoolUse) : PoolCall → Except Fault PoolUse
  | .allocate => do
    let (_, p) ← u.pool.allocate
    return ⟨p, u.granted + 1, u.returned⟩
  | .allocateCommunication => do
    let (_, p) ← u.pool.allocateCommunication
    return ⟨p, u.granted + 1, u.returned⟩
  | .free id => do
    let p ← u.pool.free id
    return ⟨p, u.granted, u.returned + 1⟩
  | .clear => return start u.pool.clear

/-- A call that is refused leaves no trace. -/
def attempt (u : PoolUse) (c : PoolCall) : PoolUse :=
  match u.call c with
  | .ok u' => u'
  | .error _ => u

def run (u : PoolUse) (calls : List PoolCall) : PoolUse := calls.foldl attempt u

end PoolUse

namespace QubitPool

variable {p q : QubitPool} {id i : Nat} {fault : Fault}

/-- The lowest free slot of some kind. -/
structure Lowest (p : QubitPool) (kind : Nat → Bool) (id : Nat) : Prop where
  inside : id < p.size
  fits : kind id = true
  free : p.isAllocated id = false
  least : ∀ i < id, kind i = true → p.isAllocated i = true

private theorem lowest_of_findIdx? {f : QubitSlot → Bool} {kind : Nat → Bool}
    (hf : ∀ i (h : i < p.slots.size), f p.slots[i] = (!p.isAllocated i && kind i)) (h : p.slots.findIdx? f = some id) :
    p.Lowest kind id := by
  obtain ⟨hid, hfit, hleast⟩ := Array.findIdx?_eq_some_iff_getElem.1 h
  rw [hf id hid, Bool.and_eq_true, Bool.not_eq_true'] at hfit
  refine ⟨hid, hfit.2, hfit.1, ?_⟩
  intro i hi hkind
  have hnot := hleast i hi
  rw [hf i (Nat.lt_trans hi hid), hkind, Bool.and_true, Bool.not_eq_true, Bool.not_eq_false'] at hnot
  exact hnot

private theorem allocated_of_findIdx? {f : QubitSlot → Bool} {kind : Nat → Bool}
    (hf : ∀ i (h : i < p.slots.size), f p.slots[i] = (!p.isAllocated i && kind i)) (h : p.slots.findIdx? f = none) :
    ∀ i < p.size, kind i = true → p.isAllocated i = true := by
  intro i hi hkind
  have hnot := Array.findIdx?_eq_none_iff.1 h p.slots[i] (Array.getElem_mem hi)
  rw [hf i hi, hkind, Bool.and_true, Bool.not_eq_false'] at hnot
  exact hnot

private theorem free_getElem (i : Nat) (h : i < p.slots.size) :
    (!p.slots[i].allocated) = (!p.isAllocated i && true) := by
  rw [isAllocated, Array.getElem?_eq_getElem h, Bool.and_true]

private theorem free_communication_getElem (i : Nat) (h : i < p.slots.size) :
    (!p.slots[i].allocated && p.slots[i].communication) = (!p.isAllocated i && p.isCommunication i) := by
  rw [isAllocated, isCommunication, Array.getElem?_eq_getElem h]

theorem lt_size_of_isCommunication (h : p.isCommunication i = true) : i < p.size := by
  unfold isCommunication at h
  split at h
  · next hs => exact (Array.getElem?_eq_some_iff.1 hs).1
  · exact nomatch h

theorem lowest_of_allocate (h : p.allocate = .ok (id, q)) : p.Lowest (fun _ => true) id := by
  unfold allocate at h
  split at h
  · next hid =>
    cases h
    exact lowest_of_findIdx? free_getElem hid
  · exact nomatch h

theorem lowest_of_allocateCommunication (h : p.allocateCommunication = .ok (id, q)) :
    p.Lowest p.isCommunication id := by
  unfold allocateCommunication at h
  split at h
  · next hid =>
    cases h
    exact lowest_of_findIdx? free_communication_getElem hid
  · exact nomatch h

/-- A slot is refused just if none is left. -/
theorem allocate_eq_error_iff :
    p.allocate = .error fault ↔ fault = .poolExhausted ∧ ∀ i < p.size, p.isAllocated i = true := by
  unfold allocate
  split
  · next id hid =>
    have hlow := lowest_of_findIdx? free_getElem hid
    constructor
    · exact fun h => nomatch h
    · exact fun h => nomatch hlow.free.symm.trans (h.2 id hlow.inside)
  · next hnone =>
    have hall := allocated_of_findIdx? free_getElem hnone
    constructor
    · intro h
      cases h
      exact ⟨rfl, fun i hi => hall i hi rfl⟩
    · rintro ⟨rfl, -⟩
      rfl

/-- A pool has nothing to give away when all of its slots are taken. -/
theorem allocated_of_error (h : p.allocate = .error fault) :
    fault = .poolExhausted ∧ ∀ i < p.size, p.isAllocated i = true :=
  allocate_eq_error_iff.1 h

/-- A pool that has a free slot gives one away. -/
theorem exists_allocate (hi : i < p.size) (h : p.isAllocated i = false) : ∃ a, p.allocate = .ok a := by
  cases ha : p.allocate with
  | ok a => exact ⟨a, rfl⟩
  | error fault => exact nomatch h.symm.trans ((allocated_of_error ha).2 i hi)

/-- A slot that communicates is refused just if none of them is left, however many others are. -/
theorem allocateCommunication_eq_error_iff : p.allocateCommunication = .error fault ↔
    fault = .communicationExhausted ∧ ∀ i, p.isCommunication i = true → p.isAllocated i = true := by
  unfold allocateCommunication
  split
  · next id hid =>
    have hlow := lowest_of_findIdx? free_communication_getElem hid
    constructor
    · exact fun h => nomatch h
    · exact fun h => nomatch hlow.free.symm.trans (h.2 id hlow.fits)
  · next hnone =>
    have hall := allocated_of_findIdx? free_communication_getElem hnone
    constructor
    · intro h
      cases h
      exact ⟨rfl, fun i hi => hall i (lt_size_of_isCommunication hi) hi⟩
    · rintro ⟨rfl, -⟩
      rfl

theorem free_eq_error_iff :
    p.free id = .error fault ↔ fault = .freedUnallocated id ∧ (p.size ≤ id ∨ p.isAllocated id = false) := by
  unfold free
  split
  · next htaken =>
    have hid := lt_size_of_isAllocated htaken
    constructor
    · exact fun h => nomatch h
    · rintro ⟨-, hout | hfree⟩
      · exact absurd hid (Nat.not_lt.2 hout)
      · exact nomatch hfree.symm.trans htaken
  · next hfree =>
    constructor
    · intro h
      cases h
      exact ⟨rfl, .inr (Bool.not_eq_true _ ▸ hfree)⟩
    · rintro ⟨rfl, -⟩
      rfl

/-! ### Clearing, and what a pool is made of -/

@[simp] theorem isAllocated_clear (i : Nat) : p.clear.isAllocated i = false := by
  unfold isAllocated clear
  rw [Array.getElem?_map]
  cases p.slots[i]? with
  | none => rfl
  | some s => rfl

@[simp] theorem isCommunication_clear (i : Nat) : p.clear.isCommunication i = p.isCommunication i := by
  unfold isCommunication clear
  rw [Array.getElem?_map]
  cases p.slots[i]? with
  | none => rfl
  | some s => rfl

@[simp] theorem size_clear : p.clear.size = p.size := Array.size_map

theorem allocatedCount_of_free (h : ∀ i, p.isAllocated i = false) : p.allocatedCount = 0 := by
  rw [← length_allocatedSlots, List.length_eq_zero_iff, List.eq_nil_iff_forall_not_mem]
  intro i hi
  exact nomatch (h i).symm.trans (mem_allocatedSlots.1 hi)

theorem allocatedCount_le_size (p : QubitPool) : p.allocatedCount ≤ p.size := Array.countP_le_size

/-- The listed slots communicate, and all of them are inside the pool. -/
theorem custom_eq_ok_iff {count : Nat} {ids : List Nat} :
    custom count ids = .ok p ↔ (∀ id ∈ ids, id < count) ∧ p = build count (ids.contains ·) := by
  unfold custom
  split
  · next id hid =>
    constructor
    · exact fun h => nomatch h
    · rintro ⟨hids, -⟩
      have hout := List.find?_some hid
      have hin := hids id (List.mem_of_find?_eq_some hid)
      simp only [decide_eq_true_eq] at hout
      omega
  · next hnone =>
    have hids : ∀ id ∈ ids, id < count := fun id hid => by simpa using List.find?_eq_none.1 hnone id hid
    constructor
    · intro h
      cases h
      exact ⟨hids, rfl⟩
    · rintro ⟨-, rfl⟩
      rfl

/-- The first slots of a pool can be listed, so every pool is one with listed slots. -/
theorem exists_custom_eq_generic (count communication : Nat) :
    ∃ ids, custom count ids = .ok (generic count communication) := by
  refine ⟨(List.range count).filter fun i => communication = 0 || count < communication || i < communication,
    custom_eq_ok_iff.2 ⟨?_, ?_⟩⟩
  · intro id hid
    exact List.mem_range.1 (List.mem_filter.1 hid).1
  · refine congrArg mk (Array.map_congr_left fun i hi => ?_)
    have hlt : i < count := by simpa using hi
    simp [Bool.decide_or, hlt]

theorem isCommunication_build (count : Nat) (communication : Nat → Bool) (i : Nat) :
    (build count communication).isCommunication i = (decide (i < count) && communication i) := by
  by_cases hi : i < count
  · simp [isCommunication, build, hi]
  · simp [isCommunication, build, hi]

end QubitPool

namespace PoolUse

variable {u : PoolUse} {communication : Nat → Bool} {count : Nat}

/-- A pool of some size and with some communication slots, in which as many slots are taken as were given away and have
not come back. -/
structure Balanced (count : Nat) (communication : Nat → Bool) (u : PoolUse) : Prop where
  size : u.pool.size = count
  communication : ∀ i, u.pool.isCommunication i = communication i
  balance : u.pool.allocatedCount + u.returned = u.granted

theorem Balanced.start {p : QubitPool} (hfree : ∀ i, p.isAllocated i = false) (hsize : p.size = count)
    (hcomm : ∀ i, p.isCommunication i = communication i) : (start p).Balanced count communication where
  size := hsize
  communication := hcomm
  balance := QubitPool.allocatedCount_of_free hfree

theorem Balanced.granted {id : Nat} {q : QubitPool} (hu : u.Balanced count communication) (h : u.pool.Takes q id) :
    Balanced count communication ⟨q, u.granted + 1, u.returned⟩ where
  size := h.size.trans hu.size
  communication i := (h.communication i).trans (hu.communication i)
  balance := by
    have hbalance := hu.balance
    have hcount := h.allocatedCount
    dsimp only
    omega

theorem Balanced.returned {id : Nat} {q : QubitPool} (hu : u.Balanced count communication) (h : u.pool.Returns q id) :
    Balanced count communication ⟨q, u.granted, u.returned + 1⟩ where
  size := h.size.trans hu.size
  communication i := (h.communication i).trans (hu.communication i)
  balance := by
    have hbalance := hu.balance
    have hcount := h.takes.allocatedCount
    dsimp only
    omega

/-- What one call keeps. -/
theorem Balanced.call {u' : PoolUse} {c : PoolCall} (hu : u.Balanced count communication) (h : u.call c = .ok u') :
    u'.Balanced count communication := by
  cases c with
  | allocate =>
    obtain ⟨⟨id, q⟩, hq, h⟩ := bind_ok h
    cases h
    exact hu.granted (QubitPool.takes_of_allocate hq)
  | allocateCommunication =>
    obtain ⟨⟨id, q⟩, hq, h⟩ := bind_ok h
    cases h
    exact hu.granted (QubitPool.takes_of_allocateCommunication hq).1
  | free id =>
    obtain ⟨q, hq, h⟩ := bind_ok h
    cases h
    exact hu.returned (QubitPool.returns_of_free hq)
  | clear =>
    cases h
    exact .start QubitPool.isAllocated_clear (QubitPool.size_clear.trans hu.size)
      fun i => (QubitPool.isCommunication_clear i).trans (hu.communication i)

theorem Balanced.attempt (hu : u.Balanced count communication) (c : PoolCall) :
    (u.attempt c).Balanced count communication := by
  unfold PoolUse.attempt
  split
  · next h => exact hu.call h
  · exact hu

theorem attempt_of_error {c : PoolCall} {fault : Fault} (h : u.call c = .error fault) : u.attempt c = u := by
  unfold attempt
  rw [h]

/-- What calls in any order keep, by induction on the calls. -/
theorem Balanced.run (hu : u.Balanced count communication) (calls : List PoolCall) :
    (u.run calls).Balanced count communication := by
  induction calls generalizing u with
  | nil => exact hu
  | cons c calls ih => exact ih (hu.attempt c)

end PoolUse

namespace QubitPool

variable {p : QubitPool} {count : Nat} {ids : List Nat}

theorem balanced_of_custom (h : custom count ids = .ok p) (calls : List PoolCall) :
    ((PoolUse.start p).run calls).Balanced count (ids.contains ·) := by
  obtain ⟨hids, rfl⟩ := custom_eq_ok_iff.1 h
  apply PoolUse.Balanced.run
  refine .start (fun i => build_isAllocated ..) (size_build ..) ?_
  intro i
  rw [isCommunication_build, Bool.and_eq_right_iff_imp, List.contains_iff_mem, decide_eq_true_iff]
  exact hids i

/-- A pool keeps its discipline, whatever is asked of it and in whatever order, calls that are refused included. A slot
that it gives away was free and is the lowest of those that were, or of those of them that communicate; a call is refused
just if there is no such slot, and a return just if the slot is outside the pool or is not taken. A refused call changes
nothing, which slots communicate never changes, and as many slots are taken as were given away and not taken back since
the pool was cleared last. -/
theorem pools_hand_out_the_lowest_slot (h : custom count ids = .ok p) (calls : List PoolCall) :
    let u := (PoolUse.start p).run calls
    let q := u.pool
    (∀ id q', q.allocate = .ok (id, q') → q.Lowest (fun _ => true) id ∧ Takes q q' id) ∧
    (∀ id q', q.allocateCommunication = .ok (id, q') → q.Lowest (ids.contains ·) id ∧ Takes q q' id) ∧
    (∀ id q', q.free id = .ok q' → Returns q q' id) ∧
    (∀ fault, q.allocate = .error fault ↔ fault = .poolExhausted ∧ ∀ i < count, q.isAllocated i = true) ∧
    (∀ fault, q.allocateCommunication = .error fault ↔
      fault = .communicationExhausted ∧ ∀ i ∈ ids, q.isAllocated i = true) ∧
    (∀ id fault, q.free id = .error fault ↔
      fault = .freedUnallocated id ∧ (count ≤ id ∨ q.isAllocated id = false)) ∧
    (∀ c fault, u.call c = .error fault → u.attempt c = u) ∧
    q.size = count ∧ (∀ i, q.isCommunication i = ids.contains i) ∧
    q.allocatedCount + u.returned = u.granted ∧ q.allocatedCount ≤ count := by
  intro u q
  have hu : u.Balanced count (ids.contains ·) := balanced_of_custom h calls
  have hcomm : q.isCommunication = (ids.contains ·) := funext hu.communication
  refine ⟨?_, ?_, fun _ _ => returns_of_free, ?_, ?_, ?_, fun _ _ => PoolUse.attempt_of_error, hu.size,
    hu.communication, hu.balance, ?_⟩
  · intro id q' hq
    exact ⟨lowest_of_allocate hq, takes_of_allocate hq⟩
  · intro id q' hq
    exact ⟨hcomm ▸ lowest_of_allocateCommunication hq, (takes_of_allocateCommunication hq).1⟩
  · intro fault
    rw [allocate_eq_error_iff, hu.size]
  · intro fault
    rw [allocateCommunication_eq_error_iff, hcomm]
    simp only [List.contains_iff_mem]
  · intro id fault
    rw [free_eq_error_iff, hu.size]
  · exact hu.size ▸ q.allocatedCount_le_size

/-- Slots 0 and 2 of four communicate. Both are taken, as is slot 1, which has been returned once in between; two returns
and a call for a third slot that communicates have been refused, and the next such call is refused as well. -/
theorem pools_hand_out_the_lowest_slot_after_refusals :
    let p := build 4 ([2, 0].contains ·)
    let u := (PoolUse.start p).run [.clear, .allocateCommunication, .allocate, .free 1, .free 1, .free 9, .allocate,
      .allocateCommunication, .allocateCommunication]
    custom 4 [2, 0] = .ok p ∧ u.granted = 4 ∧ u.returned = 1 ∧ u.pool.allocatedCount + 1 = 4 ∧
      u.pool.isAllocated 3 = false ∧ u.pool.allocateCommunication = .error .communicationExhausted := by
  intro p u
  have hp : custom 4 [2, 0] = .ok p := rfl
  have hgranted : u.granted = 4 := by decide +kernel
  have hreturned : u.returned = 1 := by decide +kernel
  have htaken : ∀ i ∈ [2, 0], u.pool.isAllocated i = true := by decide +kernel
  obtain ⟨-, -, -, -, hrefused, -, -, -, -, hbalance, -⟩ := pools_hand_out_the_lowest_slot hp
    [.clear, .allocateCommunication, .allocate, .free 1, .free 1, .free 9, .allocate, .allocateCommunication,
      .allocateCommunication]
  refine ⟨hp, hgranted, hreturned, ?_, by decide +kernel, (hrefused _).2 ⟨rfl, htaken⟩⟩
  rw [← hgranted, ← hreturned]
  exact hbalance

end QubitPool

end QuantumNode
