import QuantumNode.Proofs.Solo.Instruction

/-! Calls on qubits that a program holds, and what their instructions come to: the application maps the virtual ids that
the assembler has in use, and an outcome stands in an array of its own. -/
namespace QuantumNode

/-- What a program does with qubits of its own. -/
inductive QubitCall where
  | alloc
  | free (v : Int)
  | init (v : Int)
  | gate (g : SingleGate) (v : Int)
  | rotate (axis : Axis) (v n d : Int)
  | pairGate (g : PairGate) (control target : Int)
  | measure (v : Int)
  deriving DecidableEq, Repr

namespace QubitCall

open Assembler

def qubits : QubitCall → List Int
  | alloc => []
  | free v | init v | gate _ v | rotate _ v _ _ | measure v => [v]
  | pairGate _ c t => [c, t]

/-- A call is on qubits that are held, and a gate for a pair on two of them. -/
structure Holds (c : QubitCall) (a : Assembler) : Prop where
  nodup : c.qubits.Nodup
  held : ∀ v ∈ c.qubits, v ∈ a.used

instance (c : QubitCall) (a : Assembler) : Decidable (c.Holds a) :=
  decidable_of_iff (c.qubits.Nodup ∧ ∀ v ∈ c.qubits, v ∈ a.used) ⟨fun h => ⟨h.1, h.2⟩, fun h => ⟨h.nodup, h.held⟩⟩

/-- The outcomes that a call promises, and the assembler after it. If no virtual id is left, there is none to allocate. -/
def run : QubitCall → Assembler → List Future × Assembler
  | alloc, a =>
    match a.alloc with
    | .ok (_, a) => ([], a)
    | .error _ => ([], a)
  | free v, a => ([], a.free v)
  | init v, a => ([], a.init v)
  | gate g v, a => ([], a.gate g v)
  | rotate axis v n d, a => ([], a.rotate axis v n d)
  | pairGate g c t, a => ([], a.pairGate g c t)
  | measure v, a => ([(a.measure v).1], (a.measure v).2)

/-- The instructions that a call adds. -/
def code (a : Assembler) : QubitCall → List Instruction
  | alloc =>
    match a.unused 1 with
    | v :: _ => [.set q0 v, .qalloc q0, .init q0]
    | [] => []
  | free v => [.set q0 v, .qfree q0]
  | init v => [.set q0 v, .init q0]
  | gate g v => [.set q0 v, .gate g q0]
  | rotate axis v n d => [.set q0 v, .rotate axis q0 n d]
  | pairGate g c t => [.set q0 c, .set q1 t, .pairGate g q0 q1]
  | measure v =>
    [.array (.literal 1) a.nextArray, .set q0 v, .measure q0 m0, .store m0 ⟨a.nextArray, .literal 0⟩, .set q0 v, .qfree q0]

theorem run_instructions (c : QubitCall) (a : Assembler) :
    (c.run a).2.instructions = a.instructions ++ c.code a := by
  cases c with
  | alloc =>
    rcases h : a.unused 1 with _ | ⟨v, vs⟩
    · simp [run, code, Assembler.alloc, h]
    · simp [run, code, Assembler.alloc, h, emit, addUsed]
  | measure v =>
    have hword : word 1 = 1 := by decide
    simp [run, code, Assembler.measure, newArray, Assembler.free, emit, hword]
  | free v => simp [run, code, Assembler.free, emit]
  | init v => simp [run, code, Assembler.init, emit]
  | gate g v => simp [run, code, Assembler.gate, emit]
  | rotate axis v n d => simp [run, code, Assembler.rotate, emit]
  | pairGate g c t => simp [run, code, Assembler.pairGate, emit]

/-- Whose the assembler is stays, and so does how many qubits it has. -/
theorem run_appId (c : QubitCall) (a : Assembler) : (c.run a).2.appId = a.appId := by
  cases c with
  | alloc => rcases h : a.unused 1 with _ | ⟨v, vs⟩ <;> simp [run, Assembler.alloc, h, emit, addUsed]
  | _ => rfl

/-- A promised outcome has an array of its own. -/
theorem run_nextArray (c : QubitCall) (a : Assembler) : a.nextArray ≤ (c.run a).2.nextArray ∧
    ∀ f ∈ (c.run a).1, f.address < (c.run a).2.nextArray := by
  cases c with
  | alloc => rcases h : a.unused 1 with _ | ⟨v, vs⟩ <;> simp [run, Assembler.alloc, h, emit, addUsed]
  | measure v =>
    simp only [run, Assembler.measure, newArray, Assembler.free, emit, List.mem_singleton, forall_eq]
    omega
  | _ => simp [run, Assembler.free, Assembler.init, Assembler.gate, Assembler.rotate, Assembler.pairGate, emit]

end QubitCall

/-- A virtual id that is not in use, within the number of qubits. -/
theorem Assembler.mem_unused {a : Assembler} {count : Nat} {v : Int} (h : v ∈ a.unused count) :
    v ∉ a.used ∧ ∃ u : Nat, v = u ∧ u < a.maxQubits := by
  have hlimit : a.idLimit ≤ a.maxQubits := by
    unfold idLimit
    have := Nat.mod_le a.maxQubits Word.size64
    dsimp only
    split <;> omega
  have hmem := List.mem_of_mem_take h
  simp only [List.mem_filter, List.mem_map, List.mem_range, decide_eq_true_eq] at hmem
  obtain ⟨⟨u, hu, rfl⟩, hv⟩ := hmem
  exact ⟨hv, u, rfl, by omega⟩

namespace AppMemory

/-- What the host reads for an outcome in a copy of the memory. -/
def reading (mem : AppMemory) (f : Future) : Except Fault (Option Int) := mem.snapshot.arrayValue f.address f.index

theorem reading_congr {mem mem' : AppMemory} {f : Future} (h : mem'.arrays.get? f.address = mem.arrays.get? f.address) :
    mem'.reading f = mem.reading f := by
  simp [reading, MemorySnapshot.arrayValue, snapshot, h]

theorem reading_of_get? {mem : AppMemory} {a : Int} {k : Nat} {vs : ArrayValues} {v : Option Int}
    (h : mem.arrays.get? a = some vs) (hk : vs[k]? = some v) : mem.reading ⟨a, k⟩ = .ok v := by
  simp [reading, MemorySnapshot.arrayValue, snapshot, h, hk]

/-- The memory maps the virtual ids that the assembler has in use. -/
structure Mirrors (mem : AppMemory) (a : Assembler) : Prop where
  room : a.maxQubits ≤ mem.qubits.size
  mapped : ∀ v : Int, v ∈ a.used ↔ ∃ u q : Nat, v = u ∧ mem.phys? u = some q

variable {mem mem' : AppMemory} {a a' : Assembler}

theorem Mirrors.congr (h : mem.Mirrors a) (hq : mem'.qubits = mem.qubits) (hmax : a'.maxQubits = a.maxQubits)
    (hused : a'.used = a.used) : mem'.Mirrors a' where
  room := by
    rw [hmax, hq]
    exact h.room
  mapped v := by
    simp only [hused, phys?_congr hq]
    exact h.mapped v

theorem Mirrors.add (h : mem.Mirrors a) {v : Nat} (hv : v < mem.qubits.size) (q : Nat) :
    (mem.setQubit ⟨v, hv⟩ (some q)).Mirrors (a.addUsed [v]) where
  room := by
    rw [size_setQubit]
    exact h.room
  mapped x := by
    simp only [Assembler.addUsed, List.cons_append, List.nil_append, List.mem_cons, h.mapped, phys?_setQubit]
    constructor
    · rintro (rfl | ⟨u, p, rfl, hu⟩)
      · exact ⟨v, q, rfl, if_pos rfl⟩
      · by_cases huv : u = v
        · exact ⟨u, q, rfl, if_pos huv⟩
        · exact ⟨u, p, rfl, by rw [if_neg huv, hu]⟩
    · rintro ⟨u, p, rfl, hu⟩
      by_cases huv : u = v
      · exact .inl (congrArg _ huv)
      · exact .inr ⟨u, p, rfl, by rwa [if_neg huv] at hu⟩

theorem Mirrors.drop (h : mem.Mirrors a) {v : Nat} (hv : v < mem.qubits.size) :
    (mem.setQubit ⟨v, hv⟩ none).Mirrors (a.free v) where
  room := by
    rw [size_setQubit]
    exact h.room
  mapped x := by
    simp only [Assembler.free, Assembler.emit, List.mem_filter, h.mapped, phys?_setQubit, decide_eq_true_eq]
    constructor
    · rintro ⟨⟨u, p, rfl, hu⟩, hne⟩
      exact ⟨u, p, rfl, by rw [if_neg fun he => hne (congrArg _ he), hu]⟩
    · rintro ⟨u, p, rfl, hu⟩
      by_cases huv : u = v
      · rw [if_pos huv] at hu
        exact nomatch hu
      · exact ⟨⟨u, p, rfl, by rwa [if_neg huv] at hu⟩, fun he => huv (Int.ofNat.inj he)⟩

end AppMemory

namespace Execution

open Assembler

variable {n m : Nat} {p : ProcessId} {s : Subroutine} {mem : AppMemory} {a : Assembler} {v : Int}

/-- The instructions from a place on. -/
def Lists (s : Subroutine) (k : Nat) (is : List Instruction) : Prop :=
  ∀ (j : Nat) (i : Instruction), is[j]? = some i → s.instructions[k + j]? = some i

theorem Lists.head {k : Nat} {i : Instruction} {is : List Instruction} (h : Lists s k (i :: is)) :
    s.instructions[k]? = some i := h 0 i rfl

theorem Lists.tail {k : Nat} {i : Instruction} {is : List Instruction} (h : Lists s k (i :: is)) : Lists s (k + 1) is :=
  fun j i' hj => by
    have := h (j + 1) i' hj
    rwa [Nat.add_comm j, ← Nat.add_assoc] at this

/-- What a call is expected to come to. -/
structure Performs (c : QubitCall) (a : Assembler) (mem mem' : AppMemory) : Prop where
  mirrors : mem'.Mirrors (c.run a).2
  pc : mem'.pc = mem.pc + (c.code a).length
  arrays : ∀ address < a.nextArray, mem'.arrays.get? address = mem.arrays.get? address
  outcomes : ∀ f ∈ (c.run a).1, ∃ b : Bool, mem'.reading f = .ok (some b.toNat)

/-- What has been assembled last stands behind the rest. -/
theorem lists_of_prefix {is : List Instruction} (h : a.instructions ++ is <+: s.instructions) : Lists s a.size is :=
  fun j i hj => by
    obtain ⟨rest, hrest⟩ := h
    obtain ⟨hlt, -⟩ := List.getElem?_eq_some_iff.1 hj
    rw [← hrest, List.append_assoc, Assembler.size, List.getElem?_append_right (Nat.le_add_right _ _),
      Nat.add_sub_cancel_left, List.getElem?_append_left hlt, hj]

theorem q0_legible : q0.Legible := ⟨by decide, by decide⟩

/-- An instruction on one qubit, after its virtual id has been put into a register. -/
theorem loaded_carries (hsize : s.size < Word.size64) {i : Instruction} {is : List Instruction}
    (hcode : Lists s mem.pc (.set q0 v :: i :: is)) {Φ : AppMemory → Prop}
    (h : ∀ mem₁ : AppMemory, Lists s mem₁.pc (i :: is) → mem.Puts q0 (some v) mem₁ → Carries n m p s mem₁ Φ) :
    Carries n m p s mem Φ :=
  (set_carries hsize q0_legible hcode.head).trans fun mem₁ h₁ => h mem₁ (h₁.pc ▸ hcode.tail) h₁

theorem alloc_performs (hsize : s.size < Word.size64) (h : mem.Mirrors a) (hcode : Lists s mem.pc (QubitCall.alloc.code a)) :
    Carries n m p s mem (Performs .alloc a mem) := by
  rcases hun : a.unused 1 with _ | ⟨v, vs⟩
  · have hrun : QubitCall.alloc.run a = ([], a) := by simp [QubitCall.run, Assembler.alloc, hun]
    refine .done ⟨?_, ?_, fun _ _ => rfl, ?_⟩
    · rwa [hrun]
    · simp [QubitCall.code, hun]
    · rw [hrun]
      exact nofun
  · have hrun : QubitCall.alloc.run a = ([], (a.addUsed [v]).emit [.set q0 v, .qalloc q0, .init q0]) := by
      simp [QubitCall.run, Assembler.alloc, hun]
    have hcode' : QubitCall.alloc.code a = [.set q0 v, .qalloc q0, .init q0] := by simp [QubitCall.code, hun]
    rw [hcode'] at hcode
    obtain ⟨hfree, u, rfl, hu⟩ := mem_unused (hun ▸ List.mem_cons_self : v ∈ a.unused 1)
    have hlt : u < mem.qubits.size := Nat.lt_of_lt_of_le hu h.room
    have hn : mem.phys? u = none := by
      rcases hq : mem.phys? u with _ | q
      · rfl
      · exact absurd ((h.mapped u).2 ⟨u, q, rfl, hq⟩) hfree
    refine loaded_carries hsize hcode fun mem₁ hcode₁ h₁ => ?_
    have hlt₁ : u < mem₁.qubits.size := h₁.qubits ▸ hlt
    refine (qalloc_carries hsize hcode₁.head h₁.resolve hlt₁ (AppMemory.phys?_congr h₁.qubits u ▸ hn)).trans
      fun mem₂ ⟨q, h₂⟩ => ?_
    subst h₂
    have hq : (mem₁.setQubit ⟨u, hlt₁⟩ (some q)).next.phys? u = some q := (AppMemory.phys?_setQubit ..).trans (if_pos rfl)
    have hr : (mem₁.setQubit ⟨u, hlt₁⟩ (some q)).next.resolve (.register q0) = .ok u := h₁.resolve
    refine (init_carries hsize hcode₁.tail.head hr hq).trans fun mem₃ h₃ => .done ?_
    subst h₃
    have hm := (h.congr h₁.qubits rfl rfl).add hlt₁ q
    refine ⟨?_, ?_, fun address _ => congrArg (·.get? address) h₁.arrays, ?_⟩
    · rw [hrun]
      exact hm.congr rfl rfl rfl
    · change mem₁.pc + 2 = _
      rw [hcode', h₁.pc]
      rfl
    · rw [hrun]
      exact nofun

theorem free_performs (hsize : s.size < Word.size64) (h : mem.Mirrors a) (hv : v ∈ a.used)
    (hcode : Lists s mem.pc [.set q0 v, .qfree q0]) : Carries n m p s mem (Performs (.free v) a mem) := by
  obtain ⟨u, q, rfl, hq⟩ := (h.mapped v).1 hv
  refine loaded_carries hsize hcode fun mem₁ hcode₁ h₁ => ?_
  have hq₁ : mem₁.phys? u = some q := AppMemory.phys?_congr h₁.qubits u ▸ hq
  refine (qfree_carries hsize hcode₁.head h₁.resolve hq₁).trans fun mem₂ h₂ => .done ?_
  subst h₂
  have hm := (h.congr h₁.qubits rfl rfl).drop (AppMemory.lt_size_of_phys? hq₁)
  refine ⟨hm.congr rfl rfl rfl, congrArg (· + 1) h₁.pc, fun address _ => ?_, nofun⟩
  exact congrArg (·.get? address) h₁.arrays

/-- An instruction on one qubit that leaves the memory alone. -/
theorem single_performs (hsize : s.size < Word.size64) (h : mem.Mirrors a) (hv : v ∈ a.used) {c : QubitCall}
    {i : Instruction} (hcode : Lists s mem.pc [.set q0 v, i]) (hrun : c.run a = ([], a.emit [.set q0 v, i]))
    (hc : c.code a = [.set q0 v, i])
    (hi : ∀ (mem₁ : AppMemory) (u q : Nat), s.instructions[mem₁.pc]? = some i → mem₁.resolve (.register q0) = .ok u →
      mem₁.phys? u = some q → Carries n m p s mem₁ (· = mem₁.next)) :
    Carries n m p s mem (Performs c a mem) := by
  obtain ⟨u, q, rfl, hq⟩ := (h.mapped v).1 hv
  refine loaded_carries hsize hcode fun mem₁ hcode₁ h₁ => ?_
  have hq₁ : mem₁.phys? u = some q := AppMemory.phys?_congr h₁.qubits u ▸ hq
  refine (hi mem₁ u q hcode₁.head h₁.resolve hq₁).trans fun mem₂ h₂ => .done ?_
  subst h₂
  refine ⟨?_, ?_, fun address _ => congrArg (·.get? address) h₁.arrays, ?_⟩
  · rw [hrun]
    exact h.congr h₁.qubits rfl rfl
  · change mem₁.pc + 1 = _
    rw [hc, h₁.pc]
    rfl
  · rw [hrun]
    exact nofun

theorem pairGate_performs (hsize : s.size < Word.size64) (h : mem.Mirrors a) {g : PairGate} {x y : Int} (hx : x ∈ a.used)
    (hy : y ∈ a.used) (hne : x ≠ y) (hcode : Lists s mem.pc [.set q0 x, .set q1 y, .pairGate g q0 q1]) :
    Carries n m p s mem (Performs (.pairGate g x y) a mem) := by
  obtain ⟨u, q, rfl, hq⟩ := (h.mapped x).1 hx
  obtain ⟨u', q', rfl, hq'⟩ := (h.mapped y).1 hy
  refine loaded_carries hsize hcode fun mem₁ hcode₁ h₁ => ?_
  refine (set_carries hsize ⟨by decide, by decide⟩ hcode₁.head).trans fun mem₂ h₂ => ?_
  have hcode₂ := hcode₁.tail
  rw [← h₂.pc] at hcode₂
  have hphys : ∀ k, mem₂.phys? k = mem.phys? k := AppMemory.phys?_congr (h₂.qubits.trans h₁.qubits)
  have hr : mem₂.resolve (.register q0) = .ok u := (h₂.resolve_of_ne (by decide)).trans h₁.resolve
  refine (pairGate_carries hsize hcode₂.head hr h₂.resolve ((hphys u).trans hq) ((hphys u').trans hq')
    fun he => hne (congrArg _ he)).trans fun mem₃ h₃ => .done ?_
  subst h₃
  refine ⟨h.congr (h₂.qubits.trans h₁.qubits) rfl rfl, ?_, fun address _ => ?_, nofun⟩
  · change mem₂.pc + 1 = mem.pc + 3
    rw [h₂.pc, h₁.pc]
  · exact congrArg (·.get? address) (h₂.arrays.trans h₁.arrays)

theorem measure_performs (hsize : s.size < Word.size64) (h : mem.Mirrors a) (hv : v ∈ a.used)
    (hcode : Lists s mem.pc ((QubitCall.measure v).code a)) : Carries n m p s mem (Performs (.measure v) a mem) := by
  obtain ⟨u, q, rfl, hq⟩ := (h.mapped v).1 hv
  refine (array_carries hsize 1 hcode.head).trans fun mem₁ h₁ => ?_
  subst h₁
  refine loaded_carries hsize hcode.tail fun mem₂ hcode₂ h₂ => ?_
  have hphys : ∀ k, mem₂.phys? k = mem.phys? k := AppMemory.phys?_congr h₂.qubits
  refine (measure_carries hsize hcode₂.head ⟨by decide, by decide⟩ h₂.resolve ((hphys u).trans hq)).trans
    fun mem₃ ⟨b, h₃⟩ => ?_
  have hcode₃ := hcode₂.tail
  rw [← h₃.pc] at hcode₃
  have ha₃ : mem₃.arrays = mem.arrays.insert a.nextArray (Array.replicate 1 none) := h₃.arrays.trans h₂.arrays
  have hget₃ : mem₃.arrays.get? a.nextArray = some (Array.replicate 1 none) := by
    rw [ha₃, SortedMap.get?_insert_self]
  refine (store_carries hsize (k := 0) hcode₃.head h₃.register hget₃ (by decide)).trans fun mem₄ h₄ => ?_
  subst h₄
  refine loaded_carries hsize hcode₃.tail fun mem₅ hcode₅ h₅ => ?_
  have hqubits : mem₅.qubits = mem.qubits := h₅.qubits.trans (h₃.qubits.trans h₂.qubits)
  have hq₅ : mem₅.phys? u = some q := AppMemory.phys?_congr hqubits u ▸ hq
  refine (qfree_carries hsize hcode₅.head h₅.resolve hq₅).trans fun mem₆ h₆ => .done ?_
  subst h₆
  have hm := (h.congr hqubits rfl rfl).drop (AppMemory.lt_size_of_phys? hq₅)
  have harrays : mem₅.arrays = (mem.arrays.insert a.nextArray (Array.replicate 1 none)).insert a.nextArray #[some b.toNat] := by
    rw [h₅.arrays, ← ha₃]
    rfl
  refine ⟨hm.congr rfl rfl rfl, ?_, fun address hlt => ?_, fun f hf => ⟨b, ?_⟩⟩
  · change mem₅.pc + 1 = _
    rw [h₅.pc]
    change mem₃.pc + 3 = _
    rw [h₃.pc, h₂.pc]
    rfl
  · have hne : address ≠ a.nextArray := Int.ne_of_lt hlt
    change mem₅.arrays.get? address = _
    rw [harrays, SortedMap.get?_insert_of_ne _ hne, SortedMap.get?_insert_of_ne _ hne]
  · obtain rfl := List.mem_singleton.1 hf
    have hget₅ : mem₅.arrays.get? a.nextArray = some #[some (b.toNat : Int)] := by
      rw [harrays, SortedMap.get?_insert_self]
    exact AppMemory.reading_of_get? (k := 0) hget₅ rfl

theorem run_carries (hsize : s.size < Word.size64) {c : QubitCall} (hc : c.Holds a) (h : mem.Mirrors a)
    (hcode : Lists s mem.pc (c.code a)) : Carries n m p s mem (Performs c a mem) := by
  cases c with
  | alloc => exact alloc_performs hsize h hcode
  | free v => exact free_performs hsize h (hc.held v (by simp [QubitCall.qubits])) hcode
  | init v =>
    exact single_performs hsize h (hc.held v (by simp [QubitCall.qubits])) hcode rfl rfl fun _ _ _ => init_carries hsize
  | gate g v =>
    exact single_performs hsize h (hc.held v (by simp [QubitCall.qubits])) hcode rfl rfl fun _ _ _ => gate_carries hsize
  | rotate axis v k d =>
    exact single_performs hsize h (hc.held v (by simp [QubitCall.qubits])) hcode rfl rfl fun _ _ _ => rotate_carries hsize
  | pairGate g x y =>
    have hne : x ≠ y := by simpa [QubitCall.qubits] using hc.nodup
    exact pairGate_performs hsize h (hc.held x (by simp [QubitCall.qubits])) (hc.held y (by simp [QubitCall.qubits])) hne
      hcode
  | measure v => exact measure_performs hsize h (hc.held v (by simp [QubitCall.qubits])) hcode

end Execution

end QuantumNode
