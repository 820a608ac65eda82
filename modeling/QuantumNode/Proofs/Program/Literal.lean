import QuantumNode.Proofs.Memory.Application
import QuantumNode.Proofs.Solo.Call

/-! Instructions that put literals into arrays: how they are assembled, and what executing them comes to. They follow
each other at once, so that of the whole node only the memory of the application matters. -/
namespace QuantumNode

open Node Work

variable {n m : Nat}

namespace Execution

open Assembler

/-! ### Instructions that follow each other at once -/

/-- An execution comes to a point by steps that go on at once, whatever becomes of the rest of the node between two of
them, as long as the memory of the application stays. -/
inductive Comes (p : ProcessId) (G : Execution → Working (Node n m) n m → Prop) :
    Execution → Working (Node n m) n m → Prop where
  | here {e : Execution} {w : Working (Node n m) n m} (h : G e w) : Comes p G e w
  | step {e e' : Execution} {w w' : Working (Node n m) n m} (hx : (step p e).exec w = (.ok (.go e'), w'))
      (h : ∀ w'', w''.part.apps.get? e.app = w'.part.apps.get? e.app → Comes p G e' w'') : Comes p G e w

theorem Comes.trans {p : ProcessId} {G H : Execution → Working (Node n m) n m → Prop} {e : Execution}
    {w : Working (Node n m) n m} (h : Comes p G e w) (hle : ∀ e' w', G e' w' → Comes p H e' w') : Comes p H e w := by
  induction h with
  | here h => exact hle _ _ h
  | step hx _ ih => exact .step hx ih

variable {p : ProcessId} {s : Subroutine} {mem mem' : AppMemory} {Φ Ψ : AppMemory → Prop}

variable (n m) in
/-- From one memory, at the fetch of an instruction, an execution comes to the fetch of another, with a memory as
described. -/
def Brings (p : ProcessId) (s : Subroutine) (mem : AppMemory) (Φ : AppMemory → Prop) : Prop :=
  ∀ w : Working (Node n m) n m, w.part.apps.get? s.appId = some mem →
    Comes p (fun e' w' => e' = ⟨s, .fetch⟩ ∧ ∃ mem', w'.part.apps.get? s.appId = some mem' ∧ Φ mem') ⟨s, .fetch⟩ w

namespace Brings

theorem done (h : Φ mem) : Brings n m p s mem Φ := fun _ hw => .here ⟨rfl, mem, hw, h⟩

theorem trans (h : Brings n m p s mem Φ) (hle : ∀ mem', Φ mem' → Brings n m p s mem' Ψ) : Brings n m p s mem Ψ := by
  intro w hw
  apply (h w hw).trans
  rintro e' w' ⟨rfl, mem', hw', hm⟩
  exact hle mem' hm w' hw'

theorem mono (h : Brings n m p s mem Φ) (hle : ∀ mem', Φ mem' → Ψ mem') : Brings n m p s mem Ψ :=
  h.trans fun mem' hm => .done (hle mem' hm)

end Brings

/-- An instruction that takes no time and changes the memory of its application as described. -/
theorem quick_brings (hsize : s.size < Word.size64) {i : Instruction} (hi : s.instructions[mem.pc]? = some i)
    (hp : ∀ e : Execution, perform p e i =
      (do classical e.app i; advance e.app; return .go { e with stage := .fetch } : NodeWork n m (Step m)))
    (hpc : mem'.pc = mem.pc) (hΦ : Φ mem'.next)
    (h : ∀ w : Working (Node n m) n m, w.part.apps.get? s.appId = some mem →
      Attains (classical s.appId i) w fun _ w' => w'.part.apps.get? s.appId = some mem') :
    Brings n m p s mem Φ := by
  intro w hw
  have hnext : mem'.incrementPc = mem'.next := by
    rw [AppMemory.incrementPc, Nat.mod_eq_of_lt (hpc ▸ pc_fits hsize hi), AppMemory.next]
  have hstep : Attains (step p ⟨s, .fetch⟩) w fun flow w' =>
      flow = .go ⟨s, .fetch⟩ ∧ w'.part.apps.get? s.appId = some mem'.next := by
    refine .bind <| (memory_attains hw).mono ?_
    rintro mem₀ w₀ ⟨rfl, rfl⟩
    dsimp only
    rw [hi]
    refine .bind <| (log_attains _ _ _).mono fun _ w₁ h₁ => .modifyPart ?_
    rw [hp]
    refine .bind <| Attains.mono (h _ (h₁ ▸ hw)) fun _ w₂ hw₂ => .bind <| .mono
      (updateMemory_attains (f := fun mem => .ok mem.incrementPc) hw₂ rfl) fun _ w₃ h₃ => .pure ⟨rfl, ?_⟩
    rw [h₃, ← hnext]
    exact SortedMap.get?_insert_self ..
  obtain ⟨flow, w', hx, rfl, hw'⟩ := hstep
  exact .step hx fun w'' hw'' => .here ⟨rfl, _, hw''.trans hw', hΦ⟩

theorem set_brings (hsize : s.size < Word.size64) {r : Register} {v : Int} (hr : r.Legible)
    (hi : s.instructions[mem.pc]? = some (.set r v)) : Brings n m p s mem (mem.Puts r (some v)) := by
  obtain ⟨mem₁, hset, hpc, hputs⟩ := mem.setRegister_puts hr (some v)
  apply quick_brings hsize hi (fun _ => rfl) hpc hputs
  intro w hw
  apply (updateMemory_attains hw hset).mono
  rintro _ w' rfl
  exact SortedMap.get?_insert_self ..

theorem array_brings (hsize : s.size < Word.size64) (length : Nat) {a : Int}
    (hi : s.instructions[mem.pc]? = some (.array (.literal length) a)) :
    Brings n m p s mem (mem.Fills a (Array.replicate length none) 1) := by
  apply quick_brings hsize hi (fun _ => rfl) (show (mem.initArray a length).pc = mem.pc from rfl)
  · exact ⟨SortedMap.get?_insert_self .., fun _ hb => SortedMap.get?_insert_of_ne _ hb _, rfl, rfl⟩
  · intro w hw
    apply Attains.next (exec_resolve_of_ok hw rfl)
    rw [if_neg (by omega)]
    apply Attains.bind
    apply (log_attains _ _ _).mono
    intro _ w₁ h₁
    apply (updateMemory_attains (f := fun mem => .ok (mem.initArray a length)) (h₁ ▸ hw) rfl).mono
    rintro _ w₂ rfl
    exact SortedMap.get?_insert_self ..

theorem store_brings (hsize : s.size < Word.size64) {r : Register} {a : Int} {k : Nat} {v : Option Int}
    {vs : ArrayValues} (hi : s.instructions[mem.pc]? = some (.store r ⟨a, .literal k⟩)) (hr : mem.register r = .ok v)
    (ha : mem.arrays.get? a = some vs) (hk : k < vs.size) :
    Brings n m p s mem (mem.Fills a (vs.setIfInBounds k v) 1) := by
  have hstore : (do mem.setEntry ⟨a, .literal k⟩ (← mem.register r)) =
      .ok { mem with arrays := mem.arrays.insert a (vs.setIfInBounds k v) } := by
    simp [hr, AppMemory.setEntry, AppMemory.resolve, AppMemory.setArrayValue, AppMemory.array, ha, bind, Except.bind, hk]
  apply quick_brings hsize hi (fun _ => rfl)
    (show { mem with arrays := mem.arrays.insert a (vs.setIfInBounds k v) }.pc = mem.pc from rfl)
  · exact ⟨SortedMap.get?_insert_self .., fun _ hb => SortedMap.get?_insert_of_ne _ hb _, rfl, rfl⟩
  · intro w hw
    apply (updateMemory_attains hw hstore).mono
    rintro _ w' rfl
    exact SortedMap.get?_insert_self ..

end Execution

/-! ### Entries of an array -/

namespace Assembler

/-- The instructions that put literals into an array. -/
def entryCode (address : Int) (l : List IndexedValue) : List Instruction :=
  l.flatMap fun e => [.set r0 e.2, .store r0 ⟨address, .literal e.1⟩]

theorem storeLiteral_eq (a : Assembler) (address : Int) (k : Nat) (v : Int) :
    a.storeLiteral address k v = a.emit (entryCode address [(k, v)]) := by
  simp [storeLiteral, entryCode]

theorem emit_emit (a : Assembler) (is js : List Instruction) : (a.emit is).emit js = a.emit (is ++ js) := by
  simp [emit]

theorem emit_nil (a : Assembler) : a.emit [] = a := by
  simp [emit]

theorem entryCode_append (address : Int) (l l' : List IndexedValue) :
    entryCode address l ++ entryCode address l' = entryCode address (l ++ l') := by
  simp [entryCode]

/-- Literals that are stored one by one. -/
theorem foldl_storeLiteral (address : Int) (l : List IndexedValue) (a : Assembler) :
    l.foldl (fun a e => a.storeLiteral address e.1 e.2) a = a.emit (entryCode address l) := by
  induction l generalizing a with
  | nil => rw [List.foldl_nil, entryCode, List.flatMap_nil, emit_nil]
  | cons e l ih =>
    rw [List.foldl_cons, ih, storeLiteral_eq, emit_emit, entryCode_append]
    rfl

end Assembler

namespace Execution

open Assembler

variable {p : ProcessId} {s : Subroutine} {mem mem' : AppMemory}

theorem Lists.left {k : Nat} {is js : List Instruction} (h : Lists s k (is ++ js)) : Lists s k is := by
  intro j i hj
  apply h j i
  rw [List.getElem?_append_left (List.getElem?_eq_some_iff.1 hj).1, hj]

theorem Lists.right {k : Nat} {is js : List Instruction} (h : Lists s k (is ++ js)) : Lists s (k + is.length) js := by
  intro j i hj
  rw [Nat.add_assoc]
  apply h (is.length + j) i
  rw [List.getElem?_append_right (Nat.le_add_right ..), Nat.add_sub_cancel_left, hj]

theorem r0_legible : r0.Legible := ⟨by decide, by decide⟩

/-- Executing what stores literals. -/
theorem entries_brings (hsize : s.size < Word.size64) {address : Int} {vs : ArrayValues} {l : List IndexedValue}
    (hcode : Lists s mem.pc (entryCode address l)) (ha : mem.arrays.get? address = some vs)
    (hl : ∀ e ∈ l, e.1 < vs.size) :
    Brings n m p s mem (mem.Fills address (ArrayValues.putAll vs l) (entryCode address l).length) := by
  induction l generalizing mem vs with
  | nil => exact .done ⟨ha, fun _ _ => rfl, rfl, rfl⟩
  | cons e l ih =>
    have hcode : Lists s mem.pc (.set r0 e.2 :: .store r0 ⟨address, .literal e.1⟩ :: entryCode address l) := hcode
    apply (set_brings hsize r0_legible hcode.head).trans
    intro mem₁ h₁
    have hcode₁ := hcode.tail
    rw [← h₁.pc] at hcode₁
    have hstore := store_brings (n := n) (m := m) (p := p) hsize hcode₁.head h₁.register
      (h₁.arrays ▸ ha) (hl e (List.mem_cons_self ..))
    apply hstore.trans
    intro mem₂ h₂
    have hcode₂ := hcode₁.tail
    rw [← h₂.pc] at hcode₂
    have hrest := ih hcode₂ h₂.array fun d hd => by
      rw [Array.size_setIfInBounds]
      exact hl d (List.mem_cons_of_mem _ hd)
    apply hrest.mono
    intro mem₃ h₃
    refine ⟨h₃.array, fun b hb => ?_, ?_, ?_⟩
    · rw [h₃.others b hb, h₂.others b hb, h₁.arrays]
    · rw [h₃.qubits, h₂.qubits, h₁.qubits]
    · have hlength : (entryCode address (e :: l)).length = (entryCode address l).length + 2 := rfl
      have hpc₁ := h₁.pc
      have hpc₂ := h₂.pc
      have hpc₃ := h₃.pc
      omega

end Execution

/-! ### Arrays at successive addresses -/

/-- An array of a length, and the literals that are put into it. -/
structure Declaration where
  length : Nat
  entries : List IndexedValue

namespace Declaration

open Assembler Execution

/-- Each index is in the array. -/
def Fits (d : Declaration) : Prop := ∀ e ∈ d.entries, e.1 < d.length

def array (d : Declaration) : ArrayValues := .putAll (Array.replicate d.length none) d.entries

@[simp] theorem size_array (d : Declaration) : d.array.size = d.length := by
  simp [array]

theorem array_getElem? {d : Declaration} (hd : (d.entries.map Prod.fst).Nodup) {i : Nat} (hi : i < d.length) :
    d.array[i]? = some (d.entries.lookup i) := by
  rw [array, ArrayValues.putAll_getElem? hd, Array.getElem?_replicate, if_pos hi, Option.map_some, Option.or_none]

def code (d : Declaration) (address : Int) : List Instruction :=
  .array (.literal d.length) address :: entryCode address d.entries

/-- The instructions of arrays at successive addresses. -/
def codeAll : List Declaration → Int → List Instruction
  | [], _ => []
  | d :: ds, first => d.code first ++ codeAll ds (first + 1)

/-- The arrays are at successive addresses, and everything but registers is otherwise as it was. -/
structure Declared (ds : List Declaration) (first : Int) (mem mem' : AppMemory) : Prop where
  arrays : ∀ (j : Nat) (d : Declaration), ds[j]? = some d → mem'.arrays.get? (first + j) = some d.array
  others : ∀ b, b < first ∨ first + ds.length ≤ b → mem'.arrays.get? b = mem.arrays.get? b
  qubits : mem'.qubits = mem.qubits
  pc : mem'.pc = mem.pc + (codeAll ds first).length

variable {p : ProcessId} {s : Subroutine} {mem mem' : AppMemory}

/-- Executing what declares an array. -/
theorem code_brings (hsize : s.size < Word.size64) {d : Declaration} {address : Int} (hd : d.Fits)
    (hcode : Lists s mem.pc (d.code address)) :
    Brings n m p s mem (mem.Fills address d.array (d.code address).length) := by
  apply (array_brings hsize d.length hcode.head).trans
  intro mem₁ h₁
  have hcode₁ := hcode.tail
  rw [← h₁.pc] at hcode₁
  apply (entries_brings hsize hcode₁ h₁.array fun e he => by simpa using hd e he).mono
  intro mem₂ h₂
  have h := h₁.trans h₂
  rwa [Nat.add_comm] at h

/-- Executing what declares arrays one after another. -/
theorem codeAll_brings (hsize : s.size < Word.size64) {ds : List Declaration} {first : Int} (hds : ∀ d ∈ ds, d.Fits)
    (hcode : Lists s mem.pc (codeAll ds first)) : Brings n m p s mem (Declared ds first mem) := by
  induction ds generalizing mem first with
  | nil => exact .done ⟨nofun, fun _ _ => rfl, rfl, rfl⟩
  | cons d ds ih =>
    have hcode : Lists s mem.pc (d.code first ++ codeAll ds (first + 1)) := hcode
    apply (code_brings hsize (hds d (List.mem_cons_self ..)) hcode.left).trans
    intro mem₁ h₁
    have hcode₁ := hcode.right
    rw [← h₁.pc] at hcode₁
    apply (ih (fun d' hd' => hds d' (List.mem_cons_of_mem _ hd')) hcode₁).mono
    intro mem₂ h₂
    refine ⟨fun j d' hj => ?_, fun b hb => ?_, h₂.qubits.trans h₁.qubits, ?_⟩
    · cases j with
      | zero =>
        cases hj
        rw [Int.natCast_zero, Int.add_zero, h₂.others first (.inl (by omega)), h₁.array]
      | succ j =>
        have := h₂.arrays j d' hj
        rwa [Int.add_assoc, Int.add_comm 1, ← Int.natCast_succ] at this
    · rw [List.length_cons] at hb
      rw [h₂.others b (by omega), h₁.others b (by omega)]
    · rw [h₂.pc, h₁.pc, codeAll, List.length_append, Nat.add_assoc]

end Declaration

end QuantumNode
