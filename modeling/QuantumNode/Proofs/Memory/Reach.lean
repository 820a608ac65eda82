import QuantumNode.Proofs.Data.SortedMap
import QuantumNode.Proofs.Memory.Application
import QuantumNode.Proofs.Number.Word

/-! Memories that a run can build. Whatever the operations make of a new memory, its values and addresses are signed
words and its qubits are counted below 2^64, so every number in it can be written down and read back. -/
namespace QuantumNode

namespace AppMemory

/-- Memories that operations make of a new one. Values and addresses they are given are signed words of 64 bits, and
numbers of qubits are words without a sign. -/
inductive Reached : AppMemory → Prop where
  | new {app : Int} {maxQubits : Nat} (happ : Word.fitsSigned32 app = true) (hmax : maxQubits < Word.size64) :
      Reached (new app maxQubits)
  | setRegister {m m' : AppMemory} {r : Register} {v : Option Int} (hm : Reached m)
      (hv : ∀ w ∈ v, Word.fitsSigned64 w = true) (h : m.setRegister r v = .ok m') : Reached m'
  | initArray {m : AppMemory} {a : Int} (hm : Reached m) (ha : Word.fitsSigned64 a = true) (length : Nat) :
      Reached (m.initArray a length)
  | setArrayValue {m m' : AppMemory} {a i : Int} {v : Option Int} (hm : Reached m)
      (hv : ∀ w ∈ v, Word.fitsSigned64 w = true) (h : m.setArrayValue a i v = .ok m') : Reached m'
  | setEntry {m m' : AppMemory} {e : ArrayEntry} {v : Option Int} (hm : Reached m)
      (hv : ∀ w ∈ v, Word.fitsSigned64 w = true) (h : m.setEntry e v = .ok m') : Reached m'
  | mapQubit {m m' : AppMemory} {virt : Int} {phys : Nat} (hm : Reached m) (hp : phys < Word.size64)
      (h : m.mapQubit virt phys = .ok m') : Reached m'
  | unmapQubit {m m' : AppMemory} {virt : Int} (hm : Reached m) (h : m.unmapQubit virt = .ok m') : Reached m'
  | unmapAll {m : AppMemory} (hm : Reached m) : Reached m.unmapAll
  | setPc {m : AppMemory} (hm : Reached m) (pc : Nat) : Reached { m with pc := pc }

/-- Every number of a memory fits the word that holds it, and its arrays are in order. -/
structure Sized (m : AppMemory) : Prop where
  app : Word.fitsSigned32 m.appId = true
  registers : ∀ i, ∀ w ∈ m.registers.get i, Word.fitsSigned64 w = true
  ascending : m.arrays.Ascending
  addresses : ∀ a vs, m.arrays.get? a = some vs → Word.fitsSigned64 a = true
  entries : ∀ a vs, m.arrays.get? a = some vs → ∀ v ∈ vs, ∀ w ∈ v, Word.fitsSigned64 w = true
  virtuals : m.qubits.size ≤ Word.size64
  physicals : ∀ v p, m.phys? v = some p → p < Word.size64

namespace Sized

variable {m m' : AppMemory}

theorem new {app : Int} {maxQubits : Nat} (happ : Word.fitsSigned32 app = true) (hmax : maxQubits < Word.size64) :
    (new app maxQubits).Sized where
  app := happ
  registers i w hw := by simp [AppMemory.new, Vector.get] at hw
  ascending := SortedMap.ascending_empty
  addresses a vs h := nomatch h
  entries a vs h := nomatch h
  virtuals := by simpa [AppMemory.new] using Nat.le_of_lt hmax
  physicals v p h := nomatch (phys?_new app maxQubits v).symm.trans h

theorem setRegister {r : Register} {v : Option Int} (hm : m.Sized) (hv : ∀ w ∈ v, Word.fitsSigned64 w = true)
    (h : m.setRegister r v = .ok m') : m'.Sized := by
  unfold AppMemory.setRegister at h
  split at h
  · rename_i i hi
    cases h
    refine ⟨hm.app, fun j w hw => ?_, hm.ascending, hm.addresses, hm.entries, hm.virtuals, hm.physicals⟩
    change w ∈ (m.registers.set i v i.isLt)[j.val] at hw
    rw [Vector.getElem_set] at hw
    split at hw
    · exact hv w hw
    · exact hm.registers j w hw
  · exact nomatch h

/-- An array whose entries are words is put in its place. -/
theorem insert {a : Int} {vs : ArrayValues} (hm : m.Sized) (ha : Word.fitsSigned64 a = true)
    (hvs : ∀ v ∈ vs, ∀ w ∈ v, Word.fitsSigned64 w = true) :
    ({ m with arrays := m.arrays.insert a vs } : AppMemory).Sized := by
  refine ⟨hm.app, hm.registers, hm.ascending.insert a vs, fun b us h => ?_, fun b us h => ?_, hm.virtuals, hm.physicals⟩
  · by_cases hb : b = a
    · exact hb ▸ ha
    · exact hm.addresses b us ((SortedMap.get?_insert_of_ne _ hb _).symm.trans h)
  · by_cases hb : b = a
    · subst hb
      obtain rfl := Option.some.inj ((SortedMap.get?_insert_self _ _ _).symm.trans h)
      exact hvs
    · exact hm.entries b us ((SortedMap.get?_insert_of_ne _ hb _).symm.trans h)

theorem initArray {a : Int} (hm : m.Sized) (ha : Word.fitsSigned64 a = true) (length : Nat) :
    (m.initArray a length).Sized := by
  refine hm.insert ha fun v hv w hw => ?_
  rw [(Array.mem_replicate.1 hv).2] at hw
  exact nomatch hw

theorem setArrayValue {a i : Int} {v : Option Int} (hm : m.Sized) (hv : ∀ w ∈ v, Word.fitsSigned64 w = true)
    (h : m.setArrayValue a i v = .ok m') : m'.Sized := by
  obtain ⟨vs, hvs, h⟩ := bind_ok h
  have hget : m.arrays.get? a = some vs := by
    unfold AppMemory.array at hvs
    split at hvs
    · cases hvs
      assumption
    · cases hvs
  split at h
  · cases h
    refine hm.insert (hm.addresses a vs hget) fun u hu => ?_
    obtain hu | rfl := Array.mem_or_eq_of_mem_setIfInBounds hu
    · exact hm.entries a vs hget u hu
    · exact hv
  · cases h

theorem setEntry {e : ArrayEntry} {v : Option Int} (hm : m.Sized) (hv : ∀ w ∈ v, Word.fitsSigned64 w = true)
    (h : m.setEntry e v = .ok m') : m'.Sized := by
  obtain ⟨i, -, h⟩ := bind_ok h
  exact hm.setArrayValue hv h

theorem setQubit {v : Fin m.qubits.size} {q : Option Nat} (hm : m.Sized) (hq : ∀ p ∈ q, p < Word.size64) :
    (m.setQubit v q).Sized := by
  refine ⟨hm.app, hm.registers, hm.ascending, hm.addresses, hm.entries, ?_, fun u p h => ?_⟩
  · rw [size_setQubit]
    exact hm.virtuals
  · rw [phys?_setQubit] at h
    split at h
    · exact hq p h
    · exact hm.physicals u p h

theorem mapQubit {virt : Int} {phys : Nat} (hm : m.Sized) (hp : phys < Word.size64)
    (h : m.mapQubit virt phys = .ok m') : m'.Sized := by
  obtain ⟨v, -, h⟩ := bind_ok h
  split at h
  · split at h
    · cases h
      exact hm
    · exact nomatch h
  · split at h
    · exact nomatch h
    · cases h
      refine hm.setQubit fun p h => ?_
      cases h
      exact hp

theorem unmapQubit {virt : Int} (hm : m.Sized) (h : m.unmapQubit virt = .ok m') : m'.Sized := by
  obtain ⟨v, -, h⟩ := bind_ok h
  cases h
  exact hm.setQubit nofun

theorem unmapAll (hm : m.Sized) : m.unmapAll.Sized where
  app := hm.app
  registers := hm.registers
  ascending := hm.ascending
  addresses := hm.addresses
  entries := hm.entries
  virtuals := by simpa [AppMemory.unmapAll] using hm.virtuals
  physicals v p h := nomatch (phys?_unmapAll v).symm.trans h

end Sized

theorem Reached.sized {m : AppMemory} (h : m.Reached) : m.Sized := by
  induction h with
  | new happ hmax => exact .new happ hmax
  | setRegister _ hv h ih => exact ih.setRegister hv h
  | initArray _ ha length ih => exact ih.initArray ha length
  | setArrayValue _ hv h ih => exact ih.setArrayValue hv h
  | setEntry _ hv h ih => exact ih.setEntry hv h
  | mapQubit _ hp h ih => exact ih.mapQubit hp h
  | unmapQubit _ h ih => exact ih.unmapQubit h
  | unmapAll _ ih => exact ih.unmapAll
  | setPc _ pc ih => exact ⟨ih.app, ih.registers, ih.ascending, ih.addresses, ih.entries, ih.virtuals, ih.physicals⟩

end AppMemory

end QuantumNode
