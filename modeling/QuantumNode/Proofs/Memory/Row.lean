import QuantumNode.Node.Pairing
import QuantumNode.Proofs.Memory.Application
import QuantumNode.Proofs.Node.Total

/-! Rows of results: what stands in an array after a pair service has written one. -/
namespace QuantumNode

open Work

variable {n m : Nat}

namespace AppMemory

theorem arrayValue_setArrayValue {mem mem' : AppMemory} {a i : Int} {v : Option Int}
    (h : mem.setArrayValue a i v = .ok mem') (j : Int) :
    mem'.arrayValue a j = if j = i then .ok v else mem.arrayValue a j := by
  obtain ⟨vs, hvs, h⟩ := bind_ok h
  split at h
  · rename_i hi
    cases h
    have harray : ({ mem with arrays := mem.arrays.insert a (vs.setIfInBounds i.toNat v) } : AppMemory).array a =
        .ok (vs.setIfInBounds i.toNat v) := by
      simp only [array, SortedMap.get?_insert_self]
    simp only [arrayValue, harray, hvs, bind, Except.bind]
    by_cases hj : j = i
    · subst hj
      rw [if_pos hi.1, if_pos rfl, Array.getElem?_setIfInBounds_self_of_lt (by omega)]
    · rw [if_neg hj]
      split
      · rw [Array.getElem?_setIfInBounds_ne (by omega)]
      · rfl
  · cases h

/-- The entries of row `k` in an array of results. -/
def row (mem : AppMemory) (address : Int) (k : Nat) : List (Except Fault (Option Int)) :=
  (List.range rowLength).map fun (i : Nat) => mem.arrayValue address ((rowLength : Int) * k + i)

end AppMemory

namespace Pairing

open Node Working

private theorem writeFrom_ends (r : EntanglementRequest) (k : Nat) (l : List Int) (b : Nat)
    {w : Working (Node n m) n m} {mem : AppMemory} (hmem : w.part.apps.get? r.app = some mem) :
    Ends ((l.zipIdx b).forM fun x => (updateMemory r.app (·.setArrayValue r.resultArray
      ((rowLength : Int) * k + x.2) (some x.1)) : NodeWork n m Unit)) w fun _ w' =>
      ∃ mem', w'.part.apps.get? r.app = some mem' ∧
        (∀ i v, l[i]? = some v → mem'.arrayValue r.resultArray ((rowLength : Int) * k + (b + i : Nat)) = .ok (some v)) ∧
        ∀ i < b, mem'.arrayValue r.resultArray ((rowLength : Int) * k + i) =
          mem.arrayValue r.resultArray ((rowLength : Int) * k + i) := by
  induction l generalizing b w mem with
  | nil => exact .pure ⟨mem, hmem, (fun _ _ h => nomatch h), fun _ _ => rfl⟩
  | cons v l ih =>
    refine .bind fun _ w₁ h₁ => ?_
    rw [exec_updateMemory, hmem] at h₁
    dsimp only at h₁ ⊢
    split at h₁
    · exact nomatch h₁
    · rename_i mem₁ hset
      cases h₁
      refine (ih (b + 1) (SortedMap.get?_insert_self ..)).mono fun _ w₂ ⟨mem₂, hmem₂, hnew, hold⟩ => ?_
      refine ⟨mem₂, hmem₂, fun i u hu => ?_, fun i hi => ?_⟩
      · cases i with
        | zero =>
          cases hu
          rw [Nat.add_zero, hold b (Nat.lt_succ_self b), AppMemory.arrayValue_setArrayValue hset, if_pos rfl]
        | succ i =>
          rw [show b + (i + 1) = b + 1 + i by omega]
          exact hnew i u hu
      · rw [hold i (by omega), AppMemory.arrayValue_setArrayValue hset, if_neg (by omega)]

/-- A row that has been written stands in the array. -/
theorem writeRow_ends (r : EntanglementRequest) (k : Nat) {row : List Int} (hrow : row.length = rowLength)
    {w : Working (Node n m) n m} (hmem : (w.part.apps.get? r.app).isSome) :
    Ends (writeRow r k row) w fun _ w' => ∃ mem, w'.part.apps.get? r.app = some mem ∧
      mem.row r.resultArray k = row.map fun v => .ok (some v) := by
  obtain ⟨mem, hmem⟩ := Option.isSome_iff_exists.1 hmem
  refine (writeFrom_ends r k row 0 hmem).mono fun _ w' ⟨mem', hmem', hnew, _⟩ => ⟨mem', hmem', ?_⟩
  refine List.ext_getElem (by simp [AppMemory.row, hrow]) fun i h₁ h₂ => ?_
  rw [List.length_map] at h₂
  have := hnew i row[i] (List.getElem?_eq_getElem h₂)
  rw [Nat.zero_add] at this
  simpa [AppMemory.row] using this

theorem length_resultRow (r : EntanglementRequest) (pair : Pair) (virt : Option Int) :
    (resultRow r pair virt).length = rowLength := by
  unfold resultRow
  dsimp only
  split
  · rfl
  · rfl
  · rfl

/-- Where a row has the Bell index and the sequence number. -/
theorem resultRow_pair (r : EntanglementRequest) (pair : Pair) (virt : Option Int) :
    (resultRow r pair virt)[9]? = some (pair.bellIndex : Int) ∧ (resultRow r pair virt)[4]? = some (pair.sequence : Int) := by
  unfold resultRow
  dsimp only
  split
  all_goals exact ⟨rfl, rfl⟩

/-- Where the row of a pair that was measured has the outcome and the basis. -/
theorem resultRow_reading (r : EntanglementRequest) {pair : Pair} {rd : PairReading} (hk : pair.kind ≠ .keep)
    (hr : pair.reading = some rd) (virt : Option Int) : (resultRow r pair virt)[2]? = some (rd.outcome : Int) ∧
      (resultRow r pair virt)[3]? = some rd.basis.code := by
  unfold resultRow
  rw [hr]
  dsimp only
  split
  · contradiction
  · rename_i hrd _
    cases hrd
    exact ⟨rfl, rfl⟩
  · contradiction

/-- The entries of row `k`, with the values of a row. -/
def rowEntries (k : Nat) (row : List Int) : List IndexedValue := ArrayValues.consecutive (rowLength * k) row

private theorem writeFrom_attains (r : EntanglementRequest) (k : Nat) (l : List Int) (b : Nat)
    {w : Working (Node n m) n m} {mem : AppMemory} {vs : ArrayValues} (hmem : w.part.apps.get? r.app = some mem)
    (ha : mem.arrays.get? r.resultArray = some vs) (hfit : rowLength * k + b + l.length ≤ vs.size) :
    Attains ((l.zipIdx b).forM fun x => (updateMemory r.app (·.setArrayValue r.resultArray
      ((rowLength : Int) * k + x.2) (some x.1)) : NodeWork n m Unit)) w fun _ w' =>
      ∃ mem', w'.part.apps.get? r.app = some mem' ∧
        mem.Fills r.resultArray (vs.putAll ((l.zipIdx b).map fun x => (rowLength * k + x.2, x.1))) 0 mem' := by
  induction l generalizing b w mem vs with
  | nil => exact .pure ⟨mem, hmem, ha, fun _ _ => rfl, rfl, rfl⟩
  | cons v l ih =>
    rw [List.length_cons] at hfit
    let vs₁ := vs.setIfInBounds (rowLength * k + b) (some v)
    have hset : mem.setArrayValue r.resultArray ((rowLength : Int) * k + b) (some v) =
        .ok { mem with arrays := mem.arrays.insert r.resultArray vs₁ } := by
      have hlt : 0 ≤ (rowLength : Int) * k + b ∧ (rowLength : Int) * k + b < vs.size := by omega
      have hnat : ((rowLength : Int) * k + b).toNat = rowLength * k + b := by omega
      simp only [AppMemory.setArrayValue, AppMemory.array, ha, bind, Except.bind, if_pos hlt, hnat, vs₁]
    apply Attains.bind
    apply (updateMemory_attains (f := (·.setArrayValue r.resultArray ((rowLength : Int) * k + b) (some v))) hmem hset).mono
    rintro _ w₁ rfl
    have hfit₁ : rowLength * k + (b + 1) + l.length ≤ vs₁.size := by
      simp only [vs₁, Array.size_setIfInBounds]
      omega
    apply (ih (b + 1) (SortedMap.get?_insert_self ..) (SortedMap.get?_insert_self ..) hfit₁).mono
    rintro _ w₂ ⟨mem₂, hmem₂, h₂⟩
    refine ⟨mem₂, hmem₂, h₂.array, fun c hc => ?_, h₂.qubits, h₂.pc⟩
    rw [h₂.others c hc]
    exact SortedMap.get?_insert_of_ne _ hc _

/-- A row that fits is written, and every other entry stays. -/
theorem writeRow_attains (r : EntanglementRequest) (k : Nat) {row : List Int} {w : Working (Node n m) n m}
    {mem : AppMemory} {vs : ArrayValues} (hmem : w.part.apps.get? r.app = some mem)
    (ha : mem.arrays.get? r.resultArray = some vs) (hfit : rowLength * k + row.length ≤ vs.size) :
    Attains (writeRow r k row) w fun _ w' => ∃ mem', w'.part.apps.get? r.app = some mem' ∧
      mem.Fills r.resultArray (vs.putAll (rowEntries k row)) 0 mem' :=
  writeFrom_attains r k row 0 hmem ha hfit

end Pairing

end QuantumNode
