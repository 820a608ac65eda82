import QuantumNode.Memory.Snapshot
import QuantumNode.Proofs.Memory.Reach
import QuantumNode.Proofs.Subroutine.Operand
import QuantumNode.Proofs.Text.Numeral

/-! Snapshots of memories as text. A snapshot is written as a list of entries, one line each; a line is read as the
entry that it was written from, and the entries of a memory put together show that memory again. -/
namespace QuantumNode

open Text

namespace MemorySnapshot

/-- What one line of a snapshot says. -/
inductive Entry where
  | register (r : Register) (v : Int)
  | array (a : Int) (vs : ArrayValues)
  | qubit (virt phys : Nat)

namespace Entry

def line : Entry → List Char
  | register r v => spaced "REG".toList [r.text.toList, (toString v).toList]
  | array a vs => spaced "ARRAY".toList ((toString a).toList :: vs.toList.map fun v => (entryText v).toList)
  | qubit virt phys => spaced "QUBIT".toList [(toString virt).toList, (toString phys).toList]

/-- What an entry adds to the snapshot read so far. -/
def add (s : MemorySnapshot) : Entry → MemorySnapshot
  | register r v => { s with registers := s.registers ++ [(r, v)] }
  | array a vs => { s with arrays := s.arrays.insert a vs }
  | qubit virt phys => { s with qubits := setQubit s.qubits virt phys }

/-- Entries whose numbers fit their words. -/
def Legible : Entry → Prop
  | register r v => r.Legible ∧ Word.fitsSigned64 v = true
  | array a vs => Word.fitsSigned64 a = true ∧ ∀ v ∈ vs, ∀ w ∈ v, Word.fitsSigned64 w = true
  | qubit virt phys => virt < Word.size64 ∧ phys < Word.size64

end Entry

/-! ### One line -/

private theorem isWord_reg : IsWord "REG".toList := isWord_of_all (by decide) (by decide)

private theorem isWord_array : IsWord "ARRAY".toList := isWord_of_all (by decide) (by decide)

private theorem isWord_qubit : IsWord "QUBIT".toList := isWord_of_all (by decide) (by decide)

theorem isWord_register (r : Register) : IsWord r.text.toList := (Operand.isToken_text (.register r)).toIsWord

theorem isWord_entryText (v : Option Int) : IsWord (entryText v).toList := by
  cases v with
  | none => exact isWord_of_all (by decide) (by decide)
  | some v => exact isWord_toString v

/-- An array's entry is read back, whether it is set or not. -/
theorem element?_entryText {v : Option Int} (h : ∀ w ∈ v, Word.fitsSigned64 w = true) :
    element? (entryText v).toList = some v := by
  cases v with
  | none => rfl
  | some v =>
    have hne : (toString v).toList ≠ ['_'] := fun he => by
      have hd : '_' = '-' ∨ ('_').isDigit = true :=
        sign_or_digit_of_mem_toString (he ▸ List.mem_singleton_self _)
      exact absurd hd (by decide)
    have hread : leadingInt64? ([] ++ ((toString v).toList ++ [])) = some (v, []) :=
      leadingInt64?_toString (by simp) endsNumber_nil (h v rfl)
    rw [List.nil_append, List.append_nil] at hread
    simp only [entryText, element?, if_neg hne, hread, Option.map_some]

theorem entries_words {number : Nat} {vs : ArrayValues} (h : ∀ v ∈ vs, ∀ w ∈ v, Word.fitsSigned64 w = true) :
    entries number (vs.toList.map fun v => (entryText v).toList) = .ok vs := by
  have hread (f : List Char → Except SnapshotError (Option Int)) (hf : ∀ v ∈ vs, f (entryText v).toList = .ok v) :
      (vs.toList.map fun v => (entryText v).toList).mapM f = .ok vs.toList := by
    rw [mapM_eq_ok_iff, List.map_map]
    exact List.map_congr_left fun v hv => hf v (Array.mem_toList_iff.1 hv)
  rw [entries, hread]
  · rfl
  · intro v hv
    simp only [element?_entryText (h v hv)]

namespace Entry

variable {s : MemorySnapshot} {number : Nat}

theorem addLine_register {r : Register} {v : Int} (h : (register r v).Legible) :
    s.addLine number (register r v).line = .ok ((register r v).add s) := by
  obtain ⟨hr, hv⟩ := h
  have hnamed : r.text.toList.isEmpty = false := List.isEmpty_eq_false_iff.2 (isWord_register r).ne_nil
  simp only [addLine, line, isEmpty_spaced isWord_reg, Bool.false_eq_true, if_false, nextWord_spaced isWord_reg,
    if_true, addRegister, nextWord_flatMap (isWord_register r), hnamed, leadingInt64?_flatMap [] hv,
    Register.parse?_text hr, add]

theorem addLine_array {a : Int} {vs : ArrayValues} (h : (array a vs).Legible) :
    s.addLine number (array a vs).line = .ok ((array a vs).add s) := by
  obtain ⟨ha, hvs⟩ := h
  have hws : ∀ w ∈ vs.toList.map fun v => (entryText v).toList, IsWord w := fun w hw => by
    obtain ⟨v, -, rfl⟩ := List.mem_map.1 hw
    exact isWord_entryText v
  have hkind : ¬ "ARRAY".toList = "REG".toList := by decide
  simp only [addLine, line, isEmpty_spaced isWord_array, Bool.false_eq_true, if_false, nextWord_spaced isWord_array,
    if_neg hkind, if_true, addArray, leadingInt64?_flatMap _ ha, words_flatMap hws, entries_words hvs]
  rfl

theorem addLine_qubit {virt phys : Nat} (h : (qubit virt phys).Legible) :
    s.addLine number (qubit virt phys).line = .ok ((qubit virt phys).add s) := by
  obtain ⟨hv, hp⟩ := h
  have hreg : ¬ "QUBIT".toList = "REG".toList := by decide
  have harray : ¬ "QUBIT".toList = "ARRAY".toList := by decide
  simp only [addLine, line, isEmpty_spaced isWord_qubit, Bool.false_eq_true, if_false, nextWord_spaced isWord_qubit,
    if_neg hreg, if_neg harray, if_true, addQubit, leadingNat64?_flatMap _ hv, leadingNat64?_flatMap [] hp, add]

theorem addLine_line {e : Entry} (h : e.Legible) : s.addLine number e.line = .ok (e.add s) := by
  cases e with
  | register r v => exact addLine_register h
  | array a vs => exact addLine_array h
  | qubit virt phys => exact addLine_qubit h

theorem newline_not_mem (e : Entry) : '\n' ∉ e.line := by
  cases e with
  | register r v =>
    exact newline_not_mem_spaced isWord_reg <|
      List.forall_mem_cons.2 ⟨isWord_register r, List.forall_mem_singleton.2 (isWord_toString v)⟩
  | array a vs =>
    refine newline_not_mem_spaced isWord_array fun w hw => ?_
    obtain rfl | hw := List.mem_cons.1 hw
    · exact isWord_toString a
    · obtain ⟨v, -, rfl⟩ := List.mem_map.1 hw
      exact isWord_entryText v
  | qubit virt phys =>
    exact newline_not_mem_spaced isWord_qubit <|
      List.forall_mem_cons.2 ⟨isWord_toString_nat virt, List.forall_mem_singleton.2 (isWord_toString_nat phys)⟩

end Entry

/-! ### Whole texts -/

/-- The entries of a snapshot in the order in which they are written. -/
def written (s : MemorySnapshot) : List Entry :=
  s.registers.map (fun e => .register e.1 e.2) ++ s.arrays.entries.map (fun e => .array e.1 e.2) ++
    s.qubits.toList.zipIdx.filterMap fun e => e.1.map (.qubit e.2)

private theorem toList_registerLine (e : Register × Int) :
    (registerLine e).toList = (Entry.register e.1 e.2).line ++ ['\n'] := by
  change ("REG " ++ e.1.text ++ " " ++ toString e.2 ++ "\n").toList = _
  simp [Entry.line, spaced]

private theorem toList_foldl_entryText (l : List (Option Int)) (line : String) :
    (l.foldl (fun line v => line ++ " " ++ entryText v) line).toList =
      line.toList ++ (l.map fun v => (entryText v).toList).flatMap (' ' :: ·) := by
  induction l generalizing line with
  | nil => simp
  | cons v l ih =>
    rw [List.foldl_cons, ih]
    simp

private theorem toList_arrayLine (e : Int × ArrayValues) :
    (arrayLine e).toList = (Entry.array e.1 e.2).line ++ ['\n'] := by
  rw [arrayLine, String.toList_append, toList_foldl_entryText]
  change ("ARRAY " ++ toString e.1).toList ++ _ ++ _ = _
  simp [Entry.line, spaced]

private theorem toList_qubitLine (e : Option Nat × Nat) :
    (qubitLine e).toList = (e.1.map (Entry.qubit e.2)).toList.flatMap fun q => q.line ++ ['\n'] := by
  obtain ⟨_ | p, v⟩ := e
  · rfl
  · change ("QUBIT " ++ toString v ++ " " ++ toString p ++ "\n").toList = _
    simp [Entry.line, spaced]

theorem toList_text (s : MemorySnapshot) : s.text.toList = (s.written.map Entry.line).flatMap (· ++ ['\n']) := by
  have hrow {α : Type} {f : α → String} {g : α → Entry} (h : ∀ a, (f a).toList = (g a).line ++ ['\n']) (l : List α) :
      (l.map f).flatMap String.toList = ((l.map g).map Entry.line).flatMap (· ++ ['\n']) := by
    simp [List.flatMap_map, h]
  have hqubits (l : List (Option Nat × Nat)) : (l.map qubitLine).flatMap String.toList =
      ((l.filterMap fun e => e.1.map (Entry.qubit e.2)).map Entry.line).flatMap (· ++ ['\n']) := by
    induction l with
    | nil => rfl
    | cons e l ih =>
      rw [List.map_cons, List.flatMap_cons, toList_qubitLine, ih, List.filterMap_cons]
      rcases e with ⟨_ | p, v⟩ <;> simp
  rw [text, String.toList_join, List.flatMap_append, List.flatMap_append, hrow toList_registerLine,
    hrow toList_arrayLine, hqubits, written, List.map_append, List.map_append, List.flatMap_append,
    List.flatMap_append]

private theorem foldlM_addLine {es : List Entry} (h : ∀ e ∈ es, e.Legible) (s : MemorySnapshot) (n : Nat) :
    (((es.map Entry.line).zipIdx n).map fun p => (p.2, p.1)).foldlM (fun s p => s.addLine p.1 p.2) s =
      .ok (es.foldl Entry.add s) := by
  induction es generalizing s n with
  | nil => rfl
  | cons e es ih =>
    rw [List.map_cons, List.zipIdx_cons, List.map_cons, List.foldlM_cons,
      Entry.addLine_line (h e (List.mem_cons_self ..))]
    exact ih (fun d hd => h d (List.mem_cons_of_mem _ hd)) _ _

/-- A snapshot whose numbers fit their words is read as its entries, put together in the order in which they stand. -/
theorem parse_text {s : MemorySnapshot} (h : ∀ e ∈ s.written, e.Legible) (app : Int) :
    parse app s.text.toList = .ok (s.written.foldl Entry.add (empty app)) := by
  have hlines : lines s.text.toList = s.written.map Entry.line := by
    rw [toList_text]
    refine lines_flatMap fun l hl => ?_
    obtain ⟨e, -, rfl⟩ := List.mem_map.1 hl
    exact e.newline_not_mem
  rw [parse, numberedLines, hlines, foldlM_addLine h]

/-! ### What the entries of a memory add up to -/

private theorem foldl_registers (l : List (Register × Int)) (s : MemorySnapshot) :
    (l.map fun e => Entry.register e.1 e.2).foldl Entry.add s = { s with registers := s.registers ++ l } := by
  induction l generalizing s with
  | nil => simp
  | cons e l ih =>
    rw [List.map_cons, List.foldl_cons, ih]
    simp [Entry.add]

private theorem foldl_arrays (l : List (Int × ArrayValues)) (s : MemorySnapshot) :
    (l.map fun e => Entry.array e.1 e.2).foldl Entry.add s =
      { s with arrays := l.foldl (fun m e => m.insert e.1 e.2) s.arrays } := by
  induction l generalizing s with
  | nil => rfl
  | cons e l ih =>
    rw [List.map_cons, List.foldl_cons, ih]
    rfl

private theorem foldl_qubits (es : List (Nat × Nat)) (s : MemorySnapshot) :
    (es.map fun e => Entry.qubit e.1 e.2).foldl Entry.add s =
      { s with qubits := es.foldl (fun qs e => setQubit qs e.1 e.2) s.qubits } := by
  induction es generalizing s with
  | nil => rfl
  | cons e es ih =>
    rw [List.map_cons, List.foldl_cons, ih]
    rfl

theorem getElem?_setQubit (qs : Array (Option Nat)) (virt phys u : Nat) :
    (setQubit qs virt phys)[u]?.join = if u = virt then some phys else qs[u]?.join := by
  unfold setQubit
  split
  · next h =>
    subst h
    rw [Array.getElem?_setIfInBounds_self_of_lt (by simp; omega)]
    rfl
  · next h =>
    rw [Array.getElem?_setIfInBounds_ne (Ne.symm h), Array.getElem?_append]
    split
    · rfl
    · next hu =>
      rw [Array.getElem?_eq_none (Nat.le_of_not_lt hu), Array.getElem?_replicate]
      split <;> rfl

/-- Qubits set one by one, each at its place in a list: the list where it has a qubit, and what was there elsewhere. -/
private theorem getElem?_foldl_setQubit (l : List (Option Nat)) (k : Nat) (qs : Array (Option Nat)) (u : Nat) :
    (((l.zipIdx k).filterMap fun e => e.1.map fun p => (e.2, p)).foldl (fun qs e => setQubit qs e.1 e.2) qs)[u]?.join =
      if k ≤ u then (l[u - k]?.join).or qs[u]?.join else qs[u]?.join := by
  induction l generalizing k qs with
  | nil => simp
  | cons q l ih =>
    rw [List.zipIdx_cons]
    rcases q with _ | p
    · rw [List.filterMap_cons_none rfl, ih]
      rcases Nat.lt_trichotomy u k with hu | rfl | hu
      · rw [if_neg (by omega), if_neg (by omega)]
      · rw [if_neg (by omega), if_pos (Nat.le_refl u), Nat.sub_self]
        rfl
      · rw [if_pos (by omega), if_pos (by omega), show u - k = u - (k + 1) + 1 by omega]
        rfl
    · simp only [List.filterMap_cons, Option.map_some, List.foldl_cons]
      rw [ih, getElem?_setQubit]
      rcases Nat.lt_trichotomy u k with hu | rfl | hu
      · rw [if_neg (by omega), if_neg (by omega), if_neg (by omega)]
      · rw [if_neg (by omega), if_pos rfl, if_pos (Nat.le_refl u), Nat.sub_self]
        rfl
      · rw [if_pos (by omega), if_neg (by omega), if_pos (by omega), show u - k = u - (k + 1) + 1 by omega]
        rfl

/-- The entries of a snapshot, put together: that snapshot again, but for unused room behind its last qubit. -/
theorem foldl_written {s : MemorySnapshot} (h : s.arrays.Ascending) (app : Int) :
    ∃ qs : Array (Option Nat), s.written.foldl Entry.add (empty app) = ⟨app, s.registers, s.arrays, qs⟩ ∧
      ∀ u : Nat, qs[u]?.join = s.qubits[u]?.join := by
  have hqubits : s.qubits.toList.zipIdx.filterMap (fun e => e.1.map (Entry.qubit e.2)) =
      (s.qubits.toList.zipIdx.filterMap fun e => e.1.map fun p => (e.2, p)).map fun e => .qubit e.1 e.2 := by
    rw [List.map_filterMap]
    simp only [Option.map_map]
    rfl
  have harrays : s.arrays.entries.foldl (fun a e => a.insert e.1 e.2) .empty = s.arrays :=
    SortedMap.Ascending.ofList_entries h
  have hadd : s.written.foldl Entry.add (empty app) = ⟨app, s.registers, s.arrays,
      (s.qubits.toList.zipIdx.filterMap fun e => e.1.map fun p => (e.2, p)).foldl (fun qs e => setQubit qs e.1 e.2) #[]⟩ := by
    simp only [written, hqubits, List.foldl_append, foldl_registers, foldl_arrays, foldl_qubits, empty, harrays,
      List.nil_append]
  refine ⟨_, hadd, fun u => ?_⟩
  rw [getElem?_foldl_setQubit]
  simp

private theorem lookup_filterMap (g : Register → Option Int) (l : List Register) (r : Register) :
    (l.filterMap fun a => (g a).map fun v => (a, v)).lookup r = if r ∈ l then g r else none := by
  induction l with
  | nil => rfl
  | cons a l ih =>
    by_cases hr : r = a
    · subst hr
      rw [if_pos (List.mem_cons_self ..)]
      rcases hg : g r with _ | v
      · rw [List.filterMap_cons_none (by simp [hg]), ih, hg, ite_self]
      · rw [List.filterMap_cons_some (by rw [hg]; rfl), List.lookup_cons_self]
    · have hmem : r ∈ a :: l ↔ r ∈ l := by simp [hr]
      simp only [hmem]
      rcases hg : g a with _ | v
      · rw [List.filterMap_cons_none (by simp [hg]), ih]
      · rw [List.filterMap_cons_some (by rw [hg]; rfl), List.lookup_cons, beq_false_of_ne hr]
        exact ih

/-- What a snapshot shows of a memory: all of it but the program counter, and of its qubits which are in use. -/
structure Shows (s : MemorySnapshot) (m : AppMemory) : Prop where
  appId : s.appId = m.appId
  register : ∀ r, s.register? r = (m.register r).toOption.join
  arrays : s.arrays = m.arrays
  qubit : ∀ virt : Nat, s.qubits[virt]?.join = m.phys? virt

end MemorySnapshot

theorem Register.mem_all {r : Register} : r ∈ Register.all ↔ r.Legible := by
  obtain ⟨g, i⟩ := r
  have hg : g ∈ RegisterGroup.all := by cases g <;> decide
  simp only [all, List.mem_flatMap, List.mem_map, List.mem_range, Register.mk.injEq, Legible]
  constructor
  · rintro ⟨-, -, n, hn, -, rfl⟩
    exact ⟨Int.natCast_nonneg n, Int.ofNat_lt.2 hn⟩
  · rintro ⟨h₀, h₁⟩
    exact ⟨g, hg, i.toNat, by omega, rfl, Int.toNat_of_nonneg h₀⟩

namespace AppMemory

variable {m : AppMemory}

/-- The registers of a snapshot are those that have a value. -/
theorem lookup_setRegisters (m : AppMemory) (r : Register) :
    m.setRegisters.lookup r = (m.register r).toOption.join := by
  have hset : m.setRegisters = Register.all.filterMap fun a =>
      ((m.register a).toOption.join).map fun v => (a, v) := by
    refine congrArg (Register.all.filterMap ·) (funext fun a => ?_)
    unfold register
    rcases a.slot? with _ | i
    · rfl
    · rfl
  rw [hset, MemorySnapshot.lookup_filterMap]
  split
  · rfl
  · next h =>
    have hslot : r.slot? = none := dif_neg fun hr => h (Register.mem_all.2 hr)
    unfold register
    rw [hslot]
    rfl

theorem Sized.legible (hm : m.Sized) : ∀ e ∈ m.snapshot.written, e.Legible := by
  intro e he
  obtain he | he := List.mem_append.1 he
  · obtain he | he := List.mem_append.1 he
    · obtain ⟨⟨r, v⟩, hr, rfl⟩ := List.mem_map.1 he
      obtain ⟨a, ha, hv⟩ := List.mem_filterMap.1 hr
      split at hv
      · next i hi =>
        obtain ⟨w, hw, he⟩ := Option.map_eq_some_iff.1 hv
        cases he
        exact ⟨Register.mem_all.1 ha, hm.registers i v hw⟩
      · exact nomatch hv
    · obtain ⟨⟨a, vs⟩, ha, rfl⟩ := List.mem_map.1 he
      have hget := hm.ascending.get?_of_mem ha
      exact ⟨hm.addresses a vs hget, hm.entries a vs hget⟩
  · obtain ⟨⟨q, v⟩, hq, hv⟩ := List.mem_filterMap.1 he
    obtain ⟨p, rfl, rfl⟩ := Option.map_eq_some_iff.1 hv
    have hget : m.qubits[v]? = some (some p) := by
      rw [← Array.getElem?_toList]
      exact List.mk_mem_zipIdx_iff_getElem?.1 hq
    have hphys : m.phys? v = some p := phys?_eq_some.2 hget
    exact ⟨Nat.lt_of_lt_of_le (lt_size_of_phys? hphys) hm.virtuals, hm.physicals v p hphys⟩

/-- The entries of a snapshot, put together, show the memory it was taken of. -/
theorem Sized.shows (hm : m.Sized) :
    (m.snapshot.written.foldl MemorySnapshot.Entry.add (.empty m.appId)).Shows m := by
  obtain ⟨qs, hs, hqs⟩ := MemorySnapshot.foldl_written (s := m.snapshot) hm.ascending m.appId
  rw [hs]
  exact ⟨rfl, m.lookup_setRegisters, rfl, hqs⟩

/-- What is read from the text of a memory's snapshot shows that memory. -/
theorem Reached.parse_snapshot (hm : m.Reached) :
    ∃ s, MemorySnapshot.parse m.appId m.snapshot.text.toList = .ok s ∧ s.Shows m :=
  ⟨_, MemorySnapshot.parse_text hm.sized.legible m.appId, hm.sized.shows⟩

end AppMemory

end QuantumNode
