import QuantumNode.Proofs.Memory.Row
import QuantumNode.Proofs.Number.Word
import QuantumNode.Proofs.Program.Literal
import QuantumNode.Proofs.Solo.Bench

/-! Requests for pairs as the assembler lays them out and as the pair service reads them. -/
namespace QuantumNode

open Node Work

variable {n m : Nat}

namespace Assembler

/-! ### Virtual ids -/

/-- The virtual ids that are not in use. -/
def available (a : Assembler) : List Int := ((List.range a.idLimit).map Int.ofNat).filter (· ∉ a.used)

theorem nodup_ids (k : Nat) : ((List.range k).map Int.ofNat).Nodup :=
  List.pairwise_map.2 (List.nodup_range.imp fun h h' => h (Int.ofNat.inj h'))

theorem available_nodup (a : Assembler) : a.available.Nodup := (nodup_ids _).filter _

/-- Among more ids than are in use, as many as asked for are not in use. -/
theorem length_unused_below (a : Assembler) (count : Nat) :
    count ≤ (((List.range (a.used.length + count)).map Int.ofNat).filter (· ∉ a.used)).length := by
  let ids := (List.range (a.used.length + count)).map Int.ofNat
  have hsplit : (ids.filter (· ∈ a.used)).length + (ids.filter (· ∉ a.used)).length = a.used.length + count := by
    have h := List.length_eq_length_filter_add (l := ids) (fun v => decide (v ∈ a.used))
    simp only [ids, List.length_map, List.length_range] at h
    simpa [ids] using h.symm
  have hused : (ids.filter (· ∈ a.used)).length ≤ a.used.length := by
    apply List.Subperm.length_le
    apply ((nodup_ids _).filter _).subperm
    intro v hv
    simpa using (List.mem_filter.1 hv).2
  change count ≤ (ids.filter (· ∉ a.used)).length
  omega

/-- The ids that are taken are the lowest ones that are not in use. -/
theorem unused_eq (a : Assembler) (count : Nat) : a.unused count = a.available.take count := by
  rw [unused, available]
  by_cases h : a.idLimit ≤ a.used.length + count
  · rw [Nat.min_eq_left h]
  · obtain ⟨d, hd⟩ := Nat.exists_eq_add_of_le (Nat.le_of_not_le h)
    rw [Nat.min_eq_right (Nat.le_of_not_le h), hd, @List.range_add (a.used.length + count) d, List.map_append,
      List.filter_append, List.take_append_of_le_length (length_unused_below a count)]

/-- The ids that are taken for a number of pairs. -/
structure Reserves (a : Assembler) (count : Nat) (ids : List Int) (a' : Assembler) : Prop where
  length : ids.length = count
  nodup : ids.Nodup
  unused : ∀ v ∈ ids, v ∉ a.used ∧ 0 ≤ v ∧ v < a.maxQubits
  used : a'.used = ids ++ a.used

theorem length_unused {a : Assembler} {count : Nat} (h : count ≤ a.available.length) : (a.unused count).length = count := by
  rw [unused_eq, List.length_take, Nat.min_eq_left h]

theorem reserves_unused {a a' : Assembler} {count : Nat} (h : count ≤ a.available.length)
    (hused : a'.used = a.unused count ++ a.used) : a.Reserves count (a.unused count) a' where
  length := length_unused h
  nodup := by
    rw [unused_eq]
    exact a.available_nodup.sublist (List.take_sublist ..)
  unused v hv := by
    obtain ⟨hfree, u, rfl, hu⟩ := mem_unused hv
    exact ⟨hfree, Int.natCast_nonneg u, Int.ofNat_lt.2 hu⟩
  used := hused

/-! ### What the calls come to -/

/-- The ids of kept halves, as entries of an array. -/
def idEntries (ids : List Int) : List IndexedValue := ArrayValues.consecutive 0 ids

theorem idEntries_fit {ids : List Int} {e : IndexedValue} (he : e ∈ idEntries ids) : e.1 < ids.length := by
  obtain ⟨x, hx, rfl⟩ := List.mem_map.1 he
  obtain ⟨-, hlt, -⟩ := List.mem_zipIdx hx
  simpa using hlt

/-- The array of the ids holds each at its place. -/
theorem array_idEntries {ids : List Int} {count : Nat} (h : ids.length = count) :
    Declaration.array ⟨count, idEntries ids⟩ = (ids.map some).toArray := by
  subst h
  apply Array.ext_getElem?
  intro i
  by_cases hi : i < ids.length
  · rw [Declaration.array_getElem? (ArrayValues.consecutive_nodup 0 ids) hi]
    simp [idEntries, ArrayValues.lookup_consecutive, hi]
  · rw [Array.getElem?_eq_none (by simpa using hi), Array.getElem?_eq_none (by simpa using hi)]

/-- The arguments of a create, those that are left out excepted. -/
def argumentEntries (kind : PairKind) (count : Nat) (o : PairOptions) : List IndexedValue :=
  [(0, kind.code), (1, (count : Int))]
    ++ (if 0 < o.minFidelity then [(2, o.minFidelity)] else [])
    ++ (if kind = .measure then [(3, o.localBasis.code), (4, o.remoteBasis.code)] else [])
    ++ (if 0 < o.maxTime then [(9, word o.maxTime)] else [])

theorem arguments_eq (a : Assembler) (kind : PairKind) {count : Nat} (hcount : Word.fitsSigned64 count = true)
    (o : PairOptions) : a.arguments kind count o = (a.nextArray, { a with nextArray := a.nextArray + 1 }.emit
      (Declaration.code ⟨rowLength, argumentEntries kind count o⟩ a.nextArray)) := by
  have hlength : word rowLength = rowLength := by decide
  have hword : word count = count := Word.signed64_of_fits hcount
  by_cases hf : 0 < o.minFidelity
  all_goals by_cases hk : kind = .measure
  all_goals by_cases ht : 0 < o.maxTime
  all_goals simp [arguments, newArray, storeLiteral, emit, Declaration.code, argumentEntries, entryCode, hlength, hword,
    hf, hk, ht]

theorem newArray_eq (a : Assembler) {length : Nat} (hlength : Word.fitsSigned64 length = true) :
    a.newArray length = (a.nextArray, { a with nextArray := a.nextArray + 1 }.emit
      (Declaration.code ⟨length, []⟩ a.nextArray)) := by
  have hword : word length = length := Word.signed64_of_fits hlength
  simp [newArray, Declaration.code, entryCode, hword]

/-- Too few ids are left, or those that are taken stand in an array. -/
theorem reserve_eq (a : Assembler) {count : Nat} (hcount : Word.fitsSigned64 count = true) :
    a.reserve count = if a.available.length < count then .error (.cannotHold count a.maxQubits)
      else .ok (a.unused count, a.nextArray, { a.addUsed (a.unused count) with nextArray := a.nextArray + 1 }.emit
        (Declaration.code ⟨count, idEntries (a.unused count)⟩ a.nextArray)) := by
  have hlength : (a.unused count).length < count ↔ a.available.length < count := by
    rw [unused_eq, List.length_take]
    omega
  have hstore : ∀ (b : Assembler) (address : Int) (ids : List Int),
      ids.zipIdx.foldl (fun b x => b.storeLiteral address x.2 x.1) b = b.emit (entryCode address (idEntries ids)) := by
    intro b address ids
    rw [← foldl_storeLiteral, idEntries, ArrayValues.consecutive, List.foldl_map]
    simp only [Nat.zero_add]
  rw [reserve]
  dsimp only
  by_cases h : a.available.length < count
  · rw [if_pos h, if_pos (hlength.2 h)]
  · rw [if_neg h, if_neg (hlength.not.2 h), newArray_eq _ hcount]
    dsimp only
    rw [hstore, emit_emit]
    rfl

/-- The wait for all results. -/
def waitCode (results : Int) (count : Nat) : Instruction :=
  .waitAll ⟨results, .literal 0, .literal (word (resultLength count))⟩

/-- Ten entries for each pair. -/
theorem resultLength_of_fits {count : Nat} (hcount : Word.fitsSigned64 (10 * count) = true) :
    resultLength count = 10 * count := by
  rw [Word.fitsSigned64_iff] at hcount
  rw [resultLength, rowLength, Word.size64]
  omega

/-- What a call for pairs leaves: the arrays that it declares, its request and the wait for its results stand behind the
rest, and each array has an address of its own. -/
def demand (a : Assembler) (ds : List Declaration) (i : Instruction) (results : Int) (count : Nat) : Assembler :=
  { a with nextArray := a.nextArray + ds.length }.emit (Declaration.codeAll ds a.nextArray ++ [i, waitCode results count])

section Calls

variable (a : Assembler) (remote socket : Int) {count : Nat} (o : PairOptions)

theorem count_fits (hcount : Word.fitsSigned64 (10 * count) = true) : Word.fitsSigned64 count = true := by
  rw [Word.fitsSigned64_iff] at hcount ⊢
  omega

theorem results_fit (hcount : Word.fitsSigned64 (10 * count) = true) : Word.fitsSigned64 (10 * count : Nat) = true := by
  simpa using hcount

/-- The arrays of a call are those of its ids, of its arguments and of its results, as far as it has them. -/
theorem createKeep_eq (hcount : Word.fitsSigned64 (10 * count) = true) :
    a.createKeep remote socket count o = if a.available.length < count then .error (.cannotHold count a.maxQubits)
      else .ok (⟨a.unused count, a.nextArray + 2⟩, (a.addUsed (a.unused count)).demand
        [⟨count, idEntries (a.unused count)⟩, ⟨rowLength, argumentEntries .keep count o⟩, ⟨10 * count, []⟩]
        (.createPairs (.literal remote) (.literal socket) (.literal a.nextArray) (.literal (a.nextArray + 1))
          (.literal (a.nextArray + 2))) (a.nextArray + 2) count) := by
  have hlength := resultLength_of_fits hcount
  have hresults := fun b : Assembler => b.newArray_eq (results_fit hcount)
  rw [createKeep, reserve_eq a (count_fits hcount)]
  split
  · rfl
  · simp [arguments_eq _ _ (count_fits hcount), hresults, bind, Except.bind, pure, Except.pure, emit, wait, demand,
      Declaration.codeAll, hlength, waitCode, addUsed, Int.add_assoc]

theorem receiveKeep_eq (hcount : Word.fitsSigned64 (10 * count) = true) :
    a.receiveKeep remote socket count = if a.available.length < count then .error (.cannotHold count a.maxQubits)
      else .ok (⟨a.unused count, a.nextArray + 1⟩, (a.addUsed (a.unused count)).demand
        [⟨count, idEntries (a.unused count)⟩, ⟨10 * count, []⟩]
        (.receivePairs (.literal remote) (.literal socket) (.literal a.nextArray) (.literal (a.nextArray + 1)))
        (a.nextArray + 1) count) := by
  have hlength := resultLength_of_fits hcount
  have hresults := fun b : Assembler => b.newArray_eq (results_fit hcount)
  rw [receiveKeep, reserve_eq a (count_fits hcount)]
  split
  · rfl
  · simp [hresults, bind, Except.bind, pure, Except.pure, emit, wait, demand, Declaration.codeAll, hlength, waitCode,
      addUsed, Int.add_assoc]

theorem createMeasure_eq (hcount : Word.fitsSigned64 (10 * count) = true) :
    a.createMeasure remote socket count o = (⟨count, a.nextArray + 1⟩, a.demand
      [⟨rowLength, argumentEntries .measure count o⟩, ⟨10 * count, []⟩]
      (.createPairs (.literal remote) (.literal socket) (.literal (-1)) (.literal a.nextArray)
        (.literal (a.nextArray + 1))) (a.nextArray + 1) count) := by
  have hlength := resultLength_of_fits hcount
  have hresults := fun b : Assembler => b.newArray_eq (results_fit hcount)
  simp [createMeasure, arguments_eq _ _ (count_fits hcount), hresults, emit, wait, demand, Declaration.codeAll, hlength,
    waitCode, Int.add_assoc]

theorem receiveMeasure_eq (hcount : Word.fitsSigned64 (10 * count) = true) :
    a.receiveMeasure remote socket count = (⟨count, a.nextArray⟩, a.demand [⟨10 * count, []⟩]
      (.receivePairs (.literal remote) (.literal socket) (.literal (-1)) (.literal a.nextArray)) a.nextArray count) := by
  have hlength := resultLength_of_fits hcount
  have hresults := fun b : Assembler => b.newArray_eq (results_fit hcount)
  simp [receiveMeasure, hresults, emit, wait, demand, Declaration.codeAll, hlength, waitCode]

end Calls

end Assembler

/-- The fields of options hold what their types do: a fidelity of 32 bits, a time of 64, and bases that have a name. -/
structure PairOptions.Typed (o : PairOptions) : Prop where
  fidelity : Word.fitsSigned32 o.minFidelity = true
  time : o.maxTime < Word.size64
  localBasis : ∀ c, o.localBasis ≠ .other c
  remoteBasis : ∀ c, o.remoteBasis ≠ .other c

namespace Pairing

open Assembler

/-! ### What the pair service reads -/

/-- An argument is what was put at its place, if anything was. -/
theorem argument_of_declaration {mem : AppMemory} {address : Int} {d : Declaration}
    (hd : (d.entries.map Prod.fst).Nodup) (ha : mem.arrays.get? address = some d.array) {i : Nat} (hi : i < d.length) :
    argument mem address i = .ok (d.entries.lookup i) := by
  have harray : mem.array address = .ok d.array := by
    simp only [AppMemory.array, ha]
  have hget := Declaration.array_getElem? hd hi
  simp [argument, AppMemory.arrayLength, AppMemory.arrayValue, harray, hget, bind, Except.bind, pure, Except.pure,
    Nat.not_le.2 hi]

theorem argumentEntries_nodup (kind : PairKind) (count : Nat) (o : PairOptions) :
    ((argumentEntries kind count o).map Prod.fst).Nodup := by
  rw [argumentEntries]
  split_ifs
  all_goals simp

/-- A basis that has a name is read from its code. -/
theorem basisOf_code {b : Basis} (hb : ∀ c, b ≠ .other c) : basisOf b.code = .ok b := by
  cases b with
  | z | x | y => rfl
  | other c => exact absurd rfl (hb c)

/-- What is asked of the link for each pair. Only a request to measure names bases. -/
def wanted (kind : PairKind) (o : PairOptions) : PairRequest :=
  ⟨kind, max 0 o.minFidelity, if kind = .measure then o.localBasis else .z,
    if kind = .measure then o.remoteBasis else .z, o.maxTime⟩

section Arguments

variable {kind : PairKind} {count : Nat} {o : PairOptions}

theorem lookup_fidelity :
    (argumentEntries kind count o).lookup 2 = if 0 < o.minFidelity then some o.minFidelity else none := by
  rw [argumentEntries]
  split_ifs
  all_goals rfl

theorem lookup_localBasis :
    (argumentEntries kind count o).lookup 3 = if kind = .measure then some o.localBasis.code else none := by
  rw [argumentEntries]
  split_ifs
  all_goals rfl

theorem lookup_remoteBasis :
    (argumentEntries kind count o).lookup 4 = if kind = .measure then some o.remoteBasis.code else none := by
  rw [argumentEntries]
  split_ifs
  all_goals rfl

theorem lookup_time :
    (argumentEntries kind count o).lookup 9 = if 0 < o.maxTime then some (word o.maxTime) else none := by
  rw [argumentEntries]
  split_ifs
  all_goals rfl

theorem read_fidelity (ho : o.Typed) :
    Word.signed32 (((argumentEntries kind count o).lookup 2).getD 0) = max 0 o.minFidelity := by
  rw [lookup_fidelity]
  by_cases h : 0 < o.minFidelity
  · rw [if_pos h, Option.getD_some, Word.signed32_of_fits ho.fidelity, Int.max_eq_right (Int.le_of_lt h)]
  · rw [if_neg h, Option.getD_none, Int.max_eq_left (Int.not_lt.1 h)]
    rfl

theorem read_localBasis (ho : o.Typed) :
    basisOf (((argumentEntries kind count o).lookup 3).getD 0) = .ok (if kind = .measure then o.localBasis else .z) := by
  rw [lookup_localBasis]
  split
  · exact basisOf_code ho.localBasis
  · rfl

theorem read_remoteBasis (ho : o.Typed) :
    basisOf (((argumentEntries kind count o).lookup 4).getD 0) = .ok (if kind = .measure then o.remoteBasis else .z) := by
  rw [lookup_remoteBasis]
  split
  · exact basisOf_code ho.remoteBasis
  · rfl

/-- A time that does not fit a signed word is stored as a negative one, and read back as it was. -/
theorem read_time (ho : o.Typed) : Word.unsigned64 (((argumentEntries kind count o).lookup 9).getD 0) = o.maxTime := by
  rw [lookup_time]
  by_cases h : 0 < o.maxTime
  · rw [if_pos h, Option.getD_some, word, Word.unsigned64_signed64 ho.time]
  · rw [if_neg h, Nat.eq_zero_of_not_pos h]
    rfl

/-- The arguments that the assembler writes are those that the pair service reads. -/
theorem readArguments_exec {r : EntanglementRequest} {w : Working (Node n m) n m} {mem : AppMemory}
    (hw : w.part.apps.get? r.app = some mem)
    (ha : mem.arrays.get? r.argumentArray = some (Declaration.array ⟨rowLength, argumentEntries kind count o⟩))
    (hkind : kind = .keep ∨ kind = .measure) (ho : o.Typed) :
    (readArguments r).exec w = (.ok ⟨r, wanted kind o, count⟩, w) := by
  have harg : ∀ i < rowLength, argument mem r.argumentArray i = .ok ((argumentEntries kind count o).lookup i) :=
    fun i hi => argument_of_declaration (argumentEntries_nodup ..) ha hi
  have hread : (kindOf kind.code : NodeWork n m PairKind).exec w = (.ok kind, w) := by
    rcases hkind with rfl | rfl
    · rfl
    · rfl
  have h₀ : (argumentEntries kind count o).lookup 0 = some kind.code := rfl
  have h₁ : (argumentEntries kind count o).lookup 1 = some (count : Int) := rfl
  have hmem : (memory r.app).exec w = (.ok mem, w) := by
    rw [exec_memory, hw]
  simp only [readArguments, exec_bind, hmem, exec_ofExcept, harg 0 (by decide), harg 1 (by decide), harg 2 (by decide),
    harg 3 (by decide), harg 4 (by decide), harg 9 (by decide), h₀, h₁, hread, read_fidelity ho, read_localBasis ho,
    read_remoteBasis ho, read_time ho, exec_pure, wanted]

end Arguments

end Pairing

namespace Execution

open Assembler

variable {p : ProcessId} {s : Subroutine} {mem : AppMemory} {a : Assembler}

/-! ### What is submitted -/

/-- With this memory, whatever else there is on the node, the instruction submits the request. -/
def Submits (app : Int) (i : Instruction) (mem : AppMemory) (r : EntanglementRequest) : Prop :=
  ∀ (n m : Nat) (w : Working (Node n m) n m), w.part.apps.get? app = some mem →
    (classical app i).exec w = (requestPairs r).exec w

theorem createPairs_submits (app remote socket qubits arguments results : Int) (mem : AppMemory) :
    Submits app (.createPairs (.literal remote) (.literal socket) (.literal qubits) (.literal arguments)
      (.literal results)) mem
      ⟨.create, app, Word.signed32 remote, Word.signed32 socket, qubits, arguments, results⟩ := by
  intro n m w hw
  have hresolve : ∀ x : Int, (resolve app (.literal x)).exec w = (.ok x, w) := fun x => exec_resolve_of_ok hw rfl
  simp only [classical, createPairs, exec_bind, hresolve]

theorem receivePairs_submits (app remote socket qubits results : Int) (mem : AppMemory) :
    Submits app (.receivePairs (.literal remote) (.literal socket) (.literal qubits) (.literal results)) mem
      ⟨.receive, app, Word.signed32 remote, Word.signed32 socket, qubits, -1, results⟩ := by
  intro n m w hw
  have hresolve : ∀ x : Int, (resolve app (.literal x)).exec w = (.ok x, w) := fun x => exec_resolve_of_ok hw rfl
  simp only [classical, receivePairs, exec_bind, hresolve]

/-- Executing a call for pairs comes to its request, with its arrays in the memory. -/
theorem demand_brings {ds : List Declaration} {i : Instruction} {results : Int} {count : Nat}
    (hpre : (a.demand ds i results count).instructions <+: s.instructions) (hsize : s.size < Word.size64)
    (hpc : mem.pc = a.size) (hds : ∀ d ∈ ds, d.Fits) :
    Brings n m p s mem fun mem' => s.instructions[mem'.pc]? = some i ∧ Declaration.Declared ds a.nextArray mem mem' := by
  have hlists : Lists s mem.pc (Declaration.codeAll ds a.nextArray ++ [i, waitCode results count]) := by
    rw [hpc]
    exact lists_of_prefix hpre
  apply (Declaration.codeAll_brings hsize hds hlists.left).mono
  intro mem' h
  exact ⟨h.pc ▸ hlists.right.head, h⟩

end Execution

/-- What has been assembled since `a`, at its place in any subroutine, is executed from any memory up to an instruction
that submits a request; of the request and of the memory holds what is said. -/
def Assembler.Requests (a a' : Assembler) (Φ : EntanglementRequest → AppMemory → Prop) : Prop :=
  ∀ (n m : Nat) (p : ProcessId) (s : Subroutine) (mem : AppMemory), a'.instructions <+: s.instructions →
    s.size < Word.size64 → mem.pc = a.size →
      Execution.Brings n m p s mem fun mem' => ∃ i r, s.instructions[mem'.pc]? = some i ∧
        Execution.Submits s.appId i mem' r ∧ r.app = s.appId ∧ Φ r mem'

/-- A request as the caller has made it, with room for its results and nothing in it. -/
structure EntanglementRequest.Prepared (role : PairRole) (remote socket results : Int) (count : Nat)
    (r : EntanglementRequest) (mem : AppMemory) : Prop where
  role : r.role = role
  remote : r.remote = Word.signed32 remote
  socket : r.socket = Word.signed32 socket
  resultArray : r.resultArray = results
  empty : mem.arrays.get? results = some (Array.replicate (10 * count) none)

/-- The virtual ids for a request stand in its array. -/
def EntanglementRequest.Names (r : EntanglementRequest) (mem : AppMemory) (ids : List Int) : Prop :=
  mem.arrays.get? r.qubitArray = some (ids.map some).toArray

/-- The pair service reads the arguments of a request, as long as their array stays. -/
def EntanglementRequest.ReadsAs (r : EntanglementRequest) (mem : AppMemory) (wanted : PairRequest) (count : Nat) : Prop :=
  ∀ (n m : Nat) (w : Working (Node n m) n m) (mem' : AppMemory), w.part.apps.get? r.app = some mem' →
    mem'.arrays.get? r.argumentArray = mem.arrays.get? r.argumentArray →
      (Pairing.readArguments r).exec w = (.ok ⟨r, wanted, count⟩, w)

/-! ### Where the results of a pair are looked for -/

/-- The futures of kept pairs name what was written for a pair. -/
structure KeptPairs.Shows (p : KeptPairs) (k : Nat) (pair : Pair) (mem : AppMemory) : Prop where
  bellIndex : mem.reading (p.bellIndex k) = .ok (some pair.bellIndex)
  sequence : mem.reading (p.sequence k) = .ok (some pair.sequence)

/-- The futures of measured pairs name what was written for a pair. -/
structure MeasuredPairs.Shows (p : MeasuredPairs) (k : Nat) (pair : Pair) (mem : AppMemory) : Prop where
  bellIndex : mem.reading (p.bellIndex k) = .ok (some pair.bellIndex)
  outcome : ∀ rd, pair.kind ≠ .keep → pair.reading = some rd → mem.reading (p.outcome k) = .ok (some rd.outcome)
  basis : ∀ rd, pair.kind ≠ .keep → pair.reading = some rd → mem.reading (p.basis k) = .ok (some rd.basis.code)

/-- The host reads an entry as it stands in its array. -/
theorem AppMemory.reading_eq_of_getElem? {mem mem' : AppMemory} {a i : Int} {vs vs' : ArrayValues}
    (h : mem.arrays.get? a = some vs) (h' : mem'.arrays.get? a = some vs') (hi : 0 ≤ i → vs'[i.toNat]? = vs[i.toNat]?) :
    mem'.reading ⟨a, i⟩ = mem.reading ⟨a, i⟩ := by
  simp only [reading, MemorySnapshot.arrayValue, snapshot, h, h']
  split
  · rw [hi ‹_›]
  · rfl

namespace Pairing

variable {r : EntanglementRequest} {count k : Nat} {w : Working (Node n m) n m} {mem : AppMemory} {vs : ArrayValues}

/-- The row of a pair is written where its futures look for it, and everything else is read as before. -/
theorem writeRow_shows (hk : k < count) (pair : Pair) (virt : Option Int) (hw : w.part.apps.get? r.app = some mem)
    (ha : mem.arrays.get? r.resultArray = some vs) (hvs : vs.size = 10 * count) :
    Attains (writeRow r k (resultRow r pair virt)) w fun _ w' => ∃ mem', w'.part.apps.get? r.app = some mem' ∧
      (∀ p : KeptPairs, p.resultArray = r.resultArray → p.Shows k pair mem') ∧
      (∀ p : MeasuredPairs, p.resultArray = r.resultArray → p.Shows k pair mem') ∧
      ∀ f : Future, (f.address = r.resultArray → f.index < 10 * k ∨ 10 * k + 10 ≤ f.index) →
        mem'.reading f = mem.reading f := by
  have hlength := length_resultRow r pair virt
  have hfit : rowLength * k + (resultRow r pair virt).length ≤ vs.size := by
    rw [hlength, hvs, rowLength]
    omega
  apply (writeRow_attains r k hw ha hfit).mono
  rintro _ w' ⟨mem', hw', hm⟩
  have hget : ∀ j, (vs.putAll (rowEntries k (resultRow r pair virt)))[j]? =
      vs[j]?.map fun v => (if 10 * k ≤ j then (resultRow r pair virt)[j - 10 * k]? else none).or v := by
    intro j
    rw [rowEntries, ArrayValues.putAll_getElem? (ArrayValues.consecutive_nodup ..), ArrayValues.lookup_consecutive, rowLength]
  have hentry : ∀ (b : Int) (i : Nat) (v : Int), b = r.resultArray → (resultRow r pair virt)[i]? = some v →
      mem'.reading ⟨b, 10 * k + i⟩ = .ok (some v) := by
    rintro _ i v rfl hv
    have hi : i < 10 := by
      have := (List.getElem?_eq_some_iff.1 hv).1
      rwa [hlength] at this
    have hlt : 10 * k + i < vs.size := by omega
    apply AppMemory.reading_of_get? (k := 10 * k + i) hm.array
    rw [hget, if_pos (Nat.le_add_right ..), Nat.add_sub_cancel_left, hv, Array.getElem?_eq_getElem hlt]
    rfl
  obtain ⟨hbell, hseq⟩ := resultRow_pair r pair virt
  refine ⟨mem', hw', fun p hp => ?_, fun p hp => ?_, fun f hf => ?_⟩
  · exact ⟨hentry _ 9 _ hp hbell, hentry _ 4 _ hp hseq⟩
  · refine ⟨hentry _ 9 _ hp hbell, fun rd hkind hr => ?_, fun rd hkind hr => ?_⟩
    · exact hentry _ 2 _ hp (resultRow_reading r hkind hr virt).1
    · exact hentry _ 3 _ hp (resultRow_reading r hkind hr virt).2
  · obtain ⟨a, i⟩ := f
    by_cases hfa : a = r.resultArray
    · subst hfa
      apply AppMemory.reading_eq_of_getElem? ha hm.array
      intro hi
      have hout := hf rfl
      rw [hget]
      have hnone : (if 10 * k ≤ i.toNat then (resultRow r pair virt)[i.toNat - 10 * k]? else none) = none := by
        split
        · apply List.getElem?_eq_none
          rw [hlength, rowLength]
          dsimp only at hout
          omega
        · rfl
      simp [hnone]
    · exact AppMemory.reading_congr (hm.others a hfa)

end Pairing

namespace Assembler

open Execution

/-! ### The calls -/

section Requests

variable {a : Assembler} {remote socket : Int} {count : Nat} {o : PairOptions}

/-- A call whose instruction submits a request with its arrays in the memory. -/
theorem demand_requests {b : Assembler} (hb : b.instructions = a.instructions) {ds : List Declaration} {i : Instruction}
    {results : Int} (hds : ∀ d ∈ ds, d.Fits) {Φ : EntanglementRequest → AppMemory → Prop}
    (h : ∀ (app : Int) (mem mem' : AppMemory), Declaration.Declared ds b.nextArray mem mem' →
      ∃ r, Submits app i mem' r ∧ r.app = app ∧ Φ r mem') :
    a.Requests (b.demand ds i results count) Φ := by
  intro n m p s mem hpre hsize hpc
  have hsizes : mem.pc = b.size := by
    rw [hpc, size, size, hb]
  apply (demand_brings hpre hsize hsizes hds).mono
  rintro mem' ⟨hi, hdeclared⟩
  obtain ⟨r, hsubmits, happ, hΦ⟩ := h s.appId mem mem' hdeclared
  exact ⟨i, r, hi, hsubmits, happ, hΦ⟩

theorem fits_nil (length : Nat) : Declaration.Fits ⟨length, []⟩ := fun _ h => nomatch h

theorem fits_arguments (kind : PairKind) : Declaration.Fits ⟨rowLength, argumentEntries kind count o⟩ := by
  intro e he
  change e ∈ argumentEntries kind count o at he
  rw [argumentEntries] at he
  split_ifs at he
  all_goals
    simp only [List.cons_append, List.nil_append, List.append_nil, List.mem_cons, List.not_mem_nil, or_false] at he
    rw [rowLength]
    grind

theorem fits_ids (h : count ≤ a.available.length) : Declaration.Fits ⟨count, idEntries (a.unused count)⟩ := by
  intro e he
  have hlt := idEntries_fit he
  rwa [length_unused h] at hlt

theorem readsAs {r : EntanglementRequest} {mem : AppMemory} {kind : PairKind}
    (ha : mem.arrays.get? r.argumentArray = some (Declaration.array ⟨rowLength, argumentEntries kind count o⟩))
    (hkind : kind = .keep ∨ kind = .measure) (ho : o.Typed) : r.ReadsAs mem (Pairing.wanted kind o) count :=
  fun _ _ _ _ hw hsame => Pairing.readArguments_exec hw (hsame.trans ha) hkind ho

variable (hcount : Word.fitsSigned64 (10 * count) = true)
include hcount

theorem createKeep_requests (ho : o.Typed) {k : KeptPairs} {a' : Assembler}
    (h : a.createKeep remote socket count o = .ok (k, a')) :
    a.Reserves count k.qubits a' ∧ a.Requests a' fun r mem => r.Prepared .create remote socket k.resultArray count mem ∧
      r.Names mem k.qubits ∧ r.ReadsAs mem (Pairing.wanted .keep o) count := by
  rw [createKeep_eq a remote socket o hcount] at h
  split at h
  · exact nomatch h
  · rename_i hle
    have hle := Nat.le_of_not_lt hle
    cases h
    refine ⟨reserves_unused hle rfl, demand_requests rfl ?_ fun app mem mem' hd => ?_⟩
    · simp only [List.mem_cons, List.not_mem_nil, or_false]
      rintro d (rfl | rfl | rfl)
      · exact fits_ids hle
      · exact fits_arguments _
      · exact fits_nil _
    · have hids := hd.arrays 0 _ rfl
      rw [array_idEntries (length_unused hle)] at hids
      refine ⟨_, createPairs_submits app remote socket a.nextArray (a.nextArray + 1) (a.nextArray + 2) mem', rfl,
        ⟨rfl, rfl, rfl, rfl, hd.arrays 2 _ rfl⟩, ?_, readsAs (hd.arrays 1 _ rfl) (.inl rfl) ho⟩
      simpa [EntanglementRequest.Names, addUsed] using hids

theorem receiveKeep_requests {k : KeptPairs} {a' : Assembler} (h : a.receiveKeep remote socket count = .ok (k, a')) :
    a.Reserves count k.qubits a' ∧ a.Requests a' fun r mem => r.Prepared .receive remote socket k.resultArray count mem ∧
      r.Names mem k.qubits := by
  rw [receiveKeep_eq a remote socket hcount] at h
  split at h
  · exact nomatch h
  · rename_i hle
    have hle := Nat.le_of_not_lt hle
    cases h
    refine ⟨reserves_unused hle rfl, demand_requests rfl ?_ fun app mem mem' hd => ?_⟩
    · simp only [List.mem_cons, List.not_mem_nil, or_false]
      rintro d (rfl | rfl)
      · exact fits_ids hle
      · exact fits_nil _
    · have hids := hd.arrays 0 _ rfl
      rw [array_idEntries (length_unused hle)] at hids
      refine ⟨_, receivePairs_submits app remote socket a.nextArray (a.nextArray + 1) mem', rfl,
        ⟨rfl, rfl, rfl, rfl, hd.arrays 1 _ rfl⟩, ?_⟩
      simpa [EntanglementRequest.Names, addUsed] using hids

theorem createMeasure_requests (ho : o.Typed) :
    a.Requests (a.createMeasure remote socket count o).2 fun r mem =>
      r.Prepared .create remote socket (a.createMeasure remote socket count o).1.resultArray count mem ∧
        r.ReadsAs mem (Pairing.wanted .measure o) count := by
  rw [createMeasure_eq a remote socket o hcount]
  refine demand_requests rfl ?_ fun app mem mem' hd => ?_
  · simp only [List.mem_cons, List.not_mem_nil, or_false]
    rintro d (rfl | rfl)
    · exact fits_arguments _
    · exact fits_nil _
  · have hargs := hd.arrays 0 _ rfl
    rw [Int.natCast_zero, Int.add_zero] at hargs
    exact ⟨_, createPairs_submits app remote socket (-1) a.nextArray (a.nextArray + 1) mem', rfl,
      ⟨rfl, rfl, rfl, rfl, hd.arrays 1 _ rfl⟩, readsAs hargs (.inr rfl) ho⟩

theorem receiveMeasure_requests :
    a.Requests (a.receiveMeasure remote socket count).2 fun r mem =>
      r.Prepared .receive remote socket (a.receiveMeasure remote socket count).1.resultArray count mem := by
  rw [receiveMeasure_eq a remote socket hcount]
  refine demand_requests rfl ?_ fun app mem mem' hd => ?_
  · simp only [List.mem_cons, List.not_mem_nil, or_false]
    rintro d rfl
    exact fits_nil _
  · have hresults := hd.arrays 0 _ rfl
    rw [Int.natCast_zero, Int.add_zero] at hresults
    exact ⟨_, receivePairs_submits app remote socket (-1) a.nextArray mem', rfl, ⟨rfl, rfl, rfl, rfl, hresults⟩⟩

/-- Pairs can be kept exactly if there are as many virtual ids that are not in use. -/
theorem keep_fails_iff : (a.available.length < count →
      a.createKeep remote socket count o = .error (.cannotHold count a.maxQubits) ∧
      a.receiveKeep remote socket count = .error (.cannotHold count a.maxQubits)) ∧
    (count ≤ a.available.length → (∃ x, a.createKeep remote socket count o = .ok x) ∧
      ∃ x, a.receiveKeep remote socket count = .ok x) := by
  rw [createKeep_eq a remote socket o hcount, receiveKeep_eq a remote socket hcount]
  constructor
  · intro h
    exact ⟨if_pos h, if_pos h⟩
  · intro h
    rw [if_neg (Nat.not_lt.2 h), if_neg (Nat.not_lt.2 h)]
    exact ⟨⟨_, rfl⟩, ⟨_, rfl⟩⟩

end Requests

/-- A session that cannot keep its pairs goes on with the assembler that it had. -/
theorem session_keeps_ids {s : Session} {kind : BlockKind} {role : PairRole} {peer name : String} {pairs : Quantity}
    {options : PairQuantities} {steps : List PlanStep} {outer : List Block}
    (hb : s.blocks = ⟨kind, .keepPairs role peer pairs options name :: steps⟩ :: outer) {socket remote : Int}
    (hs : s.pairSocket peer = .ok (socket, remote)) {f : Fault}
    (hc : s.assembler.createKeep remote socket (s.count pairs) (s.options options) = .error f)
    (hr : s.assembler.receiveKeep remote socket (s.count pairs) = .error f) (q : ProcessId)
    (w : Working (Host n) n m) : (s.proceed q).exec w = (.error f, w) ∨
      ∃ s' : Session, (s.proceed q).exec w = (.ok (.go s'), w) ∧ s'.assembler = s.assembler := by
  apply Session.proceed_keeps_assembler hb
  have hs' : ({ s with blocks := ⟨kind, steps⟩ :: outer } : Session).pairSocket peer = .ok (socket, remote) := hs
  have hkeep : ({ s with blocks := ⟨kind, steps⟩ :: outer } : Session).keepPairs role peer (s.count pairs)
      (s.options options) name = .error f := by
    cases role with
    | create => simp only [Session.keepPairs, hs', hc, bind, Except.bind]
    | receive => simp only [Session.keepPairs, hs', hr, bind, Except.bind]
  exact congrArg some hkeep

/-- Executing what a call for pairs has assembled, from any memory and whatever becomes of the rest of the node meanwhile,
comes to the submission of one request. Its arguments are read back as the type, the number of pairs, the least fidelity,
the longest time and, for pairs that are measured, the bases that were asked for; its array of results is the one that the
call has returned, with ten empty entries for each pair; and if halves are kept, an array holds the virtual ids that the
call has returned, which differ and were not in use. The futures of a pair name the entries at which its row of results
has the Bell index, the sequence number, the outcome and the basis, and no row touches what other pairs' futures name. If
too few virtual ids are left, keeping pairs fails and the assembler stays. -/
theorem requests_are_laid_out (a : Assembler) (remote socket : Int) {count : Nat}
    (hcount : Word.fitsSigned64 (10 * count) = true) {o : PairOptions} (ho : o.Typed) :
    (∀ k a', a.createKeep remote socket count o = .ok (k, a') → a.Reserves count k.qubits a' ∧
      a.Requests a' fun r mem => r.Prepared .create remote socket k.resultArray count mem ∧ r.Names mem k.qubits ∧
        r.ReadsAs mem ⟨.keep, max 0 o.minFidelity, .z, .z, o.maxTime⟩ count) ∧
    (∀ k a', a.receiveKeep remote socket count = .ok (k, a') → a.Reserves count k.qubits a' ∧
      a.Requests a' fun r mem => r.Prepared .receive remote socket k.resultArray count mem ∧ r.Names mem k.qubits) ∧
    (∀ k a', a.createMeasure remote socket count o = (k, a') → k.count = count ∧ a'.used = a.used ∧
      a.Requests a' fun r mem => r.Prepared .create remote socket k.resultArray count mem ∧
        r.ReadsAs mem ⟨.measure, max 0 o.minFidelity, o.localBasis, o.remoteBasis, o.maxTime⟩ count) ∧
    (∀ k a', a.receiveMeasure remote socket count = (k, a') → k.count = count ∧ a'.used = a.used ∧
      a.Requests a' fun r mem => r.Prepared .receive remote socket k.resultArray count mem) ∧
    (∀ (n m : Nat) (r : EntanglementRequest) (k : Nat) (pair : Pair) (virt : Option Int) (w : Working (Node n m) n m)
      (mem : AppMemory) (vs : ArrayValues), k < count → w.part.apps.get? r.app = some mem →
      mem.arrays.get? r.resultArray = some vs → vs.size = 10 * count →
        Attains (Pairing.writeRow r k (Pairing.resultRow r pair virt)) w fun _ w' => ∃ mem',
          w'.part.apps.get? r.app = some mem' ∧
          (∀ p : KeptPairs, p.resultArray = r.resultArray → p.Shows k pair mem') ∧
          (∀ p : MeasuredPairs, p.resultArray = r.resultArray → p.Shows k pair mem') ∧
          ∀ f : Future, (f.address = r.resultArray → f.index < 10 * k ∨ 10 * k + 10 ≤ f.index) →
            mem'.reading f = mem.reading f) ∧
    (count ≤ a.available.length → (∃ x, a.createKeep remote socket count o = .ok x) ∧
      ∃ x, a.receiveKeep remote socket count = .ok x) ∧
    (a.available.length < count → ∃ f : Fault, f.kind = .allocationExhausted ∧
      a.createKeep remote socket count o = .error f ∧ a.receiveKeep remote socket count = .error f ∧
      ∀ (s : Session) (kind : BlockKind) (role : PairRole) (peer name : String) (pairs : Quantity)
        (options : PairQuantities) (steps : List PlanStep) (outer : List Block), s.assembler = a →
        s.pairSocket peer = .ok (socket, remote) → s.count pairs = count →
        s.blocks = ⟨kind, .keepPairs role peer pairs options name :: steps⟩ :: outer →
          ∀ (n m : Nat) (q : ProcessId) (w : Working (Host n) n m), (s.proceed q).exec w = (.error f, w) ∨
            ∃ s' : Session, (s.proceed q).exec w = (.ok (.go s'), w) ∧ s'.assembler = a) := by
  refine ⟨fun k a' h => createKeep_requests hcount ho h, fun k a' h => receiveKeep_requests hcount h, fun k a' h => ?_,
    fun k a' h => ?_, ?_, (keep_fails_iff hcount).2, fun hfew => ?_⟩
  · have hrequests : a.Requests (a.createMeasure remote socket count o).2 _ := createMeasure_requests hcount ho
    rw [h] at hrequests
    rw [createMeasure_eq a remote socket o hcount] at h
    cases h
    exact ⟨rfl, rfl, hrequests⟩
  · have hrequests : a.Requests (a.receiveMeasure remote socket count).2 _ := receiveMeasure_requests hcount
    rw [h] at hrequests
    rw [receiveMeasure_eq a remote socket hcount] at h
    cases h
    exact ⟨rfl, rfl, hrequests⟩
  · intro n m r k pair virt w mem vs hk hw ha hvs
    exact Pairing.writeRow_shows hk pair virt hw ha hvs
  · have hfails : ∀ o', a.createKeep remote socket count o' = .error (.cannotHold count a.maxQubits) ∧
        a.receiveKeep remote socket count = .error (.cannotHold count a.maxQubits) :=
      fun o' => (keep_fails_iff hcount).1 hfew
    refine ⟨.cannotHold count a.maxQubits, rfl, (hfails o).1, (hfails o).2, ?_⟩
    rintro s kind role peer name pairs options steps outer rfl hs rfl hb n m q w
    exact session_keeps_ids hb hs (hfails _).1 (hfails o).2 q w

/-- Two pairs to be measured in bases of their own, with a time beyond signed words, after an array and a qubit. -/
theorem requests_are_laid_out_late :
    let a : Assembler := ⟨0, 2, [0], 1, [.set q0 0, .qalloc q0]⟩
    let o : PairOptions := ⟨800, 0x8000000000000001, .x, .y⟩
    let k := (a.createMeasure 1 0 2 o).1
    Word.fitsSigned64 (10 * (2 : Nat)) = true ∧ o.Typed ∧ k.outcome 1 = ⟨2, 12⟩ ∧ k.basis 1 = ⟨2, 13⟩ ∧
      a.Requests (a.createMeasure 1 0 2 o).2 (fun r mem => r.Prepared .create 1 0 2 2 mem ∧
        r.ReadsAs mem ⟨.measure, 800, .x, .y, 0x8000000000000001⟩ 2) ∧
      ∃ f : Fault, f.kind = .allocationExhausted ∧ a.createKeep 1 0 2 o = .error f := by
  intro a o k
  have hcount : Word.fitsSigned64 (10 * (2 : Nat)) = true := by decide
  have ho : o.Typed := ⟨by decide, by decide, nofun, nofun⟩
  obtain ⟨-, -, hmeasure, -, -, -, hfew⟩ := requests_are_laid_out a 1 0 hcount ho
  obtain ⟨-, -, hrequests⟩ := hmeasure k _ rfl
  obtain ⟨f, hf, hfails, -⟩ := hfew (by decide)
  exact ⟨hcount, ho, rfl, rfl, hrequests, f, hf, hfails⟩

end Assembler

end QuantumNode
