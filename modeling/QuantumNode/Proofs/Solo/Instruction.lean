import QuantumNode.Program.Assembler
import QuantumNode.Proofs.Node.Execution
import QuantumNode.Proofs.Node.Total
import QuantumNode.Proofs.Solo.Basic
import QuantumNode.Proofs.Subroutine.Operand

/-! What the instructions of an assembled subroutine come to for an application that is alone on its node. None of them
fails, whatever the rest of the node does meanwhile. -/
namespace QuantumNode

open Node Work Working

variable {n m : Nat}

namespace AppMemory

variable {mem mem' : AppMemory}

/-- The same memory at the next instruction. -/
def next (mem : AppMemory) : AppMemory := { mem with pc := mem.pc + 1 }

/-- One register is set, and the program counter goes to the next instruction. -/
structure Puts (r : Register) (v : Option Int) (mem mem' : AppMemory) : Prop where
  register : mem'.register r = .ok v
  others : ∀ r', r'.slot? ≠ r.slot? → mem'.register r' = mem.register r'
  qubits : mem'.qubits = mem.qubits
  arrays : mem'.arrays = mem.arrays
  pc : mem'.pc = mem.pc + 1

theorem Puts.resolve {r : Register} {v : Int} (h : mem.Puts r (some v) mem') : mem'.resolve (.register r) = .ok v := by
  simp [AppMemory.resolve, h.register, bind, Except.bind]

theorem Puts.resolve_of_ne {r r' : Register} {v : Option Int} (h : mem.Puts r v mem') (hr : r'.slot? ≠ r.slot?) :
    mem'.resolve (.register r') = mem.resolve (.register r') := by
  simp [AppMemory.resolve, h.others r' hr]

theorem setRegister_puts (mem : AppMemory) {r : Register} (hr : r.Legible) (v : Option Int) :
    ∃ mem₁, mem.setRegister r v = .ok mem₁ ∧ mem₁.pc = mem.pc ∧ mem.Puts r v mem₁.next := by
  obtain ⟨i, hi⟩ := Register.slot?_of_legible hr
  refine ⟨{ mem with registers := mem.registers.set i v i.isLt }, by simp only [setRegister, hi], rfl, ?_,
    fun r' hr' => ?_, rfl, rfl, rfl⟩
  · simp only [register, next, hi, vector_get_set, if_pos]
  · rcases hj : r'.slot? with _ | j
    · simp only [register, hj]
    · have hij : j ≠ i := fun h => hr' (by rw [hi, hj, h])
      simp only [register, next, hj, vector_get_set, if_neg hij]

end AppMemory

namespace Execution

/-- An execution comes to a point, whatever the rest of the node does between two steps. -/
inductive Arrives (p : ProcessId) (G : Execution → Working (Node n m) n m → Prop) :
    Execution → Working (Node n m) n m → Prop where
  | here {e : Execution} {w : Working (Node n m) n m} (h : G e w) : Arrives p G e w
  | step {e e' : Execution} {w w' : Working (Node n m) n m} {flow : Step m} (hx : (step p e).exec w = (.ok flow, w'))
      (hgo : flow.going? = some e') (h : ∀ w'', Idle w' w'' → Arrives p G e' w'') : Arrives p G e w

namespace Arrives

variable {p : ProcessId} {G H : Execution → Working (Node n m) n m → Prop} {e : Execution} {w : Working (Node n m) n m}

theorem of_attains (h : Attains (Execution.step p e) w fun flow w' =>
    ∃ e', flow.going? = some e' ∧ ∀ w'', Idle w' w'' → Arrives p G e' w'') : Arrives p G e w := by
  obtain ⟨flow, w', hx, e', hgo, h⟩ := h
  exact .step hx hgo h

theorem trans (h : Arrives p G e w) (hle : ∀ e' w', G e' w' → Arrives p H e' w') : Arrives p H e w := by
  induction h with
  | here h => exact hle _ _ h
  | step hx hgo _ ih => exact .step hx hgo ih

end Arrives

variable {p : ProcessId} {s : Subroutine} {mem : AppMemory} {w : Working (Node n m) n m}

variable (n m) in
/-- From one memory, at the fetch of an instruction, the execution comes to the fetch of another, with a memory as
described. -/
def Carries (p : ProcessId) (s : Subroutine) (mem : AppMemory) (Φ : AppMemory → Prop) : Prop :=
  ∀ w : Working (Node n m) n m, w.part.Solo s.appId mem →
    Arrives p (fun e' w' => e' = ⟨s, .fetch⟩ ∧ ∃ mem', w'.part.Solo s.appId mem' ∧ Φ mem') ⟨s, .fetch⟩ w

namespace Carries

variable {Φ Ψ : AppMemory → Prop}

theorem done (h : Φ mem) : Carries n m p s mem Φ := fun _ hs => .here ⟨rfl, mem, hs, h⟩

theorem trans (h : Carries n m p s mem Φ) (hle : ∀ mem', Φ mem' → Carries n m p s mem' Ψ) : Carries n m p s mem Ψ :=
  fun w hs => (h w hs).trans fun e' w' ⟨he, mem', hs', hm⟩ => by
    subst he
    exact hle mem' hm w' hs'

end Carries

/-! ### Pieces of work -/

theorem memory_exec (hs : w.part.Solo s.appId mem) : (memory s.appId).exec w = (.ok mem, w) := by
  rw [exec_memory, hs.memory]

theorem resolve_exec (hs : w.part.Solo s.appId mem) {v : Value} {x : Int} (h : mem.resolve v = .ok x) :
    (resolve s.appId v).exec w = (.ok x, w) := by
  simp only [resolve, exec_bind, memory_exec hs, exec_ofExcept, h]

theorem position_exec (hs : w.part.Solo s.appId mem) {r : Register} {v q : Nat}
    (hr : mem.resolve (.register r) = .ok v) (hq : mem.phys? v = some q) :
    (position s.appId r).exec w = (.ok q, w) := by
  simp only [position, resolveRegister, exec_bind, resolve_exec hs hr, memory_exec hs, exec_ofExcept,
    AppMemory.physicalFor_of_phys? hq, exec_pure]

theorem advance_attains (hs : w.part.Solo s.appId mem) (hpc : mem.pc + 1 < Word.size64) :
    Attains (advance s.appId) w fun _ w' => w'.part.Solo s.appId mem.next := by
  refine (updateMemory_attains hs.memory (f := fun mem => .ok mem.incrementPc) rfl).mono fun _ w' hw => ?_
  have hinc : mem.incrementPc = mem.next := by
    rw [AppMemory.incrementPc, Nat.mod_eq_of_lt hpc, AppMemory.next]
  subst hw
  rw [← hinc]
  exact hs.replace rfl

/-- A free slot is taken for a free virtual id. -/
theorem mapQubit_exec (hs : w.part.Solo s.appId mem) {v q : Nat} (hv : v < mem.qubits.size) (hn : mem.phys? v = none)
    {pool : QubitPool} (ht : w.part.pool.Takes pool q) :
    (mapQubit s.appId v q).exec { w with part := { w.part with pool := pool } } =
      (.ok (), { w with part := { w.part with
        pool := pool
        apps := w.part.apps.insert s.appId (mem.setQubit ⟨v, hv⟩ (some q)) } }) := by
  have hun : ∀ other virt, ¬ w.part.Maps other virt q := fun other virt hm => by
    have ha := hs.accounted.allocated hm
    rw [ht.free] at ha
    exact nomatch ha
  have howner : w.part.owner? q = none := owner?_eq_none hs.accounted.ascending hun
  have hmap := AppMemory.mapQubit_of_free hv hn (p := q) fun u hu => hun s.appId u (hs.maps.2 ⟨u, rfl, hu⟩)
  have howner' : ({ w.part with pool := pool } : Node n m).owner? q = none := howner
  simp only [mapQubit, exec_bind, exec_part, howner', exec_updateMemory, hs.memory, hmap]

/-- The next instruction is fetched, and there is nothing else to do than what it says. -/
theorem fetch_attains (hs : w.part.Solo s.appId mem) {i : Instruction} (hi : s.instructions[mem.pc]? = some i)
    {Q : Step m → Working (Node n m) n m → Prop}
    (h : ∀ w' : Working (Node n m) n m, w'.part.Solo s.appId mem → Attains (perform p ⟨s, .fetch⟩ i) w' Q) :
    Attains (step p ⟨s, .fetch⟩) w Q := by
  refine .next (memory_exec hs) ?_
  dsimp only
  rw [hi]
  refine .bind <| (log_attains _ _ _).mono fun _ w₁ h₁ => .modifyPart (h _ ?_)
  exact Solo.idle (w := w₁) (h₁ ▸ hs) ⟨rfl, rfl, rfl⟩

/-! ### Instructions that take no time -/

section Instructions

variable {i : Instruction} {Φ : AppMemory → Prop}

theorem pc_fits (hsize : s.size < Word.size64) (hi : s.instructions[mem.pc]? = some i) : mem.pc + 1 < Word.size64 := by
  obtain ⟨hlt, -⟩ := List.getElem?_eq_some_iff.1 hi
  exact Nat.lt_of_le_of_lt hlt hsize

theorem quick_carries (hsize : s.size < Word.size64) (hi : s.instructions[mem.pc]? = some i)
    (hp : ∀ e : Execution, perform p e i =
      (do classical e.app i; advance e.app; return .go { e with stage := .fetch } : NodeWork n m (Step m)))
    (h : ∀ w : Working (Node n m) n m, w.part.Solo s.appId mem → Attains (classical s.appId i) w fun _ w' =>
      ∃ mem', w'.part.Solo s.appId mem' ∧ mem'.pc = mem.pc ∧ Φ mem'.next) :
    Carries n m p s mem Φ := fun w hs => .of_attains <| fetch_attains hs hi fun w₁ h₁ => by
  rw [hp]
  refine .bind <| (h w₁ h₁).mono fun _ w₂ ⟨mem', hs₂, hpc, hΦ⟩ => ?_
  refine .bind <| (advance_attains hs₂ (hpc ▸ pc_fits hsize hi)).mono fun _ w₃ h₃ => .pure ?_
  exact ⟨_, rfl, fun w₄ h₄ => .here ⟨rfl, _, h₃.idle h₄, hΦ⟩⟩

theorem set_carries (hsize : s.size < Word.size64) {r : Register} {v : Int} (hr : r.Legible)
    (hi : s.instructions[mem.pc]? = some (.set r v)) : Carries n m p s mem (mem.Puts r (some v)) := by
  obtain ⟨mem₁, hset, hpc, hputs⟩ := mem.setRegister_puts hr (some v)
  refine quick_carries hsize hi (fun _ => rfl) fun w hs => ?_
  refine (updateMemory_attains hs.memory hset).mono fun _ w' hw => ?_
  subst hw
  exact ⟨mem₁, hs.replace (AppMemory.setRegister_alike hset).qubits, hpc, hputs⟩

theorem array_carries (hsize : s.size < Word.size64) (length : Nat) {a : Int}
    (hi : s.instructions[mem.pc]? = some (.array (.literal length) a)) :
    Carries n m p s mem (· = (mem.initArray a length).next) := by
  refine quick_carries hsize hi (fun _ => rfl) fun w hs => .next (resolve_exec hs (v := .literal length) rfl) ?_
  refine .ite_neg (by omega) <| .bind <| (log_attains _ _ _).mono fun _ w₁ h₁ => ?_
  have hs₁ := hs.idle (.of_part h₁)
  refine (updateMemory_attains hs₁.memory (f := fun mem => .ok (mem.initArray a length)) rfl).mono fun _ w₂ hw => ?_
  subst hw
  exact ⟨_, hs₁.replace rfl, rfl, rfl⟩

/-- A register is stored in an array. -/
theorem store_carries (hsize : s.size < Word.size64) {r : Register} {a : Int} {k : Nat} {v : Option Int}
    {vs : ArrayValues} (hi : s.instructions[mem.pc]? = some (.store r ⟨a, .literal k⟩)) (hr : mem.register r = .ok v)
    (ha : mem.arrays.get? a = some vs) (hk : k < vs.size) :
    Carries n m p s mem (· = { mem with arrays := mem.arrays.insert a (vs.set k v) }.next) := by
  refine quick_carries hsize hi (fun _ => rfl) fun w hs => ?_
  have hstore : (do mem.setEntry ⟨a, .literal k⟩ (← mem.register r)) =
      .ok { mem with arrays := mem.arrays.insert a (vs.set k v) } := by
    simp [hr, AppMemory.setEntry, AppMemory.resolve, AppMemory.setArrayValue, AppMemory.array, ha, bind, Except.bind, hk,
      Array.setIfInBounds]
  refine (updateMemory_attains hs.memory hstore).mono fun _ w' hw => ?_
  subst hw
  exact ⟨_, hs.replace rfl, rfl, rfl⟩

theorem qalloc_carries (hsize : s.size < Word.size64) {r : Register} {v : Nat}
    (hi : s.instructions[mem.pc]? = some (.qalloc r)) (hr : mem.resolve (.register r) = .ok v)
    (hv : v < mem.qubits.size) (hn : mem.phys? v = none) :
    Carries n m p s mem fun mem' => ∃ q, mem' = (mem.setQubit ⟨v, hv⟩ (some q)).next := by
  refine quick_carries hsize hi (fun _ => rfl) fun w hs => .next (resolve_exec hs hr) ?_
  obtain ⟨j, hj, hfree⟩ := hs.exists_free hv hn
  obtain ⟨⟨q, pool⟩, ha⟩ := QubitPool.exists_allocate hj hfree
  have ht := QubitPool.takes_of_allocate ha
  have halloc : (allocate : NodeWork n m Nat).exec w = (.ok q, { w with part := { w.part with pool := pool } }) := by
    simp only [allocate, exec_bind, exec_part, exec_ofExcept, ha, setPool, exec_modifyPart, exec_pure]
  have hfor : (allocateFor s.appId v : NodeWork n m Nat).exec w =
      (.ok q, { w with part := { w.part with pool := pool } }) := by
    rw [allocateFor, exec_bind, exec_attempt, halloc]
    rfl
  refine .next hfor <| .attempt ⟨_, _, mapQubit_exec hs hv hn ht, ?_⟩
  refine (log_attains _ _ _).mono fun _ w₁ h₁ => ?_
  exact ⟨mem.setQubit ⟨v, hv⟩ (some q), (hs.occupy hv hn ht).idle (.of_part h₁), rfl, q, rfl⟩

theorem qfree_carries (hsize : s.size < Word.size64) {r : Register} {v q : Nat}
    (hi : s.instructions[mem.pc]? = some (.qfree r)) (hr : mem.resolve (.register r) = .ok v)
    (hq : mem.phys? v = some q) :
    Carries n m p s mem (· = (mem.setQubit ⟨v, AppMemory.lt_size_of_phys? hq⟩ none).next) := by
  refine quick_carries hsize hi (fun _ => rfl) fun w hs => .next (resolve_exec hs hr) <| .next (position_exec hs hr hq) ?_
  have hv := AppMemory.lt_size_of_phys? hq
  refine .bind <| (updateMemory_attains hs.memory (AppMemory.unmapQubit_of_lt hv)).mono fun _ w₁ hw => ?_
  have hfree : w₁.part.pool.free q = .ok (w.part.pool.setAllocated q false) := by
    subst hw
    exact if_pos (hs.accounted.allocated (hs.maps.2 ⟨v, rfl, hq⟩))
  have hr := QubitPool.returns_of_free hfree
  subst hw
  exact (freeQubit_attains hfree).mono fun _ w₂ h₂ =>
    ⟨mem.setQubit ⟨v, hv⟩ none, (hs.vacate hv hq hr).idle h₂, rfl, rfl⟩

/-! ### Instructions that use the device -/

theorem operate_carries (hsize : s.size < Word.size64) (hi : s.instructions[mem.pc]? = some i)
    (h : ∀ w : Working (Node n m) n m, w.part.Solo s.appId mem → Attains (perform p ⟨s, .fetch⟩ i) w fun flow w' =>
      Idle w w' ∧ ∃ c, flow = .rest ⟨s, .operating c⟩) :
    Carries n m p s mem (· = mem.next) := fun w hs =>
  .of_attains <| fetch_attains hs hi fun w₁ h₁ => (h w₁ h₁).mono fun flow w₂ ⟨h₂, c, hf⟩ => by
    subst hf
    refine ⟨_, rfl, fun w₃ h₃ => .of_attains <| .bind <| (finishCall_attains c).mono fun _ w₄ ⟨h₄, _⟩ => ?_⟩
    have hs₄ := ((h₁.idle h₂).idle h₃).idle h₄
    refine .bind <| (advance_attains hs₄ (pc_fits hsize hi)).mono fun _ w₅ h₅ => .pure ?_
    exact ⟨_, rfl, fun w₆ h₆ => .here ⟨rfl, _, h₅.idle h₆, rfl⟩⟩

/-- A call on positions that the application maps. -/
theorem duration_ok (hs : w.part.Solo s.appId mem) {c : DeviceCall} (hl : c.positions.length = c.op.arity)
    (hp : ∀ q ∈ c.positions, ∃ v, mem.phys? v = some q) (hd : Device.samePair c.positions = false)
    (hop : c.op ≠ .directedX ∧ c.op ≠ .directedY) : ∃ t, w.part.device.duration c = .ok t :=
  hs.exists_duration hl (fun q hq => (hp q hq).elim fun _ hv => hs.lt_size hv) hd hop

variable {r r' : Register} {v v' q q' : Nat}

/-- A call on the position of one register's qubit. -/
theorem operateAt_attains (hs : w.part.Solo s.appId mem) (hr : mem.resolve (.register r) = .ok v)
    (hq : mem.phys? v = some q) {op : Operation} {angle : Float} (hl : op.arity = 1)
    (hop : op ≠ .directedX ∧ op ≠ .directedY) :
    Attains (do operate p ⟨s, .fetch⟩ ⟨op, [← position s.appId r], angle⟩) w fun flow w' =>
      Idle w w' ∧ ∃ c, flow = .rest ⟨s, .operating c⟩ := by
  obtain ⟨t, ht⟩ := duration_ok hs (c := ⟨op, [q], angle⟩) hl.symm
    (fun _ h => ⟨v, List.mem_singleton.1 h ▸ hq⟩) rfl hop
  exact .next (position_exec hs hr hq) <| .bind <| (startCall_attains ht).mono fun _ w₁ h₁ => .pure ⟨h₁, _, rfl⟩

theorem init_carries (hsize : s.size < Word.size64) (hi : s.instructions[mem.pc]? = some (.init r))
    (hr : mem.resolve (.register r) = .ok v) (hq : mem.phys? v = some q) :
    Carries n m p s mem (· = mem.next) :=
  operate_carries hsize hi fun _ hs => .part <| operateAt_attains hs hr hq rfl ⟨nofun, nofun⟩

theorem gate_carries (hsize : s.size < Word.size64) {g : SingleGate} (hi : s.instructions[mem.pc]? = some (.gate g r))
    (hr : mem.resolve (.register r) = .ok v) (hq : mem.phys? v = some q) :
    Carries n m p s mem (· = mem.next) :=
  operate_carries hsize hi fun w hs => .part <| .ite_neg (by simp [hs.generic]) <|
    operateAt_attains hs hr hq (by cases g <;> rfl) (by cases g <;> decide)

theorem rotate_carries (hsize : s.size < Word.size64) {axis : Axis} {k d : Int}
    (hi : s.instructions[mem.pc]? = some (.rotate axis r k d)) (hr : mem.resolve (.register r) = .ok v)
    (hq : mem.phys? v = some q) : Carries n m p s mem (· = mem.next) :=
  operate_carries hsize hi fun _ hs => .part <|
    operateAt_attains hs hr hq (by cases axis <;> rfl) (by cases axis <;> decide)

/-- Two virtual ids have two slots, so that the device does not refuse the pair. -/
theorem pairGate_carries (hsize : s.size < Word.size64) {g : PairGate}
    (hi : s.instructions[mem.pc]? = some (.pairGate g r r')) (hr : mem.resolve (.register r) = .ok v)
    (hr' : mem.resolve (.register r') = .ok v') (hq : mem.phys? v = some q) (hq' : mem.phys? v' = some q')
    (hne : v ≠ v') : Carries n m p s mem (· = mem.next) :=
  operate_carries hsize hi fun w hs => .part <| .ite_neg (by simp [hs.generic]) <| by
    have hqq : q ≠ q' := fun h => hne (hs.injective hq (h ▸ hq'))
    obtain ⟨t, ht⟩ := duration_ok hs (c := ⟨g.operation, [q, q'], 0.0⟩) (by cases g <;> rfl)
      (by simp only [List.mem_cons, List.not_mem_nil, or_false]
          rintro _ (rfl | rfl)
          · exact ⟨v, hq⟩
          · exact ⟨v', hq'⟩)
      (by simp [Device.samePair, hqq]) (by cases g <;> exact ⟨nofun, nofun⟩)
    exact .next (position_exec hs hr hq) <| .next (position_exec hs hr' hq') <|
      .bind <| (startCall_attains ht).mono fun _ w₁ h₁ => .pure ⟨h₁, _, rfl⟩

/-- A generic device reports what it has measured. -/
theorem effect_measure {d : Device} (hd : d.config.isNV = false) (position : Nat) (state : QuantumState) :
    ∃ b : Bool, (d.effect (.measure position) state).1 = some b.toNat := by
  cases hc : d.config with
  | generic g => exact ⟨_, by simp only [Device.effect, DeviceCall.measure, hc, Device.readoutNoise]; rfl⟩
  | nv v => simp [hc, DeviceConfig.isNV] at hd

theorem measure_carries (hsize : s.size < Word.size64) (hi : s.instructions[mem.pc]? = some (.measure r r'))
    (hr' : r'.Legible) (hr : mem.resolve (.register r) = .ok v) (hq : mem.phys? v = some q) :
    Carries n m p s mem fun mem' => ∃ b : Bool, mem.Puts r' (some b.toNat) mem' := fun w hs => by
  have hstart : ∀ w : Working (Node n m) n m, w.part.Solo s.appId mem →
      Attains (perform p ⟨s, .fetch⟩ (.measure r r')) w fun flow w' =>
        Idle w w' ∧ flow = .rest ⟨s, .reading (.measure q) r'⟩ := fun w hs => .part <| .ite_neg (by simp [hs.generic]) <| by
    obtain ⟨t, ht⟩ := duration_ok hs (c := .measure q) rfl (fun _ h => ⟨v, List.mem_singleton.1 h ▸ hq⟩) rfl
      ⟨nofun, nofun⟩
    exact .next (position_exec hs hr hq) <| .bind <| (startCall_attains ht).mono fun _ w₁ h₁ => .pure ⟨h₁, rfl⟩
  refine .of_attains <| fetch_attains hs hi fun w₁ h₁ => (hstart w₁ h₁).mono fun flow w₂ ⟨h₂, hf⟩ => ?_
  subst hf
  refine ⟨_, rfl, fun w₃ h₃ => .of_attains <| .bind <| (finishCall_attains _).mono fun out w₄ ⟨h₄, hout⟩ => ?_⟩
  have hs₃ := (h₁.idle h₂).idle h₃
  have hs₄ := hs₃.idle h₄
  obtain ⟨b, hb⟩ := effect_measure hs₃.generic q w₃.quantum
  obtain ⟨mem₁, hset, hpc, hputs⟩ := mem.setRegister_puts hr' (some b.toNat)
  have hval : out.map Int.ofNat = some (b.toNat : Int) := by rw [hout, hb]; rfl
  rw [hval]
  refine .bind <| (updateMemory_attains hs₄.memory hset).mono fun _ w₅ hw => ?_
  subst hw
  have hs₅ := hs₄.replace (AppMemory.setRegister_alike hset).qubits
  refine .bind <| (advance_attains (w := { w₄ with part := _ }) hs₅ (hpc ▸ pc_fits hsize hi)).mono fun _ w₆ h₆ => .pure ?_
  exact ⟨_, rfl, fun w₇ h₇ => .here ⟨rfl, _, h₆.idle h₇, b, hputs⟩⟩

end Instructions

end Execution

end QuantumNode
