import QuantumNode.Host.Session
import QuantumNode.Proofs.Solo.Call
import Mathlib.Logic.Relation

/-! A program alone on a node with a generic device: what it assembles, subroutine after subroutine, and what the node
makes of it. -/
namespace QuantumNode

open Node Work Working

variable {n m : Nat}

/-- A session keeps its assembler if the next step would add to it but fails. -/
theorem Session.proceed_keeps_assembler {s : Session} {kind : BlockKind} {step : PlanStep} {steps : List PlanStep}
    {outer : List Block} (hb : s.blocks = ⟨kind, step :: steps⟩ :: outer) {f : Fault}
    (hf : ({ s with blocks := ⟨kind, steps⟩ :: outer } : Session).assemble? step = some (.error f)) (q : ProcessId)
    (w : Working (Host n) n m) :
    (s.proceed q).exec w = (.error f, w) ∨
      ∃ s' : Session, (s.proceed q).exec w = (.ok (.go s'), w) ∧ s'.assembler = s.assembler := by
  have hperform : (Session.perform q { s with blocks := ⟨kind, steps⟩ :: outer } step :
      HostWork n m (Session.Step m)).exec w = (.error f, w) := by
    simp only [Session.perform, hf, exec_bind, exec_ofExcept]
  simp only [Session.proceed, hb, exec_bind, exec_attempt, hperform, Session.recover]
  split
  · exact .inr ⟨_, rfl, rfl⟩
  · exact .inl rfl

namespace Execution

/-- Whatever the rest of the node does between two steps, the execution ends well, in a state as described. -/
def Succeeds (p : ProcessId) (Q : Working (Node n m) n m → Prop) : Execution → Working (Node n m) n m → Prop :=
  Arrives p fun e w => (step p e).exec w = (.ok (.finished .ok), w) ∧ Q w

/-- A course of an execution to its end. -/
inductive Finishes (p : ProcessId) :
    Execution → Working (Node n m) n m → Except Fault ExecutionStatus → Working (Node n m) n m → Prop where
  | finished {e : Execution} {w w' : Working (Node n m) n m} {status : ExecutionStatus}
      (hx : (step p e).exec w = (.ok (.finished status), w')) : Finishes p e w (.ok status) w'
  | raised {e : Execution} {w w' : Working (Node n m) n m} {f : Fault} (hx : (step p e).exec w = (.error f, w')) :
      Finishes p e w (.error f) w'
  | step {e e' : Execution} {w w₁ w₂ w' : Working (Node n m) n m} {flow : Step m} {r : Except Fault ExecutionStatus}
      (hx : (step p e).exec w = (.ok flow, w₁)) (hgo : flow.going? = some e') (hi : Idle w₁ w₂)
      (h : Finishes p e' w₂ r w') : Finishes p e w r w'

variable {p : ProcessId} {Q : Working (Node n m) n m → Prop} {e : Execution} {w w' : Working (Node n m) n m}

/-- Steps are determined, so a course that ends has gone past every point to which the execution comes. -/
theorem Succeeds.finishes (h : Succeeds p Q e w) {r : Except Fault ExecutionStatus} (hf : Finishes p e w r w') :
    r = .ok .ok ∧ Q w' := by
  induction h with
  | here hG =>
    obtain ⟨hx, hq⟩ := hG
    cases hf with
    | finished hx' =>
      cases hx.symm.trans hx'
      exact ⟨rfl, hq⟩
    | raised hx' => cases hx.symm.trans hx'
    | step hx' hgo =>
      cases hx.symm.trans hx'
      exact nomatch hgo
  | step hx hgo _ ih =>
    cases hf with
    | finished hx' =>
      cases hx.symm.trans hx'
      exact nomatch hgo
    | raised hx' => cases hx.symm.trans hx'
    | step hx' hgo' hi hf =>
      cases hx.symm.trans hx'
      cases hgo.symm.trans hgo'
      exact ih _ hi hf

/-- There is a course to the end. -/
theorem Succeeds.exists_finishes (h : Succeeds p Q e w) : ∃ w', Finishes p e w (.ok .ok) w' := by
  induction h with
  | here hG => exact ⟨_, .finished hG.1⟩
  | step hx hgo _ ih =>
    obtain ⟨w', hf⟩ := ih _ (.refl _)
    exact ⟨w', .step hx hgo (.refl _) hf⟩

variable {s : Subroutine} {mem : AppMemory}

/-- A subroutine begins at its first instruction. -/
theorem start_arrives {G : Execution → Working (Node n m) n m → Prop} (hs : w.part.Solo s.appId mem)
    (h : ∀ w' : Working (Node n m) n m, w'.part.Solo s.appId { mem with pc := 0 } → Arrives p G ⟨s, .fetch⟩ w') :
    Arrives p G (.new s) w := by
  refine .of_attains <| .bind <| (setPc_attains hs.memory fun _ => 0).mono fun _ w₁ h₁ => ?_
  have hs₁ : w₁.part.Solo s.appId { mem with pc := 0 } := by
    subst h₁
    exact hs.replace rfl
  refine .bind <| (log_attains _ _ _).mono fun _ w₂ h₂ => .pure ⟨_, rfl, fun w₃ h₃ => h w₃ ?_⟩
  exact (hs₁.idle (.of_part h₂)).idle h₃

/-- A subroutine ends past its last instruction. -/
theorem end_exec (hs : w.part.Solo s.appId mem) (hpc : mem.pc = s.size) :
    (step p ⟨s, .fetch⟩).exec w = (.ok (.finished .ok), w) := by
  have hnone : s.instructions[mem.pc]? = none := List.getElem?_eq_none (Nat.le_of_eq hpc.symm)
  have hmem := memory_exec hs
  simp only [step, fetch, app, exec_bind, hmem, hnone, exec_pure]

end Execution

open Execution

/-- The assembler of a program beside the node that runs its subroutines. -/
structure Bench (n m : Nat) where
  assembler : Assembler
  /-- The outcomes of the subroutine that is being assembled. -/
  pending : List Future
  /-- The outcomes of the subroutines that have run. -/
  settled : List Future
  node : Working (Node n m) n m

namespace Bench

/-- A virtual id of the application stands for a slot. -/
def Maps (b : Bench n m) (v : Int) : Prop := ∃ q, b.node.part.Maps b.assembler.appId v q

/-- What the host reads for an outcome. -/
def reading (b : Bench n m) (f : Future) : Except Fault (Option Int) :=
  match b.node.part.apps.get? b.assembler.appId with
  | some mem => mem.reading f
  | none => .error (.applicationMissing b.assembler.appId b.node.part.name)

/-- A call on qubits. -/
def call (b : Bench n m) (c : QubitCall) : Bench n m :=
  { b with assembler := (c.run b.assembler).2, pending := b.pending ++ (c.run b.assembler).1 }

/-- A subroutine has run, and the node is left as it is then. -/
def flush (b : Bench n m) (w : Working (Node n m) n m) : Bench n m :=
  ⟨b.assembler.take.2, [], b.settled ++ b.pending, w⟩

/-- What happens at a bench. However a subroutine ends, that is the state in which it leaves the node. -/
inductive Step (p : ProcessId) (b : Bench n m) : Bench n m → Prop where
  | call (c : QubitCall) (h : c.Holds b.assembler) : Step p b (b.call c)
  | flush {r : Except Fault ExecutionStatus} {w : Working (Node n m) n m} (hsize : b.assembler.size < Word.size64)
      (h : Finishes p (.new b.assembler.take.1) b.node r w) : Step p b (b.flush w)
  | meanwhile {w : Working (Node n m) n m} (h : Idle b.node w) : Step p b { b with node := w }

/-- A program begins, as the only application of a node with a generic device. -/
structure Opens (app : Int) (k : Nat) (b : Bench n m) : Prop where
  assembler : b.assembler = .new app k
  pending : b.pending = []
  settled : b.settled = []
  apps : b.node.part.apps = SortedMap.empty.insert app (.new app b.node.part.pool.size)
  slots : ∀ p, b.node.part.pool.isAllocated p = false
  generic : b.node.part.device.config.isNV = false
  size : b.node.part.device.size = b.node.part.pool.size
  room : k ≤ b.node.part.pool.size

/-- What the instructions assembled so far make of a memory. -/
structure Assembled (b : Bench n m) (mem mem' : AppMemory) : Prop where
  mirrors : mem'.Mirrors b.assembler
  pc : mem'.pc = b.assembler.size
  pending : ∀ f ∈ b.pending, ∃ x : Bool, mem'.reading f = .ok (some x.toNat)
  settled : ∀ f ∈ b.settled, mem'.reading f = mem.reading f

/-- What holds at a bench at any time. -/
structure Ready (p : ProcessId) (b : Bench n m) (mem : AppMemory) : Prop where
  solo : b.node.part.Solo b.assembler.appId mem
  fresh : ∀ f ∈ b.settled ++ b.pending, f.address < b.assembler.nextArray
  settled : ∀ f ∈ b.settled, ∃ x : Bool, mem.reading f = .ok (some x.toNat)
  assembled : ∀ s : Subroutine, s.appId = b.assembler.appId → s.size < Word.size64 →
    b.assembler.instructions <+: s.instructions → ∀ w : Working (Node n m) n m, w.part.Solo s.appId mem →
      Arrives p (fun e' w' => e' = ⟨s, .fetch⟩ ∧ ∃ mem', w'.part.Solo s.appId mem' ∧ b.Assembled mem mem') (.new s) w

variable {p : ProcessId} {b b' : Bench n m} {mem : AppMemory}

theorem reading_eq (h : b.node.part.Solo b.assembler.appId mem) (f : Future) : b.reading f = mem.reading f := by
  rw [reading, h.memory]

/-- Nothing has been assembled since the last flush. -/
theorem ready_of_mirrors (hs : b.node.part.Solo b.assembler.appId mem) (hm : mem.Mirrors b.assembler)
    (hi : b.assembler.instructions = []) (hp : b.pending = []) (hf : ∀ f ∈ b.settled, f.address < b.assembler.nextArray)
    (hx : ∀ f ∈ b.settled, ∃ x : Bool, mem.reading f = .ok (some x.toNat)) : b.Ready p mem where
  solo := hs
  fresh := by simpa [hp] using hf
  settled := hx
  assembled s happ _ _ w hw := start_arrives hw fun w' hw' => .here ⟨rfl, _, hw', {
    mirrors := hm.congr rfl rfl rfl
    pc := by simp [Assembler.size, hi]
    pending := by simp [hp]
    settled := fun _ _ => AppMemory.reading_congr rfl }⟩

theorem Opens.ready {app : Int} {k : Nat} (h : b.Opens app k) : b.Ready p (.new app b.node.part.pool.size) := by
  have happ : b.assembler.appId = app := by
    rw [h.assembler]
    rfl
  have hget : b.node.part.apps.get? app = some (.new app b.node.part.pool.size) := by
    rw [h.apps, SortedMap.get?_insert_self]
  have hmaps : ∀ other virt q, ¬ b.node.part.Maps other virt q := by
    rintro other virt q hm
    obtain ⟨mem, hmem, v, -, hq⟩ := maps_iff.1 hm
    rw [h.apps] at hmem
    by_cases ho : other = app
    · subst ho
      rw [SortedMap.get?_insert_self] at hmem
      cases hmem
      simp at hq
    · rw [SortedMap.get?_insert_of_ne _ ho] at hmem
      exact nomatch hmem
  have hsolo : b.node.part.Solo app (.new app b.node.part.pool.size) := {
    memory := hget
    generic := h.generic
    size := h.size
    room := by simp [AppMemory.new]
    accounted := {
      ascending := h.apps ▸ SortedMap.ascending_empty.insert _ _
      injective := fun hm => absurd hm (hmaps _ _ _)
      allocated := fun hm => absurd hm (hmaps _ _ _)
      apart := fun _ => List.not_mem_nil
      heldAllocated := fun hq => nomatch hq
      nodup := .nil
      covered := fun {q} ha => by
        rw [h.slots q] at ha
        exact nomatch ha }
    alone := fun hm => absurd hm (hmaps _ _ _) }
  refine ready_of_mirrors (happ ▸ hsolo) ?_ ?_ h.pending ?_ ?_
  · rw [h.assembler]
    exact ⟨by simpa [AppMemory.new, Assembler.new] using h.room, by simp [Assembler.new]⟩
  · rw [h.assembler]
    rfl
  · simp [h.settled]
  · simp [h.settled]

theorem Ready.call (h : b.Ready p mem) {c : QubitCall} (hc : c.Holds b.assembler) : (b.call c).Ready p mem := by
  obtain ⟨hle, hnew⟩ := QubitCall.run_nextArray c b.assembler
  have happ := QubitCall.run_appId c b.assembler
  refine ⟨happ ▸ h.solo, fun f hf => ?_, h.settled, fun s hs hsize hpre w hw => ?_⟩
  · simp only [Bench.call, List.mem_append] at hf ⊢
    rcases hf with hf | hf | hf
    · exact Int.lt_of_lt_of_le (h.fresh f (List.mem_append_left _ hf)) hle
    · exact Int.lt_of_lt_of_le (h.fresh f (List.mem_append_right _ hf)) hle
    · exact hnew f hf
  · have hcode : b.assembler.instructions ++ c.code b.assembler <+: s.instructions := by
      rw [← QubitCall.run_instructions]
      exact hpre
    refine (h.assembled s (hs.trans happ) hsize ((List.prefix_append _ _).trans hcode) w hw).trans
      fun e' w' ⟨he, mem', hw', hm⟩ => ?_
    subst he
    have hlists := lists_of_prefix hcode
    rw [← hm.pc] at hlists
    refine (run_carries hsize hc hm.mirrors hlists w' hw').trans fun e'' w'' ⟨he, mem'', hw'', hp⟩ =>
      .here ⟨he, mem'', hw'', hp.mirrors, ?_, fun f hf => ?_, fun f hf => ?_⟩
    · rw [hp.pc, hm.pc]
      simp [Bench.call, Assembler.size, QubitCall.run_instructions]
    · have hkeep : ∀ f ∈ b.pending, mem''.reading f = mem'.reading f := fun f hf =>
        AppMemory.reading_congr (hp.arrays _ (h.fresh f (List.mem_append_right _ hf)))
      rcases List.mem_append.1 hf with hf | hf
      · rw [hkeep f hf]
        exact hm.pending f hf
      · exact hp.outcomes f hf
    · exact (AppMemory.reading_congr (hp.arrays _ (h.fresh f (List.mem_append_left _ hf)))).trans (hm.settled f hf)

/-- What has been assembled runs to its end. -/
theorem Ready.succeeds (h : b.Ready p mem) (hsize : b.assembler.size < Word.size64) :
    Succeeds p (fun w => ∃ mem', w.part.Solo b.assembler.appId mem' ∧ b.Assembled mem mem') (.new b.assembler.take.1)
      b.node :=
  (h.assembled b.assembler.take.1 rfl hsize (List.prefix_refl _) b.node h.solo).trans fun e w ⟨he, mem', hw, hm⟩ => by
    subst he
    exact .here ⟨end_exec hw hm.pc, mem', hw, hm⟩

theorem Ready.flush (h : b.Ready p mem) {w : Working (Node n m) n m} {mem' : AppMemory}
    (hw : w.part.Solo b.assembler.appId mem') (hm : b.Assembled mem mem') : (b.flush w).Ready p mem' := by
  refine ready_of_mirrors hw (hm.mirrors.congr rfl rfl rfl) rfl rfl h.fresh fun f hf => ?_
  rcases List.mem_append.1 hf with hf | hf
  · rw [hm.settled f hf]
    exact h.settled f hf
  · exact hm.pending f hf

theorem Ready.meanwhile (h : b.Ready p mem) {w : Working (Node n m) n m} (hi : Idle b.node w) :
    ({ b with node := w } : Bench n m).Ready p mem :=
  ⟨h.solo.idle hi, h.fresh, h.settled, fun s hs hsize hpre w hw => (h.assembled s hs hsize hpre w hw).trans
    fun _ _ ⟨he, mem', hw', hm⟩ => .here ⟨he, mem', hw', hm.mirrors, hm.pc, hm.pending, hm.settled⟩⟩

/-- A step keeps everything in order, and no outcome that is settled changes. -/
theorem Ready.step (h : b.Ready p mem) (hstep : b.Step p b') :
    ∃ mem', b'.Ready p mem' ∧ ∀ f ∈ b.settled, f ∈ b'.settled ∧ b'.reading f = b.reading f := by
  cases hstep with
  | call c hc =>
    have hr := h.call hc
    exact ⟨mem, hr, fun f hf => ⟨hf, (reading_eq hr.solo f).trans (reading_eq h.solo f).symm⟩⟩
  | flush hsize hf =>
    obtain ⟨-, mem', hw, hm⟩ := (h.succeeds hsize).finishes hf
    have hr := h.flush hw hm
    refine ⟨mem', hr, fun f hf => ⟨List.mem_append_left _ hf, ?_⟩⟩
    rw [reading_eq hr.solo, reading_eq h.solo, hm.settled f hf]
  | meanwhile hi =>
    have hr := h.meanwhile hi
    exact ⟨mem, hr, fun f hf => ⟨hf, (reading_eq hr.solo f).trans (reading_eq h.solo f).symm⟩⟩

theorem Ready.steps (h : b.Ready p mem) (hsteps : Relation.ReflTransGen (Step p) b b') :
    ∃ mem', b'.Ready p mem' ∧ ∀ f ∈ b.settled, f ∈ b'.settled ∧ b'.reading f = b.reading f := by
  induction hsteps with
  | refl => exact ⟨mem, h, fun _ hf => ⟨hf, rfl⟩⟩
  | tail _ hstep ih =>
    obtain ⟨mem₁, h₁, hkeep⟩ := ih
    obtain ⟨mem₂, h₂, hkeep'⟩ := h₁.step hstep
    refine ⟨mem₂, h₂, fun f hf => ?_⟩
    obtain ⟨hf₁, he₁⟩ := hkeep f hf
    obtain ⟨hf₂, he₂⟩ := hkeep' f hf₁
    exact ⟨hf₂, he₂.trans he₁⟩

/-- A session whose next step is an allocation keeps its assembler if no virtual id is left. -/
theorem session_keeps_assembler {s : Session} {kind : BlockKind} {name : String} {steps : List PlanStep}
    {outer : List Block} (hb : s.blocks = ⟨kind, .alloc name :: steps⟩ :: outer) {f : Fault}
    (hf : s.assembler.alloc = .error f) (q : ProcessId) (w : Working (Host n) n m) :
    (s.proceed q).exec w = (.error f, w) ∨
      ∃ s' : Session, (s.proceed q).exec w = (.ok (.go s'), w) ∧ s'.assembler = s.assembler := by
  apply Session.proceed_keeps_assembler hb
  simp [Session.assemble?, hf, bind, Except.bind]

/-- Whatever a program does with qubits that it holds, and wherever it cuts that into subroutines, each subroutine whose
length is a word runs to its end, whatever the rest of the node does meanwhile. Then the application maps the virtual
ids that the assembler has in use, and every outcome so far is a zero or a one, which no later subroutine changes. An
allocation for which no virtual id is left changes nothing. -/
theorem assembler_and_execution_agree {app : Int} {k : Nat} {p : ProcessId} {b₀ b : Bench n m} (h₀ : b₀.Opens app k)
    (h : Relation.ReflTransGen (Step p) b₀ b) :
    (b.assembler.size < Word.size64 → Succeeds p (fun w => (∀ v, v ∈ b.assembler.used ↔ (b.flush w).Maps v) ∧
        ∀ f ∈ b.settled ++ b.pending, (b.flush w).reading f = .ok (some 0) ∨ (b.flush w).reading f = .ok (some 1))
      (.new b.assembler.take.1) b.node) ∧
    (∀ f ∈ b.settled, (b.reading f = .ok (some 0) ∨ b.reading f = .ok (some 1)) ∧
      ∀ b', Relation.ReflTransGen (Step p) b b' → f ∈ b'.settled ∧ b'.reading f = b.reading f) ∧
    ∀ f, b.assembler.alloc = .error f → f.kind = .allocationExhausted ∧ b.call .alloc = b ∧
      ∀ (s : Session) (kind : BlockKind) (name : String) (steps : List PlanStep) (outer : List Block),
        s.assembler = b.assembler → s.blocks = ⟨kind, .alloc name :: steps⟩ :: outer →
          ∀ (q : ProcessId) (w : Working (Host n) n m), (s.proceed q).exec w = (.error f, w) ∨
            ∃ s' : Session, (s.proceed q).exec w = (.ok (.go s'), w) ∧ s'.assembler = s.assembler := by
  obtain ⟨mem, hr, -⟩ := h₀.ready.steps h
  have hbit : ∀ {b : Bench n m} {mem : AppMemory}, b.Ready p mem → ∀ f ∈ b.settled,
      b.reading f = .ok (some 0) ∨ b.reading f = .ok (some 1) := fun hr f hf => by
    obtain ⟨x, hx⟩ := hr.settled f hf
    rw [reading_eq hr.solo, hx]
    cases x with
    | false => exact .inl rfl
    | true => exact .inr rfl
  refine ⟨fun hsize => ?_, fun f hf => ⟨hbit hr f hf, fun b' hb' => ?_⟩, fun f hf => ?_⟩
  · refine (hr.succeeds hsize).trans fun e w ⟨hx, mem', hw, hm⟩ => .here ⟨hx, fun v => ?_, hbit (hr.flush hw hm)⟩
    rw [hm.mirrors.mapped]
    constructor
    · rintro ⟨u, q, hv, hq⟩
      exact ⟨q, hw.maps.2 ⟨u, hv, hq⟩⟩
    · rintro ⟨q, hm⟩
      obtain ⟨u, hv, hq⟩ := hw.maps.1 hm
      exact ⟨u, q, hv, hq⟩
  · obtain ⟨-, -, hkeep⟩ := hr.steps hb'
    exact hkeep f hf
  · rcases hun : b.assembler.unused 1 with _ | ⟨v, vs⟩
    · have hf' : b.assembler.alloc = .error (.virtualExhausted b.assembler.maxQubits) := by simp [Assembler.alloc, hun]
      obtain rfl := Except.error.inj (hf.symm.trans hf')
      refine ⟨rfl, ?_, fun s kind name steps outer ha hb q w => session_keeps_assembler hb (ha ▸ hf) q w⟩
      simp [Bench.call, QubitCall.run, hf]
    · simp [Assembler.alloc, hun] at hf

/-- A qubit that is allocated, turned and measured, on a node that has no other. -/
theorem assembler_and_execution_agree_on_a_measurement :
    let b₀ : Bench 1 0 := ⟨.new 0 1, [], [], (lone 0 1).atWork⟩
    ∃ w : Working (Node 1 0) 1 0,
      let b := (((b₀.call .alloc).call (.gate .h 0)).call (.measure 0)).flush w
      b₀.Opens 0 1 ∧ Relation.ReflTransGen (Step 0) b₀ b ∧ b.settled = [⟨0, 0⟩] ∧
        (b.reading ⟨0, 0⟩ = .ok (some 0) ∨ b.reading ⟨0, 0⟩ = .ok (some 1)) := by
  intro b₀
  have hpool : b₀.node.part.pool.size = 1 := QubitPool.size_build _ _
  have hopens : b₀.Opens 0 1 := {
    assembler := rfl
    pending := rfl
    settled := rfl
    apps := by rw [hpool]; rfl
    slots := fun _ => QubitPool.build_isAllocated _ _
    generic := rfl
    size := hpool.symm
    room := Nat.le_of_eq hpool.symm }
  have hcalls : Relation.ReflTransGen (Step 0) b₀ (((b₀.call .alloc).call (.gate .h 0)).call (.measure 0)) :=
    ((Relation.ReflTransGen.single (.call .alloc (by decide))).tail (.call (.gate .h 0) (by decide))).tail
      (.call (.measure 0) (by decide))
  obtain ⟨hruns, -, -⟩ := assembler_and_execution_agree hopens hcalls
  obtain ⟨w, hw⟩ := (hruns (by decide)).exists_finishes
  have hflush := hcalls.tail (.flush (by decide) hw)
  obtain ⟨-, hsettled, -⟩ := assembler_and_execution_agree hopens hflush
  exact ⟨w, hopens, hflush, rfl, (hsettled ⟨0, 0⟩ (List.mem_singleton_self _)).1⟩

end Bench

end QuantumNode
