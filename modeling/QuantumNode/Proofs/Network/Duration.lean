import QuantumNode.Proofs.Execution.Duration
import QuantumNode.Proofs.Network.Journey
import QuantumNode.Proofs.Network.Rehearsal

/-! How long subroutines take on generic devices, whatever else happens meanwhile: as long as the operations that they
have asked for, if they wait for no pairs. Whoever rests for the time of an operation has no other turn, so that nothing
else can make it go on, and goes on when the operation is done. -/
namespace QuantumNode

open Node Work Working

variable {n m : Nat}

def DeviceConfig.generic? : DeviceConfig → Option GenericDevice
  | generic g => some g
  | nv _ => none

theorem DeviceConfig.generic?_eq_some {c : DeviceConfig} {g : GenericDevice} : c.generic? = some g ↔ c = .generic g := by
  cases c <;> simp [generic?]

namespace Activity

/-- The subroutine that a process executes, and the node at which it does. -/
def execution? : Activity n m → Option (Fin n × Execution)
  | .dispatch i (.running _ e) | .client (.executing i e) => some (i, e)
  | _ => none

/-- Processes that execute subroutines, now or at other times. -/
def executes : Activity n m → Bool
  | .dispatch _ _ | .client (.executing _ _) => true
  | _ => false

theorem executes_of_execution? {a : Activity n m} {x : Fin n × Execution} (h : a.execution? = some x) :
    a.executes = true := by
  cases a with
  | dispatch i stage => rfl
  | client w =>
    cases w with
    | executing i e => rfl
    | _ => exact nomatch h
  | _ => exact nomatch h

end Activity

namespace Network

/-- The subroutine that a process goes on with, and the node at which it does. -/
def going? (s : Network n m) (p : ProcessId) : Option (Fin n × Execution) :=
  if s.current.map Prod.fst = some p then (s.processes.get? p).bind (·.activity.execution?) else none

/-- Whether a process begins with a subroutine when it goes on. -/
def begins (s : Network n m) (p : ProcessId) : Bool := (s.going? p).any (·.2.stage.isStart)

/-- The instruction that a process fetches when it goes on. -/
def fetches? (s : Network n m) (p : ProcessId) : Option Instruction :=
  (s.going? p).bind fun x => if x.2.stage.isFetch then x.2.fetched? (s.node x.1) else none

/-- The instructions that a process has fetched in some states of a run. -/
def executed (p : ProcessId) (past : List (Network n m)) : List Instruction := past.filterMap (·.fetches? p)

/-- How long the instructions that a process has fetched take on a generic device. -/
def span (p : ProcessId) (g : GenericDevice) (past : List (Network n m)) : Nat :=
  ((executed p past).map (Instruction.time g)).sum

/-- The states of a run from the one in which a process has begun with a subroutine at a node, latest first. -/
structure Since (p : ProcessId) (i : Fin n) (sub : Subroutine) (past since : List (Network n m)) (s₀ : Network n m) :
    Prop where
  split : ∃ before, past = since ++ s₀ :: before
  begun : s₀.going? p = some (i, .new sub)
  once : ∀ d ∈ since, d.begins p = false

/-- The states since a process has begun are those in which it does not. -/
theorem Since.find {p : ProcessId} {i : Fin n} {sub : Subroutine} {past since : List (Network n m)} {s₀ : Network n m}
    (h : Since p i sub past since s₀) :
    since = past.takeWhile (fun d => !d.begins p) ∧ past.find? (·.begins p) = some s₀ := by
  obtain ⟨⟨before, rfl⟩, hbegun, honce⟩ := h
  have hbegins : s₀.begins p = true := by rw [begins, hbegun]; rfl
  refine ⟨?_, ?_⟩
  · rw [List.takeWhile_append_of_pos fun d hd => by rw [honce d hd]; rfl,
      List.takeWhile_cons_of_neg (by simp [hbegins]), List.append_nil]
  · rw [List.find?_append, List.find?_eq_none.2 fun d hd => by simp [honce d hd], Option.none_or]
    exact List.find?_cons_of_pos hbegins

/-- A time that is as much later than a process has begun with a subroutine as its instructions so far take. -/
def Elapsed (p : ProcessId) (i : Fin n) (g : GenericDevice) (sub : Subroutine) (past : List (Network n m))
    (time : Nat) : Prop :=
  ∃ since s₀, Since p i sub past since s₀ ∧
    (s₀.now + span p g since < Word.size64 → time = s₀.now + span p g since)

variable {s s₁ s' : Network n m} {p q : ProcessId} {i : Fin n} {g : GenericDevice} {sub : Subroutine}
  {past : List (Network n m)} {e : Execution}

theorem going?_eq_some {x : Fin n × Execution} : s.going? p = some x ↔ s.current.map Prod.fst = some p ∧
    ∃ process, s.processes.get? p = some process ∧ process.activity.execution? = some x := by
  unfold going?
  split
  · rename_i hc
    simp [hc, Option.bind_eq_some_iff]
  · rename_i hc
    simp [hc]

theorem going?_of_ne (h : s.current.map Prod.fst ≠ some p) : s.going? p = none := if_neg h

theorem going?_of_current {process : Process n m} (hc : s.current.map Prod.fst = some p)
    (hp : s.processes.get? p = some process) : s.going? p = process.activity.execution? := by
  rw [going?, if_pos hc, hp, Option.bind_some]

theorem fetches?_of_ne (h : s.current.map Prod.fst ≠ some p) : s.fetches? p = none := by
  rw [fetches?, going?_of_ne h, Option.bind_none]

namespace Elapsed

theorem begin (h : s.going? p = some (i, .new sub)) : Elapsed p i g sub (s :: past) s.now :=
  ⟨[], s, ⟨⟨past, rfl⟩, h, fun _ hd => nomatch hd⟩, fun _ => rfl⟩

/-- A step that a process makes takes the time of the instruction that is fetched, if one is. -/
theorem step {time time' : Nat} (h : Elapsed p i g sub past time) (hne : s.begins p = false)
    (ht : let later := time + (s.fetches? p).elim 0 (Instruction.time g); later < Word.size64 → time' = later) :
    Elapsed p i g sub (s :: past) time' := by
  obtain ⟨since, s₀, ⟨⟨before, rfl⟩, hbegun, honce⟩, htime⟩ := h
  refine ⟨s :: since, s₀, ⟨⟨before, rfl⟩, hbegun, List.forall_mem_cons.2 ⟨hne, honce⟩⟩, fun hlt => ?_⟩
  have hspan : span p g (s :: since) = (s.fetches? p).elim 0 (Instruction.time g) + span p g since := by
    unfold span executed
    rw [List.filterMap_cons]
    cases s.fetches? p with
    | none => exact (Nat.zero_add _).symm
    | some j => rfl
  rw [hspan] at hlt ⊢
  have hnow := htime (by omega)
  rw [ht (by omega), hnow]
  omega

/-- Nothing that others do takes time from a process. -/
theorem rest {time : Nat} (h : Elapsed p i g sub past time) (hc : s.current.map Prod.fst ≠ some p) :
    Elapsed p i g sub (s :: past) time :=
  h.step (by rw [begins, going?_of_ne hc]; rfl) fun _ => by rw [fetches?_of_ne hc]; rfl

end Elapsed

/-- A process that executes a subroutine is on time: it is to begin, or goes on when its instructions so far are
done. -/
inductive OnTime (past : List (Network n m)) (s : Network n m) (p : ProcessId) (i : Fin n) (g : GenericDevice) :
    Execution → Prop where
  | start {e : Execution} (hst : e.stage = .start) : OnTime past s p i g e
  | now {e : Execution} (hst : e.stage = .fetch ∨ e.stage.isOperating = true) (hc : s.current.map Prod.fst = some p)
      (h : Elapsed p i g e.subroutine past s.now) : OnTime past s p i g e
  | later {e : Execution} (hst : e.stage.isOperating = true) (hc : s.current.map Prod.fst ≠ some p)
      {t : Scheduled (NetworkEvent n m)} (ht : t ∈ s.agenda.queue) (hr : t.event.resumed? = some p)
      (h : Elapsed p i g e.subroutine past t.time) : OnTime past s p i g e

/-- What holds of a process along every run: those that are still to begin have no turns, those that execute subroutines
have no more than one, and are on time. -/
structure Timely (past : List (Network n m)) (s : Network n m) (p : ProcessId) : Prop where
  unborn : s.fresh ≤ p → s.processes.get? p = none ∧ s.turns p = 0
  once : ∀ process, s.processes.get? p = some process → process.activity.executes = true → s.turns p ≤ 1
  punctual : ∀ process, s.processes.get? p = some process → ∀ i e, process.activity.execution? = some (i, e) →
    ∀ g, (s.node i).device.config = .generic g → e.subroutine.IsLocal → OnTime past s p i g e

/-- Nothing is taken back, and nothing but other processes may begin. -/
theorem Timely.congr (h : Timely past s p) (hf : s.fresh ≤ s'.fresh)
    (hp : s'.processes.get? p = s.processes.get? p) (ht : s'.turns p ≤ s.turns p) (hc : s'.current = s.current)
    (hk : s.Upholds s') (hn : ∀ i, s'.node i = s.node i) : Timely past s' p := by
  refine ⟨fun hle => ?_, fun process hget ha => ?_, fun process hget i e he g hg hl => ?_⟩
  · obtain ⟨hnone, hzero⟩ := h.unborn (Nat.le_trans hf hle)
    exact ⟨hp.trans hnone, Nat.le_zero.1 (hzero ▸ ht)⟩
  · exact Nat.le_trans ht (h.once process (hp ▸ hget) ha)
  · rw [hn] at hg
    cases h.punctual process (hp ▸ hget) i e he g hg hl with
    | start hst => exact .start hst
    | now hst hc' helapsed =>
      have hnow : s'.now = s.now := hk.now_eq
      exact .now hst (hc ▸ hc') (hnow ▸ helapsed)
    | later hst hc' hmem hr helapsed => exact .later hst (hc ▸ hc') (hk.mem hmem) hr helapsed

/-! Others at work. -/

/-- Whoever has but one turn is resumed by one event. -/
theorem eq_of_resumed (h : s.turns p ≤ 1) {t u : Scheduled (NetworkEvent n m)} (ht : t ∈ s.agenda.queue)
    (htp : t.event.resumed? = some p) (hu : u ∈ s.agenda.queue) (hup : u.event.resumed? = some p) : t = u := by
  let resumed (t : Scheduled (NetworkEvent n m)) : Option ProcessId := t.event.resumed?
  obtain ⟨before, after, hq⟩ := List.append_of_mem ht
  have hcount : ((before ++ t :: after).filterMap resumed).count p ≤ 1 := by
    have hle : (s.agenda.queue.filterMap resumed).count p ≤ s.due p := by
      unfold due ahead
      rw [List.filterMap_append, List.count_append, List.filterMap_map]
      exact Nat.le_add_left _ _
    unfold turns at h
    rw [← hq]
    omega
  have hnone : ∀ l : List (Scheduled (NetworkEvent n m)), (l.filterMap resumed).count p = 0 → u ∉ l :=
    fun l hl hmem => List.count_eq_zero.1 hl (List.mem_filterMap.2 ⟨u, hmem, hup⟩)
  have htp' : resumed t = some p := htp
  rw [List.filterMap_append, List.count_append, List.filterMap_cons_some htp', List.count_cons_self] at hcount
  rw [hq] at hu
  rcases List.mem_append.1 hu with hu | hu
  · exact absurd hu (hnone before (by omega))
  · exact ((List.mem_cons.1 hu).resolve_right (hnone after (by omega))).symm

theorem OnTime.outlasts (h : OnTime past s p i g e) (hc : s.current.map Prod.fst ≠ some p) (hturns : s.turns p ≤ 1)
    (ho : Outlasts p s s') : OnTime (s :: past) s' p i g e := by
  cases h with
  | start hst => exact .start hst
  | now _ hc' _ => exact absurd hc' hc
  | later hst _ ht hr helapsed =>
    rcases ho.resumed with ⟨hc', hqueue⟩ | ⟨hc', u, hu, hur, hnow⟩
    · exact .later hst hc' (hqueue _ ht hr) hr (helapsed.rest hc)
    · obtain rfl := eq_of_resumed hturns ht hr hu hur
      exact .now (.inr hst) hc' (hnow ▸ helapsed.rest hc)

theorem Timely.besides {x : Option ProcessId} (h : Timely past s p) (hb : Besides x s s') (hx : x ≠ some p)
    (hc : s.current.map Prod.fst ≠ some p) : Timely (s :: past) s' p := by
  have ho := hb.outlasts p hx
  refine ⟨fun hp => ?_, fun process hp ha => ?_, fun process hp i e he g hg hl => ?_⟩
  · obtain ⟨hnone, hzero⟩ := h.unborn (hb.fresh ▸ hp)
    exact ⟨ho.process.trans hnone, Nat.le_zero.1 (hzero ▸ ho.turns)⟩
  · exact Nat.le_trans ho.turns (h.once process (ho.process ▸ hp) ha)
  · rw [ho.process] at hp
    rw [hb.config] at hg
    exact (h.punctual process hp i e he g hg hl).outlasts hc
      (h.once process hp (Activity.executes_of_execution? he)) ho

/-! The process that goes on. -/

section

variable {wake : Wake} {a a' : Activity n m} {flow : Flow m (Activity n m) (Option Outcome)}

/-- A client that executes no subroutine begins with none. -/
theorem stepClient_idle {w : ClientWork n m} (hw : (Activity.client w).executes = false)
    (h : (s.stepClient p w wake).1 = .ok flow) (hgo : flow.going? = some a') : a'.executes = false := by
  have hmap : ∀ {α : Type} {r : Except Fault α} {f : α → Flow m (Activity n m) (Option Outcome)},
      r.map f = .ok flow → (∀ x a, (f x).going? = some a → a.executes = false) → a'.executes = false := by
    intro α r f hr hf
    cases r with
    | error _ => exact nomatch hr
    | ok x =>
      cases hr
      exact hf x a' hgo
  unfold stepClient at h
  split at h
  · exact nomatch hw
  · exact hmap h fun _ _ ha => by cases ha; rfl
  · exact hmap h fun _ _ ha => by cases ha; rfl
  · rw [atNode_eq] at h
    dsimp only at h
    exact hmap h fun _ _ ha => nomatch ha
  · exact hmap h fun _ _ ha => by cases ha; rfl
  · exact hmap h fun _ _ ha => by cases ha; rfl
  · cases h
    exact nomatch hgo
  · cases h
    cases hgo
    rfl

theorem going_of_step {α β : Type} {r : Except Fault (Flow m α β) × Network n m} {k : α → Activity n m}
    {k' : β → Option Outcome} (h : (step r k k').1 = .ok flow) (hgo : flow.going? = some a') : ∃ x, a' = k x := by
  obtain ⟨f, -, rfl⟩ := step_ok (Prod.ext h rfl)
  rw [Flow.going?_map] at hgo
  obtain ⟨x, -, hx⟩ := Option.map_eq_some_iff.1 hgo
  exact ⟨x, hx.symm⟩

/-- A process at work at a node. -/
theorem exec_of_step {α β : Type} {x : NodeWork n m (Flow m α β)} {k : α → Activity n m} {k' : β → Option Outcome}
    (h : (step (s.atNode i x) k k').1 = .ok flow) :
    ∃ f w, x.exec (s.working i) = (.ok f, w) ∧ flow = f.map k k' ∧ (step (s.atNode i x) k k').2 = s.commit i w := by
  obtain ⟨f, hf, rfl⟩ := step_ok (Prod.ext h rfl)
  rw [atNode_eq] at hf
  exact ⟨f, _, Prod.ext (Prod.mk.inj hf).1 rfl, rfl, rfl⟩

/-- A process that executes subroutines has done so before. -/
theorem executes_of_stepActivity (h : (s.stepActivity p wake a).1 = .ok flow) (hgo : flow.going? = some a')
    (ha : a'.executes = true) : a.executes = true := by
  cases a with
  | dispatch i stage => rfl
  | pairing i stage =>
    obtain ⟨x, rfl⟩ := going_of_step h hgo
    exact nomatch ha
  | host i stage =>
    obtain ⟨x, rfl⟩ := going_of_step h hgo
    exact nomatch ha
  | client w =>
    cases w with
    | executing i e => rfl
    | _ => exact absurd ha (Bool.eq_false_iff.1 (stepClient_idle rfl h hgo))

/-- A process that executes subroutines has a turn more only if it rests. -/
theorem stepActivity_oneTurn (ha : a.executes = true) (h : (s.stepActivity p wake a).1 = .ok flow) :
    ∃ i w, (s.stepActivity p wake a).2 = s.commit i w ∧
      ∀ q, w.turns q ≤ (s.working i).turns q + if flow.rests = true ∧ q = p then 1 else 0 := by
  have hwork : ∀ {α β : Type} {i} {x : NodeWork n m (Flow m α β)} {k : α → Activity n m} {k' : β → Option Outcome},
      OneTurn p x → (step (s.atNode i x) k k').1 = .ok flow → ∃ j w, (step (s.atNode i x) k k').2 = s.commit j w ∧
        ∀ q, w.turns q ≤ (s.working j).turns q + if flow.rests = true ∧ q = p then 1 else 0 := by
    intro α β i x k k' hx h
    obtain ⟨f, w, hf, rfl, hw⟩ := exec_of_step h
    refine ⟨i, w, hw, fun q => ?_⟩
    rw [Flow.rests_map]
    exact hx _ f w hf q
  cases a with
  | dispatch i stage => exact hwork (Dispatch.step_oneTurn p stage wake) h
  | client w =>
    cases w with
    | executing i e => exact hwork (Execution.step_oneTurn p e) h
    | _ => exact nomatch ha
  | _ => exact nomatch ha

/-- A process that is left executing a subroutine has made a step of it, unless the subroutine is to begin. -/
theorem stepActivity_execution (ha : a.executes = true) (h : (s.stepActivity p wake a).1 = .ok flow)
    (hgo : flow.going? = some a') (he : a'.execution? = some (i, e)) :
    e.stage = .start ∨ ∃ e₀ x w, a.execution? = some (i, e₀) ∧ (Execution.step p e₀).exec (s.working i) = (.ok x, w) ∧
      (s.stepActivity p wake a).2 = s.commit i w ∧ x.going? = some e ∧ flow.rests = x.rests ∧ flow.asks = false := by
  cases a with
  | dispatch j stage =>
    obtain ⟨f, w, hx, rfl, hw⟩ := exec_of_step h
    rw [Flow.going?_map, Flow.going?_eq] at hgo
    obtain rfl : Activity.dispatch j f.stage = a' := Option.some.inj hgo
    cases hst : f.stage with
    | running app e' =>
      rw [hst] at he
      cases he
      rcases Dispatch.step_running p stage wake _ f w hx app e hst with hstart | ⟨e₀, x, rfl, hx', hgo', hrests⟩
      · exact .inl hstart
      · refine .inr ⟨e₀, x, w, rfl, hx', hw, hgo', ?_, ?_⟩
        · rw [Flow.rests_map, hrests]
        · rw [Flow.asks_map, dispatch_asks hx]
    | _ =>
      rw [hst] at he
      exact nomatch he
  | client w =>
    cases w with
    | executing j e₀ =>
      obtain ⟨f, w, hx, rfl, hw⟩ := exec_of_step h
      rw [Flow.going?_map] at hgo
      obtain ⟨e', hgo', rfl⟩ := Option.map_eq_some_iff.1 hgo
      cases he
      refine .inr ⟨e₀, f, w, rfl, hx, hw, hgo', Flow.rests_map _ _ _, ?_⟩
      rw [Flow.asks_map, Execution.step_local p e₀ _ f w hx]
    | _ => exact nomatch ha
  | _ => exact nomatch ha

theorem Resolves.current_eq {process : Process n m} (h : s.Resolves p process flow s') (ha : flow.asks = false)
    (hgo : flow.going? = some a) : s'.current.map Prod.fst = if flow.rests = true then none else some p := by
  cases h with
  | go a => rfl
  | rest a => rfl
  | finished o => exact nomatch hgo
  | answered a h => exact nomatch ha
  | waiting a h => exact nomatch ha

theorem resumes_of_commit (s : Network n m) (i : Fin n) {w : Working (Node n m) n m} {delay : Nat}
    (h : .resume delay p wake ∈ w.effects.toList) : ∃ t ∈ (s.commit i w).agenda.queue,
      t.event = .resume p wake ∧ t.time = (s.now + delay) % Word.size64 := by
  rw [commit, ← Array.foldl_toList]
  exact resumes_of_effect h { s.setNode i w.part with quantum := w.quantum }

/-- A step of an execution that is on time leaves it on time. -/
theorem OnTime.step {process : Process n m} {e₀ : Execution} {x : Execution.Step m} {w : Working (Node n m) n m}
    (h : OnTime past s p i g e₀) (hgoing : s.going? p = some (i, e₀)) (hc : s.current.map Prod.fst = some p)
    (hg : (s.node i).device.config = .generic g) (hl : e₀.subroutine.IsLocal)
    (hx : (Execution.step p e₀).exec (s.working i) = (.ok x, w)) (hxgo : x.going? = some e)
    (hr : (s.commit i w).Resolves p process flow s') (ha : flow.asks = false) (hgo : flow.going? = some a)
    (hrests : flow.rests = x.rests) : OnTime (s :: past) s' p i g e := by
  have hcurrent : s'.current.map Prod.fst = if x.rests = true then none else some p := hrests ▸ hr.current_eq ha hgo
  have hupholds : s.Upholds s' := (upholds_commit s i w).trans hr.upholds
  have hnow : s'.now = s.now := hupholds.now_eq
  have hfetch : ∀ {time}, x = .go { e₀ with stage := .fetch } → s'.now = time →
      Elapsed p i g e₀.subroutine (s :: past) time → OnTime (s :: past) s' p i g e := by
    rintro _ rfl rfl helapsed
    cases hxgo
    exact .now (.inl rfl) hcurrent helapsed
  cases h with
  | start hst =>
    refine hfetch (Execution.step_fetches (.inl hst) _ _ _ hx) hnow (.begin (hgoing.trans ?_))
    rw [Execution.new, ← hst]
  | later _ hc' _ _ _ => exact absurd hc hc'
  | now hst _ helapsed =>
    have hne : s.begins p = false := by
      rw [begins, hgoing, Option.any_some]
      cases hstage : e₀.stage with
      | start => simp [hstage, ExecutionStage.isOperating] at hst
      | _ => rfl
    rcases hst with hst | hst
    · have hfetched : s.fetches? p = e₀.fetched? (s.node i) := by
        rw [fetches?, hgoing, Option.bind_some, if_pos (ExecutionStage.isFetch_iff.2 hst)]
      have hfetch' : (Execution.fetch p e₀).exec (s.working i) = (.ok x, w) := by
        rw [← hx, Execution.step, hst]
      rcases Execution.fetch_takes hl hg x w hfetch' with ⟨-, rfl⟩ | ⟨j, hj, htakes⟩
      · cases hxgo
      replace hj : s.fetches? p = some j := hfetched.trans hj
      cases htakes with
      | none hj' =>
        refine hfetch rfl hnow (helapsed.step hne fun _ => ?_)
        rw [hj, Option.elim_some, Instruction.time, hj']
        rfl
      | time _ hoperating hresume =>
        cases hxgo
        obtain ⟨t, ht, hevent, htime⟩ := s.resumes_of_commit i hresume
        refine .later hoperating (by rw [hcurrent]; simp [Flow.rests]) (hr.upholds.mem ht) (by rw [hevent]; rfl)
          (helapsed.step hne fun hlt => ?_)
        rw [hj] at hlt ⊢
        exact htime.trans (Nat.mod_eq_of_lt hlt)
    · refine hfetch (Execution.step_fetches (.inr hst) _ _ _ hx) hnow (helapsed.step hne fun _ => ?_)
      have hnone : s.fetches? p = none := by
        have hno : ¬ e₀.stage.isFetch = true := fun hf => by
          rw [ExecutionStage.isFetch_iff.1 hf] at hst
          cases hst
        rw [fetches?, hgoing, Option.bind_some, if_neg hno]
      rw [hnone]
      rfl

/-- What a step of a process leaves it with. -/
theorem Timely.resolves {process : Process n m} (h : Timely past s p) (hc : s.current.map Prod.fst = some p)
    (hp : s.processes.get? p = some process) (hok : (s.stepActivity p wake process.activity).1 = .ok flow)
    (hr : (s.stepActivity p wake process.activity).2.Resolves p process flow s') (hb : Besides (some p) s s')
    (hborn : ¬ s.fresh ≤ p) : Timely (s :: past) s' p := by
  have hafter : ∀ process', s'.processes.get? p = some process' → flow.going? = some process'.activity := by
    intro process' hp'
    rw [hr.processes, if_pos rfl] at hp'
    obtain ⟨a, ha, rfl⟩ := Option.map_eq_some_iff.1 hp'
    exact ha
  refine ⟨fun hle => absurd (hb.fresh ▸ hle) hborn, fun process' hp' hex => ?_, fun process' hp' i e he g hg hl => ?_⟩
  · have hex₀ := executes_of_stepActivity hok (hafter process' hp') hex
    obtain ⟨i, w, hcommit, hturns⟩ := stepActivity_oneTurn hex₀ hok
    rw [hcommit] at hr
    have hc' : (s.commit i w).current.map Prod.fst = some p := by rw [(spares_commit s i w).current]; exact hc
    have hresolves := (hr.turns hc' p).2
    have hstep := turns_commit s i w p
    have hlines : (s.working i).turns p = (s.node i).lines p := Nat.zero_add _
    have hwork := hturns p
    have honce := h.once process hp hex₀
    omega
  · have hex₀ := executes_of_stepActivity hok (hafter process' hp') (Activity.executes_of_execution? he)
    rcases stepActivity_execution hex₀ hok (hafter process' hp') he with
      hst | ⟨e₀, x, w, he₀, hx, hcommit, hgo, hrests, ha⟩
    · exact .start hst
    · rw [hcommit] at hr
      rw [hb.config] at hg
      have hgoing : s.going? p = some (i, e₀) := (going?_of_current hc hp).trans he₀
      have hl₀ : e₀.subroutine.IsLocal := Execution.step_stays p e₀ _ _ _ hx e hgo ▸ hl
      exact (h.punctual process hp i e₀ he₀ g hg hl₀).step hgoing hc hg hl₀ hx hgo hr ha (hafter process' hp') hrests

/-- The process that goes on makes a step, at which it fares well, and nobody else is concerned. -/
theorem Timely.proceed (h : Timely past s p) (hc : s.current.map Prod.fst = some p)
    (hp : s.proceed = .went s' ∨ ∃ f, s.proceed = .failed f s') : Timely (s :: past) s' p ∧ Besides (some p) s s' := by
  have hborn : ¬ s.fresh ≤ p := fun hle => by
    have hdue := due_of_current hc
    have hzero : s.due p + s.waits p = 0 := (h.unborn hle).2
    omega
  have hgone : Besides (some p) s s' → s'.processes.get? p = none → Timely (s :: past) s' p := fun hb hnone =>
    ⟨fun hle => absurd (hb.fresh ▸ hle) hborn, fun _ hsome => (nomatch hnone.symm.trans hsome),
      fun _ hsome => nomatch hnone.symm.trans hsome⟩
  obtain ⟨⟨p, wake⟩, hcur, rfl⟩ := Option.map_eq_some_iff.1 hc
  unfold Network.proceed at hp
  rw [hcur] at hp
  dsimp only at hp
  split at hp
  · rename_i hnone
    obtain rfl : s.setCurrent none = s' := by
      rcases hp with hp | ⟨_, hp⟩
      · cases hp
        rfl
      · exact nomatch hp
    have hb : Besides (some p) s (s.setCurrent none) := ⟨rfl, fun _ => rfl, fun q _ => ⟨rfl,
      turns_current s q ▸ Nat.le_add_left _ _, .inl ⟨by simp [setCurrent], fun t ht _ => ht⟩⟩⟩
    exact ⟨hgone hb hnone, hb⟩
  · rename_i process hget
    have habides := s.abides_stepActivity p wake process.activity
    rcases stepProcess_cases hp with ⟨flow, hok, hr⟩ | ⟨-, hperishes⟩
    · have hb := hr.besides habides hc
      exact ⟨h.resolves hc hget hok hr hb hborn, hb⟩
    · have hb := hperishes.besides habides
      exact ⟨hgone hb (by rw [hperishes.processes, if_pos rfl]), hb⟩

/-- An execution that goes on keeps its process going. -/
theorem stepActivity_goes {e' : Execution} (ha : a.execution? = some (i, e))
    (hx : Ends (Execution.step p e) (s.working i) fun x _ => x = .go e') (h : (s.stepActivity p wake a).1 = .ok flow) :
    ∃ a', flow = .go a' ∧ a'.execution? = some (i, e') := by
  cases a with
  | dispatch j stage =>
    cases stage with
    | running app e₀ =>
      cases ha
      obtain ⟨f, w', hf, rfl, -⟩ := exec_of_step h
      obtain ⟨x, w, hstep, hrest⟩ := exec_bind_ok.1 hf
      rw [hx x w hstep] at hrest
      cases hrest
      exact ⟨_, rfl, rfl⟩
    | _ => exact nomatch ha
  | client w =>
    cases w with
    | executing j e₀ =>
      cases ha
      obtain ⟨f, w', hf, rfl, -⟩ := exec_of_step h
      rw [hx f w' hf]
      exact ⟨_, rfl, rfl⟩
    | _ => exact nomatch ha
  | _ => exact nomatch ha

/-- Time stands still while somebody goes on, and an execution that goes on does so at once, unless it meets a fault. -/
theorem going?_of_proceed {e' : Execution} (hgo : s.going? p = some (i, e))
    (hx : Ends (Execution.step p e) (s.working i) fun x _ => x = .go e')
    (hp : s.proceed = .went s' ∨ ∃ f, s.proceed = .failed f s') :
    s'.now = s.now ∧ (s'.going? p = some (i, e') ∨ s'.processes.get? p = none) := by
  obtain ⟨hc, hprocess⟩ := going?_eq_some.1 hgo
  obtain ⟨process, hget, he⟩ := hprocess
  obtain ⟨⟨q, wake⟩, hcur, rfl⟩ := Option.map_eq_some_iff.1 hc
  have hupholds := (s.abides_stepActivity q wake process.activity).upholds
  unfold Network.proceed at hp
  rw [hcur] at hp
  dsimp only at hp hget
  rw [hget] at hp
  rcases stepProcess_cases hp with ⟨flow, hok, hr⟩ | ⟨-, hperishes⟩
  · have hnow : s'.now = s.now := (hupholds.trans hr.upholds).now_eq
    obtain ⟨a', rfl, ha'⟩ := stepActivity_goes he hx hok
    have hget' : s'.processes.get? q = some { process with activity := a' } := by
      rw [hr.processes, if_pos rfl]
      rfl
    exact ⟨hnow, .inl (going?_eq_some.2 ⟨hr.current_eq rfl rfl, _, hget', ha'⟩)⟩
  · have hnow : (s.stepActivity q wake process.activity).2.now = s.now := hupholds.now_eq
    exact ⟨hperishes.now.trans hnow, .inr (by rw [hperishes.processes, if_pos rfl])⟩

end

/-! Runs. -/

theorem timely_spawn (h : ∀ p, Timely past s p) (name : String) {a : Activity n m}
    (ha : ∀ i e, a.execution? = some (i, e) → e.stage = .start) (p : ProcessId) : Timely past (s.spawn name a) p := by
  have hturns := turns_spawn s name a p
  have hprocess : (s.spawn name a).processes.get? p = if p = s.fresh then some ⟨name, a⟩ else s.processes.get? p := by
    change (s.processes.insert s.fresh ⟨name, a⟩).get? p = _
    split
    · rename_i hp
      rw [hp, SortedMap.get?_insert_self]
    · rename_i hp
      exact SortedMap.get?_insert_of_ne _ hp _
  by_cases hp : p = s.fresh
  · rw [if_pos hp] at hprocess
    rw [if_pos hp.symm, ((h p).unborn (Nat.le_of_eq hp.symm)).2] at hturns
    refine ⟨fun hle => absurd hle (hp ▸ Nat.not_succ_le_self _), fun _ _ _ => Nat.le_of_eq hturns, ?_⟩
    intro process hget i e he g _ _
    rw [hprocess] at hget
    cases hget
    exact .start (ha i e he)
  · rw [if_neg hp] at hprocess
    rw [if_neg (Ne.symm hp)] at hturns
    refine (h p).congr ?_ hprocess (Nat.le_of_eq hturns) rfl (upholds_schedule _ 0 _) fun _ => rfl
    exact Nat.le_succ _

theorem Unfolds.timely (h : s.Unfolds s') (ht : ∀ p, Timely past s p) (p : ProcessId) : Timely (s :: past) s' p := by
  have hidle : s.current = none → ∀ p, Timely (s :: past) s p := fun hc p =>
    (ht p).besides (x := none) ((Abides.refl s).besides_of_idle hc) nofun (by simp [hc])
  cases h with
  | proceed h =>
    cases hc : s.current with
    | none =>
      rw [proceed_of_idle hc] at h
      rcases h with h | ⟨_, h⟩
      · exact nomatch h
      · exact nomatch h
    | some x =>
      have hc' : s.current.map Prod.fst = some x.1 := by rw [hc, Option.map_some]
      obtain ⟨hown, hb⟩ := (ht x.1).proceed hc' h
      by_cases hp : p = x.1
      · rw [hp]
        exact hown
      · have hne : some x.1 ≠ some p := fun h => hp (Option.some.inj h).symm
        exact (ht p).besides hb hne (hc' ▸ hne)
  | start hc =>
    refine start_invariant (I := fun s' => ∀ p, Timely (s :: past) s' p)
      (fun s' h p => (h p).congr (Nat.le_refl _) rfl (Nat.le_refl _) rfl .refl fun _ => rfl)
      (fun s' name a hnew h => timely_spawn h name fun i e he => ?_) (hidle hc) p
    cases a with
    | dispatch j stage =>
      cases stage with
      | running app e => exact nomatch hnew
      | _ => exact nomatch he
    | client w => exact nomatch hnew
    | _ => exact nomatch he
  | spawn hc name w hw =>
    refine timely_spawn (hidle hc) name (fun i e he => ?_) p
    cases w with
    | executing j e' =>
      cases he
      exact hw _ _ rfl
    | _ => exact nomatch he
  | besides hc h => exact (ht p).besides h nofun (by simp [hc])

theorem Journey.timely {c : NetworkConfig} {past : List (Network c.nodes.length c.links.length)}
    {s : Network c.nodes.length c.links.length} (h : Journey c past s) (p : ProcessId) : Timely past s p := by
  induction h generalizing p with
  | @built s h =>
    have hb := built_of_build h
    have hnone : s.processes.get? p = none := by rw [hb.processes]; rfl
    exact ⟨fun _ => ⟨hnone, hb.turns p⟩, fun _ hsome => absurd (hnone.symm.trans hsome) nofun,
      fun _ hsome => absurd (hnone.symm.trans hsome) nofun⟩
  | step _ hs ih => exact hs.unfolds.timely ih p

/-- Whenever a process comes to the end of a subroutine that waits for no pairs, at a node with a generic device, it
does so as much later than it has begun as the operations take of the instructions that it has fetched since then,
whatever else has been going on. Every other instruction takes no time: after it the next one is fetched at once, unless
it fails and ends its process. -/
theorem local_subroutines_take_their_operations {c : NetworkConfig}
    {past : List (Network c.nodes.length c.links.length)} {s : Network c.nodes.length c.links.length}
    (h : Journey c past s) {p : ProcessId} {i : Fin c.nodes.length} {e : Execution} {g : GenericDevice}
    (hgo : s.going? p = some (i, e)) (hg : (s.node i).device.config = .generic g) (hl : e.subroutine.IsLocal) :
    (∀ w, (Execution.step p e).exec (s.working i) = (.ok (.finished .ok), w) →
        ∃ since s₀, Since p i e.subroutine past since s₀ ∧
          (s₀.now + span p g since < Word.size64 → s.now = s₀.now + span p g since)) ∧
      ∀ j, s.fetches? p = some j → j.operation? = none → ∀ s', s.Continues s' →
        s'.now = s.now ∧ (s'.going? p = some (i, { e with stage := .fetch }) ∨ s'.processes.get? p = none) := by
  obtain ⟨hc, process, hget, he⟩ := going?_eq_some.1 hgo
  refine ⟨fun w hx => ?_, fun j hj hnone s' hs => ?_⟩
  · cases (h.timely p).punctual process hget i e he g hg hl with
    | start hst => cases Execution.step_fetches (.inl hst) _ _ _ hx
    | now _ _ helapsed => exact helapsed
    | later _ hc' _ _ _ => exact absurd hc hc'
  · obtain ⟨hfetch, hfetched⟩ : e.stage.isFetch = true ∧ e.fetched? (s.node i) = some j := by
      rw [fetches?, hgo, Option.bind_some] at hj
      simpa using hj
    have hx : Ends (Execution.step p e) (s.working i) fun x _ => x = .go { e with stage := .fetch } := by
      rw [Execution.step, ExecutionStage.isFetch_iff.1 hfetch]
      refine (Execution.fetch_takes hl hg).mono fun x w hx => ?_
      rcases hx with ⟨hend, -⟩ | ⟨k, hk, htakes⟩
      · cases hend.symm.trans hfetched
      · obtain rfl : k = j := Option.some.inj (hk.symm.trans hfetched)
        cases htakes with
        | none => rfl
        | time hi => simp [hnone] at hi
    cases hs.unfolds with
    | proceed hp => exact going?_of_proceed hgo hx hp
    | start hc' => simp [hc'] at hc
    | spawn hc' => simp [hc'] at hc
    | besides hc' => simp [hc'] at hc

/-- A qubit is reset, flipped and measured, while the other node has a qubit reset. -/
def duoMeasuring : List (Direction duo.nodes.length) :=
  duoOpening ++ [.act (.post 1 "SUBROUTINE\n# NETQASM 1.0\n# APPID 0\nset Q0 0\nqalloc Q0\ninit Q0\n"),
    .act (.post 0 "SUBROUTINE\n# NETQASM 1.0\n# APPID 0\nset Q0 0\nqalloc Q0\ninit Q0\nx Q0\nmeas Q0 M0\n"),
    .run 1000000 27]

theorem local_subroutines_take_their_operations_measured : ∃ past s e g since s₀, Journey duo past s ∧
    s.going? (dispatchId (0 : Fin duo.nodes.length)) = some (0, e) ∧ (s.node 0).device.config = .generic g ∧
      e.subroutine.IsLocal ∧ Since (dispatchId (0 : Fin duo.nodes.length)) 0 e.subroutine past since s₀ ∧
        span (dispatchId (0 : Fin duo.nodes.length)) g since = 813700 ∧ s.now = s₀.now + 813700 := by
  let p : ProcessId := dispatchId (0 : Fin duo.nodes.length)
  obtain ⟨moments, s, ht, hs⟩ := Trace.exists_of_rehearse duo (fun _ => True) duoMeasuring
    (fun r => (∃ x ∈ r.2.going? p, x.1 = 0 ∧ x.2.subroutine.IsLocal ∧ x.2.stage.isFetch = true ∧
        ∃ mem ∈ (r.2.node 0).apps.get? x.2.app, x.2.subroutine.instructions[mem.pc]?.isNone = true) ∧
      (∃ g ∈ (r.2.node 0).device.config.generic?,
        span p g ((r.1.map Moment.state).takeWhile fun d => !d.begins p) = 813700) ∧
      ((r.1.map Moment.state).find? (·.begins p)).map Network.now = some 0) (by decide +kernel) (fun _ _ => trivial)
  obtain ⟨⟨⟨i, e⟩, hgo, hi, hl, hfetch, mem, hmem, hpc⟩, ⟨g, hg, hspan⟩, hbegun⟩ := of_decide_eq_true hs
  obtain rfl : i = 0 := hi
  replace hg := DeviceConfig.generic?_eq_some.1 hg
  obtain ⟨strides, hcourse, hstates⟩ := ht.course
  have hjourney : Journey duo (moments.map Moment.state) s := hstates ▸ hcourse.journey
  have hx : (Execution.step p e).exec (s.working 0) = (.ok (.finished .ok), s.working 0) :=
    Execution.step_finishes p (ExecutionStage.isFetch_iff.1 hfetch) hmem (Option.isNone_iff_eq_none.1 hpc)
  obtain ⟨since, s₀, hsince, htime⟩ := (local_subroutines_take_their_operations hjourney hgo hg hl).1 _ hx
  obtain ⟨heq, hfind⟩ := hsince.find
  rw [← heq] at hspan
  rw [hfind] at hbegun
  have hzero : s₀.now = 0 := Option.some.inj hbegun
  rw [hspan] at htime
  exact ⟨_, s, e, g, since, s₀, hjourney, hgo, hg, hl, hsince, hspan, htime (by rw [hzero]; decide)⟩

end Network

end QuantumNode
