import QuantumNode.Proofs.Network.Build
import QuantumNode.Proofs.Network.Turn

/-! Runs that go on after faults. A fault ends its process and nothing else; whoever runs the network may let it go on,
and may take and return slots of a node by hand. -/
namespace QuantumNode

open Work Working

variable {n m : Nat}

/-- What may be done to the slots of a node by hand. -/
inductive SlotAct where
  | allocate
  | allocateCommunication
  | free (slot : Nat)

def SlotAct.work : SlotAct → NodeWork n m Unit
  | allocate => do let _ ← Node.allocate
  | allocateCommunication => do let _ ← Node.allocateCommunication
  | free slot => Node.freeQubit slot

/-- Who is behind a step of a run. -/
inductive Cause (n : Nat) where
  | network
  | client (a : ClientAct n)
  | slots (i : Fin n) (a : SlotAct)

namespace Network

/-- One step of a run: the network moves, or a process of it meets a fault, or somebody acts on it from outside. An act
that meets a fault has done what it did before. -/
inductive Follows (s : Network n m) : Cause n → Network n m → Prop where
  | moves {s' : Network n m} (h : s.Moves s') : Follows s .network s'
  | fails {s' : Network n m} {f : Fault} (h : s.proceed = .failed f s') : Follows s .network s'
  | act (hc : s.current = none) (a : ClientAct n) : Follows s (.client a) (a.run s).2
  | slots (hc : s.current = none) (i : Fin n) (a : SlotAct) : Follows s (.slots i a) (s.atNode i a.work).2

/-- An act that meets no fault. -/
theorem Follows.of_run {s s' : Network n m} {a : ClientAct n} (hc : s.current = none) (hr : a.run s = (.ok (), s')) :
    s.Follows (.client a) s' := by
  have hf : s.Follows (.client a) (a.run s).2 := .act hc a
  rwa [hr] at hf

/-- A step of a run, with the states before and after it. -/
structure Stride (n m : Nat) where
  before : Network n m
  cause : Cause n
  after : Network n m

/-- Runs from a freshly built network: the steps so far, latest first, and the state that has been reached. -/
inductive Course (c : NetworkConfig) :
    List (Stride c.nodes.length c.links.length) → Network c.nodes.length c.links.length → Prop where
  | built {s : Network c.nodes.length c.links.length} (h : build c = .ok s) : Course c [] s
  | step {past : List (Stride c.nodes.length c.links.length)} {s s' : Network c.nodes.length c.links.length}
      {cause : Cause c.nodes.length} (h : Course c past s) (hf : s.Follows cause s') :
      Course c (⟨s, cause, s'⟩ :: past) s'

/-- Who is behind what happens in a moment of a run without faults. -/
def Moment.cause (x : Moment n m) : Cause n := x.act.elim .network .client

section Trace

variable {c : NetworkConfig} {may : ClientAct c.nodes.length → Prop}
  {past : List (Moment c.nodes.length c.links.length)} {s : Network c.nodes.length c.links.length}

/-- A run without faults is a run. -/
theorem Trace.strides (h : Trace c may past s) : ∃ strides, Course c strides s ∧
    strides.map (fun x => (x.before, x.cause)) = past.map fun x => (x.state, x.cause) := by
  induction h with
  | built h => exact ⟨[], .built h, rfl⟩
  | move h hm ih =>
    obtain ⟨strides, hc, hs⟩ := ih
    exact ⟨_, hc.step (.moves hm), by rw [List.map_cons, hs, List.map_cons]; rfl⟩
  | @act past s s' h a ha hc hr ih =>
    obtain ⟨strides, hcourse, hs⟩ := ih
    exact ⟨_, hcourse.step (.of_run hc hr), by rw [List.map_cons, hs, List.map_cons]; rfl⟩

/-- No process meets a fault in a run without faults. -/
theorem Trace.unfailing (h : Trace c may past s) : ∀ x ∈ past, ∀ f s', x.state.proceed ≠ .failed f s' := by
  have hidle : ∀ {s₁ s' : Network c.nodes.length c.links.length} {f}, s₁.current = none → s₁.proceed ≠ .failed f s' :=
    fun hc hf => nomatch (proceed_of_idle hc).symm.trans hf
  induction h with
  | built h => exact fun _ hx => nomatch hx
  | move h hm ih =>
    refine List.forall_mem_cons.2 ⟨fun f s' hf => ?_, ih⟩
    cases hm with
    | start hc => exact hidle hc hf
    | proceed h => exact nomatch h.symm.trans hf
    | begin hc _ => exact hidle hc hf
    | wait hc _ => exact hidle hc hf
  | act h a ha hc hr ih => exact List.forall_mem_cons.2 ⟨fun f s' => hidle hc, ih⟩

theorem Trace.course (h : Trace c may past s) :
    ∃ strides, Course c strides s ∧ strides.map (·.before) = past.map (·.state) := by
  obtain ⟨strides, hc, hs⟩ := h.strides
  have hstates := congrArg (List.map Prod.fst) hs
  rw [List.map_map, List.map_map] at hstates
  exact ⟨strides, hc, hstates⟩

end Trace

/-! What a step comes to. -/

/-- A process has ended in a fault. -/
def drop (s : Network n m) (p : ProcessId) (process : Process n m) : Network n m :=
  (s.finish p process none).write .error "Scheduler" s!"process '{process.name}' failed"

/-- What becomes of a process after a small step of it that may meet a fault; so may the link that it asks. -/
def Concludes (s : Network n m) (p : ProcessId) (process : Process n m)
    (result : Except Fault (Flow m (Activity n m) (Option Outcome))) (s' : Network n m) : Prop :=
  (∃ flow, result = .ok flow ∧ s.Resolves p process flow s') ∨
    (∀ flow, result = .ok flow → flow.asks = true) ∧ s' = s.drop p process

/-- A small step of the process that goes on, which may meet a fault. -/
inductive Treads (s : Network n m) : Network n m → Prop where
  | gone {p : ProcessId} {wake : Wake} (hc : s.current = some (p, wake)) (hp : s.processes.get? p = none) :
      Treads s (s.setCurrent none)
  | pairing {i : Fin n} {name : String} {stage : PairStage} {wake : Wake} {result : Except Fault (Pairing.Step m)}
      {w : Working (Node n m) n m} {s' : Network n m} (hc : s.current = some (pairId i, wake))
      (hp : s.processes.get? (pairId i) = some ⟨name, .pairing i stage⟩)
      (hx : (Pairing.step (pairId i) stage wake).exec (s.working i) = (result, w))
      (hr : (s.commit i w).Concludes (pairId i) ⟨name, .pairing i stage⟩
        (result.map fun flow => flow.map (.pairing i) fun e => nomatch e) s') :
      Treads s s'
  | dispatch {i : Fin n} {name : String} {stage : DispatchStage} {wake : Wake} {result : Except Fault (Dispatch.Step m)}
      {w : Working (Node n m) n m} {s' : Network n m} (hc : s.current = some (dispatchId i, wake))
      (hp : s.processes.get? (dispatchId i) = some ⟨name, .dispatch i stage⟩)
      (hx : (Dispatch.step (dispatchId i) stage wake).exec (s.working i) = (result, w))
      (hr : (s.commit i w).Concludes (dispatchId i) ⟨name, .dispatch i stage⟩
        (result.map fun flow => flow.map (.dispatch i) fun e => nomatch e) s') :
      Treads s s'
  | host {i : Fin n} {name : String} {stage : HostStage} {wake : Wake} {result : Except Fault (HostRun.Step m)}
      {w : Working (Host n) n m} {s' : Network n m} (hc : s.current = some (hostId i, wake))
      (hp : s.processes.get? (hostId i) = some ⟨name, .host i stage⟩)
      (hx : (HostRun.step (hostId i) stage wake).exec ⟨s.host i, s.quantum, s.now, #[]⟩ = (result, w))
      (hr : (s.commitHost i w).Concludes (hostId i) ⟨name, .host i stage⟩
        (result.map fun flow => flow.map (.host i) fun _ => none) s') :
      Treads s s'

variable {s s' : Network n m}

theorem Advances.treads (h : s.Advances s') : s.Treads s' := by
  cases h with
  | gone hc hp => exact .gone hc hp
  | pairing hc hp hx hr => exact .pairing hc hp hx (.inl ⟨_, rfl, hr⟩)
  | dispatch hc hp hx hr => exact .dispatch hc hp hx (.inl ⟨_, rfl, hr⟩)
  | host hc hp hx hr => exact .host hc hp hx (.inl ⟨_, rfl, hr⟩)

theorem dropped_of_failed {p : ProcessId} {process : Process n m} {wake : Wake} {f : Fault}
    (h : s.stepProcess p process wake = .failed f s') :
    (∀ flow, (s.stepActivity p wake process.activity).1 = .ok flow → flow.asks = true) ∧
      s' = (s.stepActivity p wake process.activity).2.drop p process := by
  have hfail : ∀ {s₁ : Network n m} {f₁}, s₁.failProcess p process f₁ = .failed f s' → s' = s₁.drop p process := by
    intro s₁ f₁ hf
    unfold failProcess at hf
    split at hf
    · exact nomatch hf
    · cases hf
      rfl
  unfold stepProcess at h
  split at h
  · rename_i ha
    rw [ha]
    refine ⟨fun flow hflow => ?_, hfail h⟩
    exact nomatch hflow
  · exact nomatch h
  · exact nomatch h
  · exact nomatch h
  · rename_i ha
    rw [ha]
    refine ⟨fun flow hflow => ?_, ?_⟩
    · cases hflow
      rfl
    · split at h
      · exact hfail h
      · exact nomatch h
      · exact nomatch h

theorem treads_of_failed {f : Fault} (hs : s.Crewed) (h : s.proceed = .failed f s') : s.Treads s' := by
  unfold proceed at h
  split at h
  · exact nomatch h
  · rename_i p wake hc
    split at h
    · exact nomatch h
    · rename_i process hp
      have hsits := hs.sits hp
      have hd := dropped_of_failed h
      obtain ⟨name, a⟩ := process
      cases a with
      | pairing i stage =>
        obtain rfl : p = pairId i := hsits
        exact .pairing hc hp rfl (.inr hd)
      | dispatch i stage =>
        obtain rfl : p = dispatchId i := hsits
        exact .dispatch hc hp rfl (.inr hd)
      | host i stage =>
        obtain rfl : p = hostId i := hsits
        exact .host hc hp rfl (.inr hd)
      | client w => exact absurd hsits id

theorem processes_drop (s : Network n m) (p : ProcessId) (process : Process n m) (q : ProcessId) :
    (s.drop p process).processes.get? q = if q = p then none else s.processes.get? q := by
  change (s.processes.erase p).get? q = _
  split
  · rename_i hq
    rw [hq, SortedMap.get?_erase_self]
  · rename_i hq
    exact SortedMap.get?_erase_of_ne _ hq

theorem drop_crewed {p : ProcessId} {process : Process n m} (hs : s.Crewed) (hp : s.processes.get? p = some process) :
    (s.drop p process).Crewed := by
  refine ⟨fun {q process'} hq => ?_, fun hst => ?_⟩
  · rw [processes_drop] at hq
    split at hq
    · exact nomatch hq
    · exact hs.sits hq
  · rw [(hs.unstarted hst).2] at hp
    exact nomatch hp

theorem Treads.crewed (h : s.Treads s') (hs : s.Crewed) : s'.Crewed := by
  cases h with
  | gone hc hp => exact (Advances.gone hc hp).crewed hs
  | @pairing i name stage wake result w _ hc hp hx hr =>
    rcases hr with ⟨flow, hflow, hr⟩ | ⟨-, rfl⟩
    · cases result with
      | error f => exact nomatch hflow
      | ok flow =>
        cases hflow
        exact (Advances.pairing hc hp hx hr).crewed hs
    · have hsp := spares_commit s i w
      exact drop_crewed (hs.congr hsp.processes hsp.fresh hsp.started) (by rw [hsp.processes]; exact hp)
  | @dispatch i name stage wake result w _ hc hp hx hr =>
    rcases hr with ⟨flow, hflow, hr⟩ | ⟨-, rfl⟩
    · cases result with
      | error f => exact nomatch hflow
      | ok flow =>
        cases hflow
        exact (Advances.dispatch hc hp hx hr).crewed hs
    · have hsp := spares_commit s i w
      exact drop_crewed (hs.congr hsp.processes hsp.fresh hsp.started) (by rw [hsp.processes]; exact hp)
  | @host i name stage wake result w _ hc hp hx hr =>
    rcases hr with ⟨flow, hflow, hr⟩ | ⟨-, rfl⟩
    · cases result with
      | error f => exact nomatch hflow
      | ok flow =>
        cases hflow
        exact (Advances.host hc hp hx hr).crewed hs
    · have hsp := spares_effects { s.setHost i w.part with quantum := w.quantum } w.effects
      exact drop_crewed (hs.congr hsp.processes hsp.fresh hsp.started)
        (show (s.commitHost i w).processes.get? _ = _ by rw [commitHost, hsp.processes]; exact hp)

theorem Treads.going (h : s.Treads s') : ∃ q, s.current.map Prod.fst = some q := by
  cases h with
  | gone hc _ => exact ⟨_, congrArg (Option.map Prod.fst) hc⟩
  | pairing hc _ _ _ => exact ⟨_, congrArg (Option.map Prod.fst) hc⟩
  | dispatch hc _ _ _ => exact ⟨_, congrArg (Option.map Prod.fst) hc⟩
  | host hc _ _ _ => exact ⟨_, congrArg (Option.map Prod.fst) hc⟩

/-- Work that is done at a node by no process of it. -/
inductive Labour (i : Fin n) : Cause n → NodeWork n m Unit → Prop where
  | news : Labour i .network Node.notifyNews
  | act (a : NodeAct) : Labour i (.client (.atNode i a)) a.work
  | slots (a : SlotAct) : Labour i (.slots i a) a.work

/-- What a step of a run comes to. -/
inductive Happens (s : Network n m) : Cause n → Network n m → Prop where
  | start (hc : s.current = none) : Happens s .network s.start
  /-- A process begins to go on. -/
  | hear {p : ProcessId} {wake : Wake} {a : Agenda (NetworkEvent n m)} (hc : s.current = none)
      (ha : s.ahead = .resume p wake :: ({ s with agenda := a } : Network n m).ahead) :
      Happens s .network (({ s with agenda := a } : Network n m).setCurrent (some (p, wake)))
  /-- Something is sent, or arrives, or nothing happens. -/
  | pass {cause : Cause n} {s' : Network n m} (hc : s.current = none) (hs : Spares s s')
      (hp : Passes (fun _ => 0) s s') : Happens s cause s'
  | labour {cause : Cause n} {i : Fin n} {x : NodeWork n m Unit} {a : Agenda (NetworkEvent n m)}
      (hc : s.current = none) (hd : ∀ q, ({ s with agenda := a } : Network n m).due q = s.due q) (hx : Labour i cause x)
      (hh : ∀ q, ({ s with agenda := a } : Network n m).handed q = s.handed q) :
      Happens s cause
        (({ s with agenda := a } : Network n m).commit i (x.exec (({ s with agenda := a } : Network n m).working i)).2)
  | tread {s' : Network n m} (h : s.Treads s') : Happens s .network s'

/-- What a process begins to go on with is still ahead. -/
theorem ahead_hear {p : ProcessId} {wake : Wake} {a : Agenda (NetworkEvent n m)} (hc : s.current = none)
    (ha : s.ahead = .resume p wake :: ({ s with agenda := a } : Network n m).ahead) :
    (({ s with agenda := a } : Network n m).setCurrent (some (p, wake))).ahead = s.ahead := by
  rw [ha]
  simp only [ahead, setCurrent, hc]
  rfl

/-- A process that begins to go on still has the turn that it takes. -/
theorem due_hear {p : ProcessId} {wake : Wake} {a : Agenda (NetworkEvent n m)} (hc : s.current = none)
    (ha : s.ahead = .resume p wake :: ({ s with agenda := a } : Network n m).ahead) (q : ProcessId) :
    (({ s with agenda := a } : Network n m).setCurrent (some (p, wake))).due q = s.due q := by
  rw [due, ahead_hear hc ha, due]

theorem begin_happens {limit : Nat} {e : NetworkEvent n m} {a : Agenda (NetworkEvent n m)} (hc : s.current = none)
    (h : s.agenda.next limit = .event e a) : s.Happens .network ({ s with agenda := a }.begin e).2 := by
  have ha := ahead_next hc h
  let s₁ : Network n m := { s with agenda := a }
  have hspares : Spares s s₁ := spares_of_nodes rfl rfl rfl rfl rfl
  have hdue : e.resumed? = none → ∀ q, s₁.due q = s.due q := fun he q => by
    rw [due, due, ha, List.filterMap_cons, he]
  have hhanded : e.resumed? = none → ∀ q, s₁.handed q = s.handed q := fun he q => by
    rw [handed, handed, ha, List.filterMap_cons, NetworkEvent.requestTo?_of_ne (by simp [he])]
  have hpass : e.resumed? = none → Passes (fun _ => 0) s s₁ := fun he =>
    passes_of_same (hdue he) (hhanded he) fun _ => rfl
  cases e with
  | resume p wake => exact .hear hc ha
  | deliver line text => exact .pass hc (hspares.trans (spares_deliver _ _ _)) ((hpass rfl).after (passes_deliver _ _ _))
  | deliverPeer source target message =>
    exact .pass hc (hspares.trans (spares_setInbound _ _ _ _)) ((hpass rfl).after (passes_setInbound _ _ _ _))
  | news i => exact .labour hc (hdue rfl) .news (hhanded rfl)
  | link l e => exact .pass hc (hspares.trans (spares_fireLink _ _ _)) ((hpass rfl).after (passes_fireLink _ _ _))
  | alarm k => exact .pass hc hspares (hpass rfl)

theorem Follows.happens {cause : Cause n} (h : s.Follows cause s') (hs : s.Crewed) : s.Happens cause s' := by
  cases h with
  | moves h =>
    cases h with
    | start hc => exact .start hc
    | proceed h => exact .tread (advances_of_went hs h).treads
    | begin hc h => exact begin_happens hc h
    | @wait limit a hc h =>
      obtain ⟨t, rest, -, -, rfl⟩ := Agenda.next_eq_later.1 h
      exact .pass hc (spares_of_nodes rfl rfl rfl rfl rfl) (passes_of_same (fun _ => rfl) (fun _ => rfl) fun _ => rfl)
  | fails h => exact .tread (treads_of_failed hs h)
  | act hc a =>
    cases a with
    | atNode i a => exact .labour hc (fun _ => rfl) (.act a) fun _ => rfl
    | post i text => exact .pass hc (spares_send _ _ _) (passes_send _ _ _)
    | enqueue i p times =>
      refine .pass hc (spares_of_nodes rfl rfl rfl rfl rfl) (passes_of_same (fun _ => rfl) (fun _ => rfl) fun q => ?_)
      have h := waits_setHost s i ((s.host i).enqueue p times) q
      exact Nat.add_right_cancel h
    | alarm delay k => exact .pass hc (spares_schedule _ _ _) (passes_schedule_of_none _ _ rfl)
  | slots hc i a => exact .labour hc (fun _ => rfl) (.slots a) fun _ => rfl

theorem Happens.crewed {cause : Cause n} (h : s.Happens cause s') (hs : s.Crewed) : s'.Crewed := by
  cases h with
  | start hc => exact start_crewed hs
  | hear hc ha => exact hs.congr rfl rfl rfl
  | pass hc h hp => exact hs.congr h.processes h.fresh h.started
  | labour hc hd hx =>
    exact hs.congr (spares_commit _ _ _).processes (spares_commit _ _ _).fresh (spares_commit _ _ _).started
  | tread h => exact h.crewed hs

theorem Course.crewed {c : NetworkConfig} {past : List (Stride c.nodes.length c.links.length)}
    {s : Network c.nodes.length c.links.length} (h : Course c past s) : s.Crewed := by
  induction h with
  | built h => exact (built_of_build h).crewed
  | step _ hf ih => exact (hf.happens ih).crewed ih

/-! What becomes of others when a process has made a step. -/

variable {p : ProcessId} {process : Process n m} {result : Except Fault (Flow m (Activity n m) (Option Outcome))}

theorem turns_drop (hc : s.current.map Prod.fst = some p) (q : ProcessId) :
    (q ≠ p → s.due q ≤ (s.drop p process).due q) ∧ (s.drop p process).turns q ≤ s.turns q := by
  have hd := due_current s q
  have ht := turns_current s q
  have hdue : (s.drop p process).due q = (s.setCurrent none).due q := rfl
  have hturns : (s.drop p process).turns q = (s.setCurrent none).turns q := rfl
  simp only [hc, Option.some.injEq, eq_comm (a := p)] at hd ht
  refine ⟨fun hq => ?_, by omega⟩
  rw [if_neg hq] at hd
  omega

theorem Concludes.turns (h : s.Concludes p process result s') (hc : s.current.map Prod.fst = some p) (q : ProcessId) :
    (q ≠ p → s.due q ≤ s'.due q) ∧ s'.turns q ≤ s.turns q := by
  rcases h with ⟨flow, -, hr⟩ | ⟨-, rfl⟩
  · have := hr.turns hc q
    exact ⟨this.1, by omega⟩
  · exact turns_drop hc q

theorem Concludes.slots (h : s.Concludes p process result s') (i : Fin n) : (s.node i).SameSlots (s'.node i) := by
  rcases h with ⟨flow, -, hr⟩ | ⟨-, rfl⟩
  · exact hr.slots i
  · exact .refl _

theorem Concludes.processes_of_ne (h : s.Concludes p process result s') {q : ProcessId} (hq : q ≠ p) :
    s'.processes.get? q = s.processes.get? q := by
  rcases h with ⟨flow, -, hr⟩ | ⟨-, rfl⟩
  · rw [hr.processes, if_neg hq]
  · rw [processes_drop, if_neg hq]

/-- A process that does not go on stays where it is. -/
theorem Treads.processes_of_ne (h : s.Treads s') {q : ProcessId} (hq : s.current.map Prod.fst ≠ some q) :
    s'.processes.get? q = s.processes.get? q := by
  cases h with
  | gone _ _ => rfl
  | @pairing j name stage wake result w _ hc hp hx hr =>
    have hne : q ≠ pairId j := by simpa [hc, eq_comm] using hq
    rw [hr.processes_of_ne hne, (spares_commit s j w).processes]
    rfl
  | @dispatch j name stage wake result w _ hc hp hx hr =>
    have hne : q ≠ dispatchId j := by simpa [hc, eq_comm] using hq
    rw [hr.processes_of_ne hne, (spares_commit s j w).processes]
    rfl
  | @host j name stage wake result w _ hc hp hx hr =>
    have hne : q ≠ hostId j := by simpa [hc, eq_comm] using hq
    have hsp : Spares { s.setHost j w.part with quantum := w.quantum } (s.commitHost j w) := spares_effects _ _
    rw [hr.processes_of_ne hne, hsp.processes]
    rfl

theorem due_le_spawn (s : Network n m) (name : String) (a : Activity n m) (q : ProcessId) :
    s.due q ≤ (s.spawn name a).due q :=
  Nat.le_trans (Nat.le_add_right _ _) (Nat.le_of_eq (due_schedule
    { s with processes := s.processes.insert s.fresh ⟨name, a⟩, fresh := s.fresh + 1 } 0 (.resume s.fresh .go) q).symm)

theorem due_le_start (s : Network n m) (q : ProcessId) : s.due q ≤ s.start.due q :=
  start_invariant (I := fun s' => s.due q ≤ s'.due q) (fun _ h => h)
    (fun s' name a _ h => Nat.le_trans h (due_le_spawn s' name a q)) (Nat.le_refl _)

/-! What a step of a run does to one node. -/

/-- The work that a step of a run does at a node: work from outside, or that of a process of the node at its turn. -/
inductive Shift (s : Network n m) (i : Fin n) : Cause n → Working (Node n m) n m → Working (Node n m) n m → Prop where
  | labour {cause : Cause n} {x : NodeWork n m Unit} (hc : s.current = none) (hx : Labour i cause x) (now : Nat) :
      Shift s i cause ⟨s.node i, s.quantum, now, #[]⟩ (x.exec ⟨s.node i, s.quantum, now, #[]⟩).2
  | pairing {wake : Wake} (hc : s.current = some (pairId i, wake)) :
      Shift s i .network (s.working i) ((Pairing.step (pairId i) (s.pairStage i) wake).exec (s.working i)).2
  | dispatch {wake : Wake} (hc : s.current = some (dispatchId i, wake)) :
      Shift s i .network (s.working i) ((Dispatch.step (dispatchId i) (s.dispatchStage i) wake).exec (s.working i)).2

theorem Shift.start {i : Fin n} {cause : Cause n} {w w' : Working (Node n m) n m} (h : s.Shift i cause w w') :
    w.part = s.node i ∧ ∀ q, w.resumed q = 0 := by
  cases h with
  | _ => exact ⟨rfl, fun _ => rfl⟩

/-- What a step of a run does to a node: nothing, or somebody is at work at it. A process that has ended lets its turn
pass. -/
inductive Reaches (s : Network n m) (i : Fin n) (cause : Cause n) (s' : Network n m) : Prop where
  | spares (hs : (s.node i).SameSlots (s'.node i)) (hd : ∀ q, s.current.map Prod.fst ≠ some q → s.due q ≤ s'.due q)
      (hpair : s.current.map Prod.fst = some (pairId i) → s.pairStage i = .idle)
      (hdispatch : s.current.map Prod.fst = some (dispatchId i) → s.dispatchStage i = .idle) : Reaches s i cause s'
  | works {w w' : Working (Node n m) n m} (h : s.Shift i cause w w') (hs : w'.part.SameSlots (s'.node i))
      (hd : ∀ q, s.current.map Prod.fst ≠ some q → s.due q + w'.resumed q ≤ s'.due q) : Reaches s i cause s'

theorem Reaches.of_idle {i : Fin n} {cause : Cause n} (hc : s.current = none) (hs : (s.node i).SameSlots (s'.node i))
    (hd : ∀ q, s.due q ≤ s'.due q) : Reaches s i cause s' :=
  .spares hs (fun q _ => hd q) (by simp [hc]) (by simp [hc])

/-- Somebody has been at work at a node, and a process concludes. -/
theorem Concludes.due_commit {j : Fin n} {w : Working (Node n m) n m} (h : (s.commit j w).Concludes p process result s')
    (hc : s.current.map Prod.fst = some p) {q : ProcessId} (hq : s.current.map Prod.fst ≠ some q) :
    s.due q + w.resumed q ≤ s'.due q := by
  have hcur : (s.commit j w).current.map Prod.fst = some p := by rw [current_commit, hc]
  have hne : q ≠ p := fun h => hq (h ▸ hc)
  exact Nat.le_trans (Network.due_commit s j w q) ((h.turns hcur q).1 hne)

theorem Concludes.slots_commit {i j : Fin n} {w : Working (Node n m) n m} (h : (s.commit j w).Concludes p process result s') :
    Node.SameSlots (if i = j then w.part else s.node i) (s'.node i) :=
  (commit_slots s j w i).trans (h.slots i)

theorem Treads.reaches (h : s.Treads s') (i : Fin n) : s.Reaches i .network s' := by
  cases h with
  | @gone p wake hc hp =>
    refine .spares (.refl _) (fun q hq => ?_) (fun h => ?_) fun h => ?_
    · have hd := due_current s q
      rw [if_neg hq, Nat.zero_add] at hd
      exact Nat.le_of_eq hd
    all_goals
      rw [hc] at h
      obtain rfl := Option.some.inj h
    · unfold pairStage
      rw [hp]
    · unfold dispatchStage
      rw [hp]
  | @pairing j name stage wake result w _ hc hp hx hr =>
    have hcur : s.current.map Prod.fst = some (pairId j) := by rw [hc]; rfl
    have hslots := hr.slots_commit (i := i)
    split at hslots
    · rename_i hij
      subst hij
      have hshift := Shift.pairing hc
      rw [pairStage_eq hp, hx] at hshift
      exact .works hshift hslots fun q hq => hr.due_commit hcur hq
    · rename_i hij
      refine .spares hslots (fun q hq => Nat.le_trans (Nat.le_add_right _ _) (hr.due_commit hcur hq)) (fun h => ?_) fun h => ?_
      · rw [hcur] at h
        exact absurd (pairId_inj.1 (Option.some.inj h)).symm hij
      · rw [hcur] at h
        exact absurd (Option.some.inj h) (pairId_ne_dispatchId j i)
  | @dispatch j name stage wake result w _ hc hp hx hr =>
    have hcur : s.current.map Prod.fst = some (dispatchId j) := by rw [hc]; rfl
    have hslots := hr.slots_commit (i := i)
    split at hslots
    · rename_i hij
      subst hij
      have hshift := Shift.dispatch hc
      rw [dispatchStage_eq hp, hx] at hshift
      exact .works hshift hslots fun q hq => hr.due_commit hcur hq
    · rename_i hij
      refine .spares hslots (fun q hq => Nat.le_trans (Nat.le_add_right _ _) (hr.due_commit hcur hq)) (fun h => ?_) fun h => ?_
      · rw [hcur] at h
        exact absurd (Option.some.inj h).symm (pairId_ne_dispatchId i j)
      · rw [hcur] at h
        exact absurd (dispatchId_inj.1 (Option.some.inj h)).symm hij
  | @host j name stage wake result w _ hc hp hx hr =>
    have hcur : s.current.map Prod.fst = some (hostId j) := by rw [hc]; rfl
    have hsp : Spares { s.setHost j w.part with quantum := w.quantum } (s.commitHost j w) := spares_effects _ _
    refine .spares ((hsp.slots i).trans (hr.slots i)) (fun q hq => ?_) (fun h => ?_) fun h => ?_
    · have hcur' : (s.commitHost j w).current.map Prod.fst = some (hostId j) := by rw [hsp.current]; exact hcur
      have hd := Nat.le_trans (Nat.le_add_right _ _) (due_commitHost s j w q)
      exact Nat.le_trans hd ((hr.turns hcur' q).1 fun h => hq (h ▸ hcur))
    · rw [hcur] at h
      exact absurd (Option.some.inj h).symm (pairId_ne_hostId i j)
    · rw [hcur] at h
      exact absurd (Option.some.inj h).symm (dispatchId_ne_hostId i j)

theorem Happens.reaches {cause : Cause n} (h : s.Happens cause s') (i : Fin n) : s.Reaches i cause s' := by
  cases h with
  | start hc => exact .of_idle hc (by rw [start_node]; exact .refl _) (due_le_start s)
  | hear hc ha => exact .of_idle hc (.refl _) fun q => Nat.le_of_eq (due_hear hc ha q).symm
  | pass hc hs hp => exact .of_idle hc (hs.slots i) hp.due
  | @labour _ j x a hc hd hx =>
    let s₁ : Network n m := { s with agenda := a }
    have hslots := commit_slots s₁ j (x.exec (s₁.working j)).2 i
    have hdue := due_commit s₁ j (x.exec (s₁.working j)).2
    simp only [s₁, hd] at hdue
    split at hslots
    · rename_i hij
      subst hij
      exact .works (.labour hc hx s₁.now) hslots fun q _ => hdue q
    · exact .of_idle hc hslots fun q => Nat.le_trans (Nat.le_add_right _ _) (hdue q)
  | tread h => exact h.reaches i

/-- A process that has its turn makes a step. -/
theorem Happens.treads {cause : Cause n} (h : s.Happens cause s') {q : ProcessId} (hq : s.current.map Prod.fst = some q) :
    s.Treads s' := by
  have hbusy (hc : s.current = none) : s.Treads s' := by
    rw [hc] at hq
    exact nomatch hq
  cases h with
  | start hc => exact hbusy hc
  | hear hc _ => exact hbusy hc
  | pass hc _ _ => exact hbusy hc
  | labour hc _ _ => exact hbusy hc
  | tread h => exact h

/-- A process that has its turn goes on. -/
theorem Moves.turn (h : s.Moves s') (hs : s.Crewed) {p : ProcessId} (hown : s.current.map Prod.fst = some p) :
    s.Advances s' := by
  have hbusy (hc : s.current = none) : s.Advances s' := by
    rw [hc] at hown
    exact nomatch hown
  cases h with
  | start hc => exact hbusy hc
  | proceed h => exact advances_of_went hs h
  | begin hc _ => exact hbusy hc
  | wait hc _ => exact hbusy hc

/-- A process that has its turn goes on, unless it meets a fault. -/
theorem Follows.advances (h : s.Follows cause s') (hs : s.Crewed) {p : ProcessId}
    (hown : s.current.map Prod.fst = some p) (hf : ∀ f, s.proceed ≠ .failed f s') : s.Advances s' := by
  have hbusy (hc : s.current = none) : s.Advances s' := by
    rw [hc] at hown
    exact nomatch hown
  cases h with
  | moves h => exact h.turn hs hown
  | fails h => exact absurd h (hf _)
  | act hc _ => exact hbusy hc
  | slots hc _ _ => exact hbusy hc

/-- A pair service at its turn makes a step, and goes on at once if it is to; one that has met a fault has ended. -/
theorem Treads.pairTurn {i : Fin n} (h : s.Treads s') (hown : s.current.map Prod.fst = some (pairId i)) :
    s'.pairStage i = .idle ∨
      ∃ wake flow w, (Pairing.step (pairId i) (s.pairStage i) wake).exec (s.working i) = (.ok flow, w) ∧
        s'.pairStage i = flow.stage ∧ w.part.SameSlots (s'.node i) ∧
          ∀ stage, flow = .go stage → s'.current.map Prod.fst = some (pairId i) := by
  cases h with
  | @gone p wake hc hp =>
    obtain rfl : p = pairId i := by simpa [hc] using hown
    exact .inl (pairStage_of_gone hp)
  | @dispatch j name stage wake result w _ hc hp hx hr =>
    rw [hc] at hown
    exact absurd (Option.some.inj hown) (pairId_ne_dispatchId i j).symm
  | @host j name stage wake result w _ hc hp hx hr =>
    rw [hc] at hown
    exact absurd (Option.some.inj hown) (pairId_ne_hostId i j).symm
  | @pairing j name stage wake result w _ hc hp hx hr =>
    obtain rfl : j = i := by
      rw [hc] at hown
      exact pairId_inj.1 (Option.some.inj hown)
    have hslots := hr.slots_commit (i := j)
    rw [if_pos rfl] at hslots
    rcases hr with ⟨flow, hflow, hres⟩ | ⟨-, rfl⟩
    · cases result with
      | error f => exact nomatch hflow
      | ok flow =>
        cases hflow
        refine .inr ⟨wake, flow, w, by rwa [pairStage_eq hp], hres.pairStage, hslots, fun stage' hgo => ?_⟩
        subst hgo
        have hres : (s.commit j w).Resolves (pairId j) _ (.go (.pairing j stage')) s' := hres
        cases hres with
        | go _ => rfl
    · exact .inl (pairStage_of_gone (by rw [processes_drop, if_pos rfl]))

/-- A pair service that does not go on stays where it is. -/
theorem Happens.pairStage_of_ne {i : Fin n} {cause : Cause n} (h : s.Happens cause s') (hs : s.Crewed)
    (hown : s.current.map Prod.fst ≠ some (pairId i)) : s'.pairStage i = s.pairStage i := by
  cases h with
  | start _ => exact start_pairStage hs i
  | hear _ _ => rfl
  | pass _ hs _ => exact pairStage_congr hs.processes i
  | labour _ _ _ => exact pairStage_congr (spares_commit _ _ _).processes i
  | tread h => exact pairStage_of_get? (h.processes_of_ne hown)

/-- A dispatcher that does not go on stays where it is. -/
theorem Happens.dispatchStage_of_ne {i : Fin n} {cause : Cause n} (h : s.Happens cause s') (hs : s.Crewed)
    (hown : s.current.map Prod.fst ≠ some (dispatchId i)) : s'.dispatchStage i = s.dispatchStage i := by
  cases h with
  | start _ => exact start_dispatchStage hs i
  | hear _ _ => rfl
  | pass _ hs _ => exact dispatchStage_congr hs.processes i
  | labour _ _ _ => exact dispatchStage_congr (spares_commit _ _ _).processes i
  | tread h => exact dispatchStage_of_get? (h.processes_of_ne hown)

end Network

end QuantumNode
