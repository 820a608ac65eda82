import QuantumNode.Proofs.Network.Pace
import QuantumNode.Proofs.Network.Timer

/-! Runs in which clients have processes of their own, beside those of nodes and hosts. Whatever happens in a step, a
process that does not go on stays where it is, gets no further turn, and is still resumed when it was to be. -/
namespace QuantumNode

open Node Work Working

variable {n m : Nat}

namespace Network

variable {s s₁ s' : Network n m}

/-! Nothing that is scheduled is taken back. -/

/-- Time stands still, and whatever is scheduled stays so. -/
abbrev Upholds (s s' : Network n m) : Prop := s.agenda.Grows (fun _ => True) s'.agenda

theorem upholds_schedule (s : Network n m) (delay : Nat) (e : NetworkEvent n m) : s.Upholds (s.schedule delay e) :=
  .schedule .refl delay trivial

theorem upholds_setChannel (s : Network n m) (line : Line n) (c : Channel String ProcessId) :
    s.Upholds (s.setChannel line c) := by
  cases line with
  | _ => exact .refl

theorem upholds_deliver (s : Network n m) (line : Line n) (text : String) : s.Upholds (s.deliver line text) := by
  unfold deliver
  split
  · exact (upholds_setChannel _ _ _).trans (upholds_schedule _ _ _)
  · exact upholds_setChannel _ _ _

theorem upholds_send (s : Network n m) (line : Line n) (text : String) : s.Upholds (s.send line text) := by
  unfold send
  dsimp only
  split
  · exact (upholds_setChannel _ _ _).trans (upholds_deliver _ _ _)
  · exact (upholds_setChannel _ _ _).trans (upholds_schedule _ _ _)

theorem upholds_tell (s : Network n m) (source target : Fin n) (message : PeerMessage) :
    s.Upholds (s.tell source target message) := by
  unfold tell
  dsimp only
  split
  · exact upholds_schedule _ _ _
  · exact (upholds_schedule _ _ _).trans (upholds_schedule _ _ _)

theorem upholds_fireLink (s : Network n m) (l : Fin m) (e : LinkEvent) : s.Upholds (s.fireLink l e) :=
  grows_updateLink (s := { s with quantum := ((s.link l).fire e s.quantum).2 }) _

theorem upholds_askLink {p : ProcessId} {l : Fin m} {e : LinkEnd} {c : LinkCall} {a : Option LinkAnswer}
    (h : s.askLink p l e c = .ok (a, s')) : s.Upholds s' := by
  unfold askLink at h
  split at h
  · exact nomatch h
  · cases h
    exact .refl
  · rename_i effects link quantum _
    cases h
    exact grows_updateLink (s := { s with quantum := quantum }) (effects, link)

theorem upholds_applyEffect (s : Network n m) (e : Effect n m) : s.Upholds (s.applyEffect e) := by
  cases e with
  | log level name text => exact .refl
  | resume delay p wake => exact upholds_schedule _ _ _
  | send line text => exact upholds_send _ _ _
  | tell source target message => exact upholds_tell _ _ _ _
  | abortLink l e => exact grows_updateLink s _
  | observed remote request => exact .refl

theorem upholds_effects (s : Network n m) (es : List (Effect n m)) : s.Upholds (es.foldl applyEffect s) :=
  foldl_invariant (I := s.Upholds) (fun s' e h => h.trans (upholds_applyEffect s' e)) es .refl

/-- A process that is to be resumed after a time is resumed then. -/
theorem resumes_of_effect {es : List (Effect n m)} {delay : Nat} {p : ProcessId} {wake : Wake}
    (h : .resume delay p wake ∈ es) (s : Network n m) : ∃ t ∈ (es.foldl applyEffect s).agenda.queue,
      t.event = .resume p wake ∧ t.time = (s.now + delay) % Word.size64 := by
  induction es generalizing s with
  | nil => exact nomatch h
  | cons e es ih =>
    rcases List.mem_cons.1 h with rfl | h
    · exact ⟨_, (upholds_effects _ es).mem (Agenda.mem_enqueue.2 (.inl rfl)), rfl, rfl⟩
    · have hnow : (s.applyEffect e).now = s.now := (upholds_applyEffect s e).now_eq
      obtain ⟨t, ht, hevent, htime⟩ := ih h (s.applyEffect e)
      exact ⟨t, ht, hevent, by rw [htime, hnow]⟩

/-! Others at work. -/

/-- Nothing happens to the processes of a network and what is scheduled for them: at most more is scheduled, and at most
one process, if one is named, gets further turns. Devices stay what they were built as. -/
structure Abides (x : Option ProcessId) (s s' : Network n m) : Prop where
  upholds : s.Upholds s'
  processes : s'.processes = s.processes
  current : s'.current = s.current
  fresh : s'.fresh = s.fresh
  turns : ∀ q, x ≠ some q → s'.turns q ≤ s.turns q
  config : ∀ i, (s'.node i).device.config = (s.node i).device.config

namespace Abides

variable {x : Option ProcessId}

theorem refl (s : Network n m) : Abides x s s := ⟨.refl, rfl, rfl, rfl, fun _ _ => Nat.le_refl _, fun _ => rfl⟩

/-- What is sent through a network. -/
theorem of_passes (hk : s.Upholds s') (hs : Spares s s') (hp : Passes (fun _ => 0) s s') : Abides x s s' :=
  ⟨hk, hs.processes, hs.current, hs.fresh, fun q _ => Nat.le_of_eq (hp.turns q), fun i => by rw [(hs.slots i).device]⟩

end Abides

variable {x : Option ProcessId} {i : Fin n} {p : ProcessId}

theorem upholds_commit (s : Network n m) (i : Fin n) (w : Working (Node n m) n m) : s.Upholds (s.commit i w) := by
  rw [commit, ← Array.foldl_toList]
  exact upholds_effects { s.setNode i w.part with quantum := w.quantum } w.effects.toList

theorem abides_commit {w : Working (Node n m) n m} (ht : ∀ q, x ≠ some q → w.turns q ≤ (s.working i).turns q)
    (hc : w.part.device.config = (s.node i).device.config) : Abides x s (s.commit i w) where
  upholds := upholds_commit s i w
  processes := (spares_commit s i w).processes
  current := (spares_commit s i w).current
  fresh := (spares_commit s i w).fresh
  turns q hq := by
    have hturns := turns_commit s i w q
    have hlines : (s.working i).turns q = (s.node i).lines q := Nat.zero_add _
    have := ht q hq
    omega
  config j := by
    rw [(commit_slots s i w j).device]
    split
    · rename_i hj
      rw [hj, hc]
    · rfl

theorem abides_of_stirs {w : Working (Node n m) n m} (h : Stirs x (s.working i) w) : Abides x s (s.commit i w) :=
  abides_commit h.turns h.config

theorem abides_commitHost {w : Working (Host n) n m} (h : Solitary p ⟨s.host i, s.quantum, s.now, #[]⟩ w) :
    Abides (some p) s (s.commitHost i w) := by
  have hs : Spares { s.setHost i w.part with quantum := w.quantum } (s.commitHost i w) := spares_effects _ _
  refine ⟨?_, hs.processes, hs.current, hs.fresh, fun q hq => ?_, fun j => congrArg _ (hs.slots j).device⟩
  · rw [commitHost, ← Array.foldl_toList]
    exact upholds_effects { s.setHost i w.part with quantum := w.quantum } w.effects.toList
  · have hne : q ≠ p := fun h => hq (congrArg some h.symm)
    have hturns := turns_commitHost s i w q
    have hlines : w.part.lines q = (s.host i).lines q := h.lines q hne
    have hresumed : w.resumed q = 0 := h.resumed q hne
    omega

/-- A process at work. -/
theorem abides_stepActivity (s : Network n m) (p : ProcessId) (wake : Wake) (a : Activity n m) :
    Abides (some p) s (s.stepActivity p wake a).2 := by
  have hwork : ∀ {α : Type} {i} {x : NodeWork n m α}, Within (Stirs (some p)) x → Abides (some p) s (s.atNode i x).2 :=
    fun hx => abides_of_stirs (hx _)
  cases a with
  | pairing i stage =>
    change Abides (some p) s (s.commit i ((Pairing.step p stage wake).exec (s.working i)).2)
    rcases Pairing.step_tries p stage wake (s.working i) with ⟨t, k, w', -, he, hw⟩ | ⟨hs, -⟩
    · rw [he]
      refine abides_commit (fun q hq => ?_) hw.config
      have hne : q ≠ p := fun h => hq (congrArg some h.symm)
      exact Nat.le_of_eq (by rw [hw.turns, if_neg hne, Nat.add_zero])
    · exact abides_of_stirs hs
  | dispatch i stage => exact hwork (Dispatch.step_lavish p stage wake)
  | host i stage => exact abides_commitHost ((HostRun.step_solitary p stage wake) _)
  | client w =>
    change Abides (some p) s (s.stepClient p w wake).2
    unfold stepClient
    split
    · exact hwork (Execution.step_lavish p _)
    · exact hwork (x := startCall p _) (startCall_mild p _)
    · exact hwork (x := startGate p _) (startGate_mild p _)
    · exact hwork (x := finishCall _) (finishCall_mild _)
    · exact hwork (x := linkCall _ _ _ _) (linkCall_mild _ _ _ _)
    · exact .refl s
    · exact .refl s
    · exact .refl s

/-! The end of a step. -/

/-- A process has met a fault and is no more. -/
def Perishes (s : Network n m) (p : ProcessId) (s' : Network n m) : Prop :=
  ∃ process o log, s' = { s.finish p process o with log := log }

theorem perishes_of_failProcess {process : Process n m} {f : Fault}
    (h : s.failProcess p process f = .went s' ∨ ∃ f', s.failProcess p process f = .failed f' s') : s.Perishes p s' := by
  unfold failProcess at h
  split at h
  · rcases h with h | ⟨_, h⟩
    · cases h
      exact ⟨process, some (.failed f), _, rfl⟩
    · exact nomatch h
  · rcases h with h | ⟨_, h⟩
    · exact nomatch h
    · cases h
      exact ⟨process, none, _, rfl⟩

/-- What the step of a process comes to: it goes on, rests or ends as its activity says, or it perishes, which it does
only by a fault of its own or of the link that it asks. -/
theorem stepProcess_cases {process : Process n m} {wake : Wake}
    (h : s.stepProcess p process wake = .went s' ∨ ∃ f, s.stepProcess p process wake = .failed f s') :
    (∃ flow, (s.stepActivity p wake process.activity).1 = .ok flow ∧
        (s.stepActivity p wake process.activity).2.Resolves p process flow s') ∨
      (∀ flow, (s.stepActivity p wake process.activity).1 = .ok flow → flow.asks = true) ∧
        (s.stepActivity p wake process.activity).2.Perishes p s' := by
  have hwent : ∀ {s₁ s₂ : Network n m}, ((.went s₁ : Progress (Network n m) Fault) = .went s₂ ∨
      ∃ f, (.went s₁ : Progress (Network n m) Fault) = .failed f s₂) → s₁ = s₂ := by
    rintro s₁ s₂ (h | ⟨_, h⟩)
    · cases h
      rfl
    · exact nomatch h
  unfold stepProcess at h
  split at h
  · rename_i ha
    rw [ha]
    refine .inr ⟨fun flow hflow => ?_, perishes_of_failProcess h⟩
    exact nomatch hflow
  · rename_i ha
    rw [ha, ← hwent h]
    exact .inl ⟨_, rfl, .go _⟩
  · rename_i ha
    rw [ha, ← hwent h]
    exact .inl ⟨_, rfl, .rest _⟩
  · rename_i ha
    rw [ha, ← hwent h]
    exact .inl ⟨_, rfl, .finished _⟩
  · rename_i ha
    rw [ha]
    split at h
    · refine .inr ⟨fun flow hflow => ?_, perishes_of_failProcess h⟩
      cases hflow
      rfl
    · rename_i hask
      rw [← hwent h]
      exact .inl ⟨_, rfl, .answered _ hask⟩
    · rename_i hask
      rw [← hwent h]
      exact .inl ⟨_, rfl, .waiting _ hask⟩

/-- What a step of a run leaves of a process that does not go on: it stays where it is, with its turns, and is still to
be resumed, or it begins to go on, at the time at which it was to be resumed. -/
structure Outlasts (q : ProcessId) (s s' : Network n m) : Prop where
  process : s'.processes.get? q = s.processes.get? q
  turns : s'.turns q ≤ s.turns q
  resumed : (s'.current.map Prod.fst ≠ some q ∧
      ∀ t ∈ s.agenda.queue, t.event.resumed? = some q → t ∈ s'.agenda.queue) ∨
    s'.current.map Prod.fst = some q ∧ ∃ t ∈ s.agenda.queue, t.event.resumed? = some q ∧ s'.now = t.time

/-- What a step of a run leaves as it is: how devices are built, the number of the next process, and every process but
the one that is named, if one is. -/
structure Besides (x : Option ProcessId) (s s' : Network n m) : Prop where
  fresh : s'.fresh = s.fresh
  config : ∀ i, (s'.node i).device.config = (s.node i).device.config
  outlasts : ∀ q, x ≠ some q → Outlasts q s s'

/-- Somebody has been at work, and what comes after it concerns the process that is named alone. -/
theorem Abides.besides (h : Abides x s s₁) (hf : s'.fresh = s₁.fresh) (hk : s₁.Upholds s')
    (hn : ∀ i, (s'.node i).device.config = (s₁.node i).device.config)
    (hp : ∀ q, x ≠ some q → s'.processes.get? q = s₁.processes.get? q)
    (ht : ∀ q, x ≠ some q → s'.turns q ≤ s₁.turns q)
    (hc : ∀ q, x ≠ some q → s'.current.map Prod.fst ≠ some q) : Besides x s s' :=
  ⟨hf.trans h.fresh, fun i => (hn i).trans (h.config i), fun q hq => ⟨(hp q hq).trans (by rw [h.processes]),
    Nat.le_trans (ht q hq) (h.turns q hq), .inl ⟨hc q hq, fun t hmem _ => hk.mem (h.upholds.mem hmem)⟩⟩⟩

/-- Nobody goes on, and nobody begins to. -/
theorem Abides.besides_of_idle (h : Abides x s s') (hc : s.current = none) : Besides x s s' :=
  h.besides rfl .refl (fun _ => rfl) (fun _ _ => rfl) (fun _ _ => Nat.le_refl _)
    fun q _ => by simp [h.current, hc]

section

variable {process : Process n m} {flow : Flow m (Activity n m) (Option Outcome)}

theorem Resolves.upholds (h : s.Resolves p process flow s') : s.Upholds s' := by
  cases h with
  | go a => exact .refl
  | rest a => exact .refl
  | finished o =>
    cases o with
    | _ => exact .refl
  | answered a h =>
    have hk := upholds_askLink h
    exact hk
  | waiting a h =>
    have hk := upholds_askLink h
    exact hk

/-- Nobody goes on but the process that has made a step. -/
theorem Resolves.current_ne (h : s.Resolves p process flow s') {q : ProcessId} (hq : q ≠ p) :
    s'.current.map Prod.fst ≠ some q := by
  cases h with
  | go a => simpa [setCurrent] using hq.symm
  | rest a => simp [setCurrent]
  | finished o =>
    cases o with
    | _ => simp [finish]
  | answered a h => simpa [setCurrent] using hq.symm
  | waiting a h => simp [setCurrent]

theorem Resolves.besides (h : s₁.Resolves p process flow s') (ha : Abides (some p) s s₁)
    (hc : s.current.map Prod.fst = some p) : Besides (some p) s s' := by
  have hne : ∀ {q}, some p ≠ some q → q ≠ p := fun hq h => hq (congrArg some h.symm)
  have hc₁ : s₁.current.map Prod.fst = some p := by rw [ha.current, hc]
  refine ha.besides h.spares.fresh h.upholds (fun i => by rw [(h.slots i).device]) (fun q hq => ?_) (fun q hq => ?_)
    fun q hq => h.current_ne (hne hq)
  · rw [h.processes, if_neg (hne hq)]
  · have := (h.turns hc₁ q).2
    omega

end

theorem Perishes.processes (h : s.Perishes p s') (q : ProcessId) :
    s'.processes.get? q = if q = p then none else s.processes.get? q := by
  obtain ⟨process, o, log, rfl⟩ := h
  have herase : (s.finish p process o).processes = s.processes.erase p := by
    cases o with
    | _ => rfl
  change (s.finish p process o).processes.get? q = _
  rw [herase]
  split
  · rename_i hq
    rw [hq, SortedMap.get?_erase_self]
  · rename_i hq
    exact SortedMap.get?_erase_of_ne _ hq

theorem Perishes.now (h : s.Perishes p s') : s'.now = s.now := by
  obtain ⟨process, o, log, rfl⟩ := h
  cases o with
  | _ => rfl

theorem Perishes.besides (h : s₁.Perishes p s') (ha : Abides (some p) s s₁) : Besides (some p) s s' := by
  have hprocesses := h.processes
  obtain ⟨process, o, log, rfl⟩ := h
  have hturns : ∀ q, ({ s₁.finish p process o with log := log } : Network n m).turns q = (s₁.setCurrent none).turns q :=
    fun q => (turns_finish s₁ p process o q).2
  refine ha.besides ?_ ?_ (fun i => ?_) (fun q hq => ?_) (fun q hq => ?_) fun q hq => ?_
  · cases o with
    | _ => rfl
  · cases o with
    | _ => exact .refl
  · cases o with
    | _ => rfl
  · rw [hprocesses, if_neg fun h => hq (congrArg some h.symm)]
  · have := turns_current s₁ q
    rw [hturns]
    omega
  · cases o with
    | _ => simp [finish]

/-! Runs. -/

/-- One step of a run in which clients have processes of their own: a step of a run without them, or a client acts in
some other way. A client that executes a subroutine begins at its start. -/
inductive Continues (s : Network n m) : Network n m → Prop where
  | follows {cause : Cause n} {s' : Network n m} (h : s.Follows cause s') : Continues s s'
  | spawn (hc : s.current = none) (name : String) (w : ClientWork n m)
      (hw : ∀ i e, w = .executing i e → e.stage = .start) : Continues s (s.spawn name (.client w))
  | abort (hc : s.current = none) (l : Fin m) (e : LinkEnd) : Continues s (s.abortLink l e)
  | connect {s' : Network n m} (hc : s.current = none) (i : Fin n) (l : Fin m) (h : s.connect i l = .ok s') :
      Continues s s'
  | takeReplies (hc : s.current = none) (i : Fin n) : Continues s (s.takeReplies i).2
  | takeNotices (hc : s.current = none) : Continues s s.takeNotices.2
  | takeLog (hc : s.current = none) : Continues s s.takeLog.2

/-- Runs from a freshly built network in which clients have processes of their own: the states so far, latest first, and
the state that has been reached. -/
inductive Journey (c : NetworkConfig) :
    List (Network c.nodes.length c.links.length) → Network c.nodes.length c.links.length → Prop where
  | built {s : Network c.nodes.length c.links.length} (h : build c = .ok s) : Journey c [] s
  | step {past : List (Network c.nodes.length c.links.length)} {s s' : Network c.nodes.length c.links.length}
      (h : Journey c past s) (hs : s.Continues s') : Journey c (s :: past) s'

theorem Course.journey {c : NetworkConfig} {past : List (Stride c.nodes.length c.links.length)}
    {s : Network c.nodes.length c.links.length} (h : Course c past s) : Journey c (past.map (·.before)) s := by
  induction h with
  | built h => exact .built h
  | step _ hf ih => exact ih.step (.follows hf)

/-- What a step of a run comes to: the process that goes on makes a step, processes begin, or nothing happens to any. -/
inductive Unfolds (s : Network n m) : Network n m → Prop where
  | proceed {s' : Network n m} (h : s.proceed = .went s' ∨ ∃ f, s.proceed = .failed f s') : Unfolds s s'
  | start (hc : s.current = none) : Unfolds s s.start
  | spawn (hc : s.current = none) (name : String) (w : ClientWork n m)
      (hw : ∀ i e, w = .executing i e → e.stage = .start) : Unfolds s (s.spawn name (.client w))
  | besides {s' : Network n m} (hc : s.current = none) (h : Besides none s s') : Unfolds s s'

/-- An event begins. Only the process that it resumes, if it resumes one, begins to go on. -/
theorem besides_begin {limit : Nat} {e : NetworkEvent n m} {a : Agenda (NetworkEvent n m)} (hc : s.current = none)
    (h : s.agenda.next limit = .event e a) : Besides none s ({ s with agenda := a }.begin e).2 := by
  have hahead := ahead_next hc h
  let s₁ : Network n m := { s with agenda := a }
  obtain ⟨t, rest, hqueue, -, htevent, ha⟩ := Agenda.next_eq_event.1 h
  have hmem : ∀ u ∈ s.agenda.queue, u ≠ t → u ∈ s₁.agenda.queue := fun u hu hne => by
    rw [hqueue] at hu
    change u ∈ a.queue
    rw [ha]
    exact (List.mem_cons.1 hu).resolve_left hne
  have hpass : e.resumed? = none → ∀ {s'}, Abides none s₁ s' → Besides none s s' := fun he s' h' => by
    have hcurrent : ∀ q, s'.current.map Prod.fst ≠ some q := fun q => by simp [h'.current, s₁, hc]
    refine ⟨h'.fresh, h'.config, fun q hq => ⟨by rw [h'.processes], ?_, .inl ⟨hcurrent q, fun u hu hr => ?_⟩⟩⟩
    · have hdue : s₁.due q = s.due q := by rw [due, due, hahead, List.filterMap_cons, he]
      exact Nat.le_trans (h'.turns q hq) (Nat.le_of_eq (congrArg (· + s.waits q) hdue))
    · refine h'.upholds.mem (hmem u hu fun hut => ?_)
      rw [hut, ← htevent, he] at hr
      exact Option.some_ne_none q hr.symm
  cases e with
  | resume p wake =>
    refine ⟨rfl, fun _ => rfl, fun q _ => ⟨rfl, ?_, ?_⟩⟩
    · exact Nat.le_of_eq (congrArg (· + s.waits q) (due_hear hc hahead q))
    · by_cases hq : p = q
      · refine .inr ⟨congrArg some hq, t, by rw [hqueue]; exact List.mem_cons_self, ?_, ?_⟩
        · rw [← htevent]
          exact congrArg some hq
        · exact congrArg Agenda.now ha
      · refine .inl ⟨fun h => hq (Option.some.inj h), fun u hu hr => hmem u hu fun hut => hq ?_⟩
        rw [hut, ← htevent] at hr
        exact Option.some.inj hr
  | deliver line text =>
    exact hpass rfl (.of_passes (upholds_deliver _ _ _) (spares_deliver _ _ _) (passes_deliver _ _ _))
  | deliverPeer source target message =>
    exact hpass rfl (.of_passes .refl (spares_setInbound _ _ _ _) (passes_setInbound _ _ _ _))
  | news i => exact hpass rfl (abides_of_stirs (s := s₁) ((Labour.news (i := i)).stirs _))
  | link l e => exact hpass rfl (.of_passes (upholds_fireLink _ _ _) (spares_fireLink _ _ _) (passes_fireLink _ _ _))
  | alarm k => exact hpass rfl (.refl s₁)

/-- What is sent through a network does nothing to its processes. -/
theorem Unfolds.of_passes (hc : s.current = none) (hk : s.Upholds s') (hs : Spares s s')
    (hp : Passes (fun _ => 0) s s') : s.Unfolds s' :=
  .besides hc ((Abides.of_passes hk hs hp).besides_of_idle hc)

theorem Follows.unfolds {cause : Cause n} (h : s.Follows cause s') : s.Unfolds s' := by
  have hlabour : ∀ {cause : Cause n} {i : Fin n} {y : NodeWork n m Unit}, s.current = none → Labour i cause y →
      s.Unfolds (s.atNode i y).2 :=
    fun hc hy => .besides hc ((abides_of_stirs (hy.stirs _)).besides_of_idle hc)
  cases h with
  | moves h =>
    cases h with
    | start hc => exact .start hc
    | proceed h => exact .proceed (.inl h)
    | begin hc h => exact .besides hc (besides_begin hc h)
    | wait hc h =>
      obtain ⟨t, rest, -, -, rfl⟩ := Agenda.next_eq_later.1 h
      exact .besides hc ⟨rfl, fun _ => rfl, fun q _ => ⟨rfl, Nat.le_refl _, .inl ⟨by simp [hc], fun u hu _ => hu⟩⟩⟩
  | fails h => exact .proceed (.inr ⟨_, h⟩)
  | act hc a =>
    cases a with
    | atNode i a => exact hlabour hc (.act a)
    | post i text => exact .of_passes hc (upholds_send _ _ _) (spares_send _ _ _) (passes_send _ _ _)
    | enqueue i p times =>
      refine .of_passes hc .refl (spares_of_nodes rfl rfl rfl rfl rfl) (passes_of_same (fun _ => rfl) (fun _ => rfl) fun q => ?_)
      exact Nat.add_right_cancel (waits_setHost s i ((s.host i).enqueue p times) q)
    | alarm delay k =>
      exact .of_passes hc (upholds_schedule _ _ _) (spares_schedule _ _ _) (passes_schedule_of_none _ _ rfl)
  | slots hc i a => exact hlabour hc (.slots a)

theorem Continues.unfolds (h : s.Continues s') : s.Unfolds s' := by
  cases h with
  | follows h => exact h.unfolds
  | spawn hc name w hw => exact .spawn hc name w hw
  | abort hc l e => exact .of_passes hc (grows_updateLink s _) (spares_updateLink s l _) (passes_updateLink s l _)
  | connect hc i l h =>
    unfold Network.connect at h
    dsimp only at h
    split at h
    · exact nomatch h
    · cases h
      exact .of_passes hc .refl (spares_setNode s i ⟨rfl, rfl, rfl, rfl, rfl, rfl, rfl, rfl⟩)
        (passes_setNode s i fun _ => rfl)
  | takeReplies hc i =>
    exact .of_passes hc (upholds_setChannel s (.toHost i) _) (spares_setChannel s (.toHost i) _)
      (passes_setChannel s (.toHost i) rfl)
  | takeNotices hc =>
    exact .of_passes hc .refl (spares_of_nodes rfl rfl rfl rfl rfl) (passes_of_same (fun _ => rfl) (fun _ => rfl) fun _ => rfl)
  | takeLog hc =>
    exact .of_passes hc .refl (spares_of_nodes rfl rfl rfl rfl rfl) (passes_of_same (fun _ => rfl) (fun _ => rfl) fun _ => rfl)

end Network

end QuantumNode
