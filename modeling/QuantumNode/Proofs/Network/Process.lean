import QuantumNode.Proofs.Host.Quiet
import QuantumNode.Proofs.Network.Spare
import QuantumNode.Proofs.Network.Trace
import QuantumNode.Proofs.Node.Dispatch

/-! The processes of a network: which of them there are, and what a small step of one comes to. -/
namespace QuantumNode

open Work Working

variable {n m : Nat}

/-! The numbers that processes get when a network is started. -/

def pairId (i : Fin n) : Nat := 2 * i.val

def dispatchId (i : Fin n) : Nat := 2 * i.val + 1

def hostId (i : Fin n) : Nat := 2 * n + i.val

@[simp] theorem pairId_inj {i j : Fin n} : pairId i = pairId j ↔ i = j := by
  unfold pairId
  omega

@[simp] theorem dispatchId_inj {i j : Fin n} : dispatchId i = dispatchId j ↔ i = j := by
  unfold dispatchId
  omega

@[simp] theorem pairId_ne_dispatchId (i j : Fin n) : pairId i ≠ dispatchId j := by
  unfold pairId dispatchId
  omega

@[simp] theorem pairId_ne_hostId (i j : Fin n) : pairId i ≠ hostId j := by
  unfold pairId hostId
  omega

@[simp] theorem dispatchId_ne_hostId (i j : Fin n) : dispatchId i ≠ hostId j := by
  unfold dispatchId hostId
  omega

/-- A process of a node or a host has the number of its part. -/
def Activity.Sits (p : ProcessId) : Activity n m → Prop
  | .pairing i _ => p = pairId i
  | .dispatch i _ => p = dispatchId i
  | .host i _ => p = hostId i
  | .client _ => False

namespace Network

/-- How far the pair service of a node has come. -/
def pairStage (s : Network n m) (i : Fin n) : PairStage :=
  match s.processes.get? (pairId i) with
  | some ⟨_, .pairing _ st⟩ => st
  | _ => .idle

/-- How far the dispatcher of a node has come. -/
def dispatchStage (s : Network n m) (i : Fin n) : DispatchStage :=
  match s.processes.get? (dispatchId i) with
  | some ⟨_, .dispatch _ st⟩ => st
  | _ => .idle

/-- There are no processes but those of nodes and hosts, and none before the start. -/
structure Crewed (s : Network n m) : Prop where
  sits : ∀ {p process}, s.processes.get? p = some process → process.activity.Sits p
  unstarted : s.started = false → s.fresh = 0 ∧ s.processes = .empty

/-- A node at work, before it has done anything. -/
def working (s : Network n m) (i : Fin n) : Working (Node n m) n m := ⟨s.node i, s.quantum, s.now, #[]⟩

/-- The dispatcher of a node goes on, and finds that the subroutine that it runs for an application is aborted. -/
structure Aborting (s : Network n m) (i : Fin n) (app : Int) (e : Execution) : Prop where
  current : ∃ wake, s.current = some (dispatchId i, wake)
  stage : s.dispatchStage i = .running app e
  aborted : ∃ w, (Execution.step (dispatchId i) e).exec (s.working i) = (.ok (.finished .aborted), w)

/-- The network after a node's work. -/
def commit (s : Network n m) (i : Fin n) (w : Working (Node n m) n m) : Network n m :=
  w.effects.foldl applyEffect { s.setNode i w.part with quantum := w.quantum }

theorem atNode_eq {α : Type} (s : Network n m) (i : Fin n) (x : NodeWork n m α) :
    s.atNode i x = ((x.exec (s.working i)).1, s.commit i (x.exec (s.working i)).2) := rfl

/-- What becomes of a process after a small step of it. -/
inductive Resolves (s : Network n m) (p : ProcessId) (process : Process n m) :
    Flow m (Activity n m) (Option Outcome) → Network n m → Prop where
  | go (a : Activity n m) : Resolves s p process (.go a) ((s.setActivity p process a).setCurrent (some (p, .go)))
  | rest (a : Activity n m) : Resolves s p process (.rest a) ((s.setActivity p process a).setCurrent none)
  | finished (o : Option Outcome) : Resolves s p process (.finished o) (s.finish p process o)
  | answered {l : Fin m} {e : LinkEnd} {c : LinkCall} {answer : LinkAnswer} {s' : Network n m} (a : Activity n m)
      (h : s.askLink p l e c = .ok (some answer, s')) :
      Resolves s p process (.call a l e c) ((s'.setActivity p process a).setCurrent (some (p, .answer answer)))
  | waiting {l : Fin m} {e : LinkEnd} {c : LinkCall} {s' : Network n m} (a : Activity n m)
      (h : s.askLink p l e c = .ok (none, s')) :
      Resolves s p process (.call a l e c) ((s'.setActivity p process a).setCurrent none)

theorem resolves_of_went {s s' : Network n m} {p : ProcessId} {process : Process n m} {wake : Wake}
    (hs : process.activity.Sits p) (h : s.stepProcess p process wake = .went s') :
    ∃ flow s₁, s.stepActivity p wake process.activity = (.ok flow, s₁) ∧ s₁.Resolves p process flow s' := by
  have hfail : ∀ (s₁ : Network n m) f, s₁.failProcess p process f ≠ .went s' := by
    intro s₁ f hf
    unfold failProcess at hf
    split at hf
    · rename_i ha
      rw [ha] at hs
      exact hs
    · exact nomatch hf
  unfold stepProcess at h
  split at h
  · exact absurd h (hfail _ _)
  · rename_i a s₁ ha
    cases h
    exact ⟨_, s₁, ha, .go a⟩
  · rename_i a s₁ ha
    cases h
    exact ⟨_, s₁, ha, .rest a⟩
  · rename_i o s₁ ho
    cases h
    exact ⟨_, s₁, ho, .finished o⟩
  · rename_i a l e c s₁ ha
    split at h
    · exact absurd h (hfail _ _)
    · rename_i hask
      cases h
      exact ⟨_, s₁, ha, .answered a hask⟩
    · rename_i hask
      cases h
      exact ⟨_, s₁, ha, .waiting a hask⟩

/-- A small step of the process that goes on. -/
inductive Advances (s : Network n m) : Network n m → Prop where
  | gone {p : ProcessId} {wake : Wake} (hc : s.current = some (p, wake)) (hp : s.processes.get? p = none) :
      Advances s (s.setCurrent none)
  | pairing {i : Fin n} {name : String} {stage : PairStage} {wake : Wake} {flow : Pairing.Step m}
      {w : Working (Node n m) n m} {s' : Network n m} (hc : s.current = some (pairId i, wake))
      (hp : s.processes.get? (pairId i) = some ⟨name, .pairing i stage⟩)
      (hx : (Pairing.step (pairId i) stage wake).exec (s.working i) = (.ok flow, w))
      (hr : (s.commit i w).Resolves (pairId i) ⟨name, .pairing i stage⟩ (flow.map (.pairing i) fun e => nomatch e) s') :
      Advances s s'
  | dispatch {i : Fin n} {name : String} {stage : DispatchStage} {wake : Wake} {flow : Dispatch.Step m}
      {w : Working (Node n m) n m} {s' : Network n m} (hc : s.current = some (dispatchId i, wake))
      (hp : s.processes.get? (dispatchId i) = some ⟨name, .dispatch i stage⟩)
      (hx : (Dispatch.step (dispatchId i) stage wake).exec (s.working i) = (.ok flow, w))
      (hr : (s.commit i w).Resolves (dispatchId i) ⟨name, .dispatch i stage⟩
        (flow.map (.dispatch i) fun e => nomatch e) s') :
      Advances s s'
  | host {i : Fin n} {name : String} {stage : HostStage} {wake : Wake} {flow : HostRun.Step m}
      {w : Working (Host n) n m} {s' : Network n m} (hc : s.current = some (hostId i, wake))
      (hp : s.processes.get? (hostId i) = some ⟨name, .host i stage⟩)
      (hx : (HostRun.step (hostId i) stage wake).exec ⟨s.host i, s.quantum, s.now, #[]⟩ = (.ok flow, w))
      (hr : (w.effects.foldl applyEffect { s.setHost i w.part with quantum := w.quantum }).Resolves (hostId i)
        ⟨name, .host i stage⟩ (flow.map (.host i) fun _ => none) s') :
      Advances s s'

theorem step_ok {α β : Type} {r : Except Fault (Flow m α β) × Network n m} {going : α → Activity n m}
    {ending : β → Option Outcome} {flow : Flow m (Activity n m) (Option Outcome)} {s₁ : Network n m}
    (h : step r going ending = (.ok flow, s₁)) : ∃ f, r = (.ok f, s₁) ∧ flow = f.map going ending := by
  obtain ⟨_ | f, s₂⟩ := r
  · exact nomatch h
  · cases h
    exact ⟨f, rfl, rfl⟩

theorem advances_of_went {s s' : Network n m} (hs : s.Crewed) (h : s.proceed = .went s') : s.Advances s' := by
  unfold proceed at h
  split at h
  · exact nomatch h
  · rename_i p wake hc
    split at h
    · rename_i hp
      cases h
      exact .gone hc hp
    · rename_i process hp
      have hsits := hs.sits hp
      obtain ⟨flow, s₁, ha, hr⟩ := resolves_of_went hsits h
      obtain ⟨name, a⟩ := process
      cases a with
      | pairing i stage =>
        obtain rfl : p = pairId i := hsits
        obtain ⟨f, hf, rfl⟩ := step_ok ha
        rw [atNode_eq] at hf
        obtain ⟨hok, rfl⟩ := Prod.mk.inj hf
        exact .pairing hc hp (Prod.ext hok rfl) hr
      | dispatch i stage =>
        obtain rfl : p = dispatchId i := hsits
        obtain ⟨f, hf, rfl⟩ := step_ok ha
        rw [atNode_eq] at hf
        obtain ⟨hok, rfl⟩ := Prod.mk.inj hf
        exact .dispatch hc hp (Prod.ext hok rfl) hr
      | host i stage =>
        obtain rfl : p = hostId i := hsits
        obtain ⟨f, hf, rfl⟩ := step_ok ha
        obtain ⟨hok, rfl⟩ := Prod.mk.inj hf
        exact .host hc hp (Prod.ext hok rfl) hr
      | client w => exact absurd hsits id

theorem dispatch_asks {stage : DispatchStage} {wake : Wake} {p : ProcessId} {flow : Dispatch.Step m}
    {w w' : Working (Node n m) n m} (hx : (Dispatch.step p stage wake).exec w = (.ok flow, w')) : flow.asks = false :=
  Dispatch.step_local p stage wake w flow w' hx

theorem host_asks {stage : HostStage} {wake : Wake} {p : ProcessId} {flow : HostRun.Step m}
    {w w' : Working (Host n) n m} (hx : (HostRun.step p stage wake).exec w = (.ok flow, w')) : flow.asks = false :=
  HostRun.step_local p stage wake w flow w' hx

/-! The table of processes after a step. -/

variable {s s' : Network n m} {p : ProcessId} {process : Process n m} {flow : Flow m (Activity n m) (Option Outcome)}

theorem Resolves.processes (h : s.Resolves p process flow s') (q : ProcessId) :
    s'.processes.get? q =
      if q = p then flow.going?.map fun a => { process with activity := a } else s.processes.get? q := by
  have hset : ∀ (s₁ : Network n m) (a : Activity n m) c, ((s₁.setActivity p process a).setCurrent c).processes.get? q =
      if q = p then some { process with activity := a } else s₁.processes.get? q := by
    intro s₁ a c
    change (s₁.processes.insert p _).get? q = _
    split
    · rename_i hq
      rw [hq, SortedMap.get?_insert_self]
    · rename_i hq
      exact SortedMap.get?_insert_of_ne _ hq _
  cases h with
  | go a => exact hset s a _
  | rest a => exact hset s a _
  | finished o =>
    have hfin : (s.finish p process o).processes = s.processes.erase p := by
      unfold finish
      cases o with
      | none => rfl
      | some o => rfl
    rw [hfin]
    split
    · rename_i hq
      rw [hq, SortedMap.get?_erase_self]
      rfl
    · rename_i hq
      exact SortedMap.get?_erase_of_ne _ hq
  | answered a h =>
    rw [hset, (spares_askLink h).processes]
    rfl
  | waiting a h =>
    rw [hset, (spares_askLink h).processes]
    rfl

theorem Resolves.spares (h : s.Resolves p process flow s') :
    Spares s { s' with processes := s.processes, current := s.current } := by
  cases h with
  | go a => exact spares_of_nodes rfl rfl rfl rfl rfl
  | rest a => exact spares_of_nodes rfl rfl rfl rfl rfl
  | finished o =>
    unfold finish
    cases o with
    | none => exact spares_of_nodes rfl rfl rfl rfl rfl
    | some o => exact spares_of_nodes rfl rfl rfl rfl rfl
  | answered a h =>
    have h := spares_askLink h
    exact ⟨rfl, h.fresh, rfl, h.started, h.slots⟩
  | waiting a h =>
    have h := spares_askLink h
    exact ⟨rfl, h.fresh, rfl, h.started, h.slots⟩

theorem Resolves.slots (h : s.Resolves p process flow s') (i : Fin n) : (s.node i).SameSlots (s'.node i) :=
  h.spares.slots i

theorem Resolves.crewed (h : s.Resolves p process flow s') (hs : s.Crewed) (hp : s.processes.get? p = some process)
    (ha : ∀ a, flow.going? = some a → a.Sits p) : s'.Crewed := by
  refine ⟨fun {q process'} hq => ?_, fun hst => ?_⟩
  · rw [h.processes] at hq
    split at hq
    · rename_i hqp
      obtain ⟨a, hgo, rfl⟩ := Option.map_eq_some_iff.1 hq
      exact hqp ▸ ha a hgo
    · exact hs.sits hq
  · have hempty := (hs.unstarted (h.spares.started.symm.trans hst)).2
    rw [hempty] at hp
    exact nomatch hp

theorem pairStage_of_get? {i : Fin n} (h : s'.processes.get? (pairId i) = s.processes.get? (pairId i)) :
    s'.pairStage i = s.pairStage i := by
  unfold pairStage
  rw [h]

theorem dispatchStage_of_get? {i : Fin n}
    (h : s'.processes.get? (dispatchId i) = s.processes.get? (dispatchId i)) :
    s'.dispatchStage i = s.dispatchStage i := by
  unfold dispatchStage
  rw [h]

theorem pairStage_congr (h : s'.processes = s.processes) (i : Fin n) : s'.pairStage i = s.pairStage i :=
  pairStage_of_get? (by rw [h])

theorem dispatchStage_congr (h : s'.processes = s.processes) (i : Fin n) : s'.dispatchStage i = s.dispatchStage i :=
  dispatchStage_of_get? (by rw [h])

theorem pairStage_eq {i j : Fin n} {name : String} {stage : PairStage}
    (h : s.processes.get? (pairId i) = some ⟨name, .pairing j stage⟩) : s.pairStage i = stage := by
  unfold pairStage
  rw [h]

theorem pairStage_of_gone {i : Fin n} (hp : s.processes.get? (pairId i) = none) : s.pairStage i = .idle := by
  unfold pairStage
  rw [hp]

/-- A pair service that is not idle is still there. -/
theorem Crewed.get?_pairing (hs : s.Crewed) {i : Fin n} (hst : s.pairStage i ≠ .idle) :
    ∃ name, s.processes.get? (pairId i) = some ⟨name, .pairing i (s.pairStage i)⟩ := by
  cases hp : s.processes.get? (pairId i) with
  | none => exact absurd (pairStage_of_gone hp) hst
  | some process =>
    obtain ⟨name, activity⟩ := process
    have hsits : activity.Sits (pairId i) := hs.sits hp
    cases activity with
    | pairing j stage =>
      obtain rfl : i = j := pairId_inj.1 hsits
      exact ⟨name, by rw [pairStage_eq hp]⟩
    | dispatch j _ => exact absurd hsits (pairId_ne_dispatchId i j)
    | host j _ => exact absurd hsits (pairId_ne_hostId i j)
    | client _ => exact absurd hsits id

theorem dispatchStage_eq {i j : Fin n} {name : String} {stage : DispatchStage}
    (h : s.processes.get? (dispatchId i) = some ⟨name, .dispatch j stage⟩) : s.dispatchStage i = stage := by
  unfold dispatchStage
  rw [h]

theorem dispatchStage_of_gone {i : Fin n} (hp : s.processes.get? (dispatchId i) = none) : s.dispatchStage i = .idle := by
  unfold dispatchStage
  rw [hp]

/-- A step of another process leaves a pair service where it is. -/
theorem Resolves.pairStage_of_ne (h : s.Resolves p process flow s') {i : Fin n} (hi : pairId i ≠ p) :
    s'.pairStage i = s.pairStage i :=
  pairStage_of_get? (by rw [h.processes, if_neg hi])

/-- A step of another process leaves a dispatcher where it is. -/
theorem Resolves.dispatchStage_of_ne (h : s.Resolves p process flow s') {i : Fin n} (hi : dispatchId i ≠ p) :
    s'.dispatchStage i = s.dispatchStage i :=
  dispatchStage_of_get? (by rw [h.processes, if_neg hi])

theorem Resolves.pairStage {i : Fin n} {x : Pairing.Step m}
    (h : s.Resolves (pairId i) process (x.map (.pairing i) fun e => nomatch e) s') : s'.pairStage i = x.stage :=
  pairStage_eq (by rw [h.processes, if_pos rfl, Flow.going?_map, Flow.going?_eq]; rfl)

theorem Resolves.dispatchStage {i : Fin n} {x : Dispatch.Step m}
    (h : s.Resolves (dispatchId i) process (x.map (.dispatch i) fun e => nomatch e) s') :
    s'.dispatchStage i = x.stage :=
  dispatchStage_eq (by rw [h.processes, if_pos rfl, Flow.going?_map, Flow.going?_eq]; rfl)

theorem spares_commit (s : Network n m) (i : Fin n) (w : Working (Node n m) n m) :
    Spares { s.setNode i w.part with quantum := w.quantum } (s.commit i w) :=
  spares_effects _ _

theorem current_commit (s : Network n m) (i : Fin n) (w : Working (Node n m) n m) : (s.commit i w).current = s.current :=
  (spares_commit s i w).current

/-- A node that has been at work is as its work leaves it, and any other as it was. -/
theorem commit_slots (s : Network n m) (i : Fin n) (w : Working (Node n m) n m) (j : Fin n) :
    Node.SameSlots (if j = i then w.part else s.node j) ((s.commit i w).node j) := by
  have h := (spares_commit s i w).slots j
  rwa [show ({ s.setNode i w.part with quantum := w.quantum } : Network n m).node j =
    if j = i then w.part else s.node j from node_setNode s i j w.part] at h

theorem Crewed.congr (hs : s.Crewed) (hp : s'.processes = s.processes) (hf : s'.fresh = s.fresh)
    (hst : s'.started = s.started) : s'.Crewed :=
  ⟨fun h => hs.sits (hp ▸ h), fun h => by
    rw [hf, hp]
    exact hs.unstarted (hst ▸ h)⟩

/-- A small step keeps the table of processes in order. -/
theorem Advances.crewed (h : s.Advances s') (hs : s.Crewed) : s'.Crewed := by
  have hcommit : ∀ i (w : Working (Node n m) n m), (s.commit i w).Crewed := fun i w =>
    hs.congr (spares_commit s i w).processes (spares_commit s i w).fresh (spares_commit s i w).started
  cases h with
  | gone => exact hs.congr rfl rfl rfl
  | pairing hc hp hx hr =>
    refine hr.crewed (hcommit _ _) (by rw [(spares_commit s _ _).processes]; exact hp) fun a ha => ?_
    rw [Flow.going?_map] at ha
    obtain ⟨st, -, rfl⟩ := Option.map_eq_some_iff.1 ha
    rfl
  | dispatch hc hp hx hr =>
    refine hr.crewed (hcommit _ _) (by rw [(spares_commit s _ _).processes]; exact hp) fun a ha => ?_
    rw [Flow.going?_map] at ha
    obtain ⟨st, -, rfl⟩ := Option.map_eq_some_iff.1 ha
    rfl
  | @host i _ _ _ _ w _ hc hp hx hr =>
    have hsp := spares_effects { s.setHost i w.part with quantum := w.quantum } w.effects
    refine hr.crewed (hs.congr hsp.processes hsp.fresh hsp.started) (by rw [hsp.processes]; exact hp) fun a ha => ?_
    rw [Flow.going?_map] at ha
    obtain ⟨st, -, rfl⟩ := Option.map_eq_some_iff.1 ha
    rfl

/-! Events and acts of a client leave the table alone. -/

theorem begin_cases (s : Network n m) (e : NetworkEvent n m) :
    (∃ p wake, e = .resume p wake ∧ (s.begin e).2 = s.setCurrent (some (p, wake))) ∨
      (∃ i, e = .news i ∧ (s.begin e).2 = s.commit i (Node.notifyNews.exec (s.working i)).2) ∨
      Spares s (s.begin e).2 := by
  cases e with
  | resume p wake => exact .inl ⟨p, wake, rfl, rfl⟩
  | news i => exact .inr (.inl ⟨i, rfl, rfl⟩)
  | deliver line text => exact .inr (.inr (spares_deliver s line text))
  | deliverPeer source target message => exact .inr (.inr (spares_setInbound _ _ _ _))
  | link l e => exact .inr (.inr (spares_fireLink s l e))
  | alarm k => exact .inr (.inr (.refl s))

theorem begin_crewed (hs : s.Crewed) (e : NetworkEvent n m) : (s.begin e).2.Crewed := by
  rcases begin_cases s e with ⟨p, wake, -, h⟩ | ⟨i, -, h⟩ | h
  · rw [h]
    exact hs.congr rfl rfl rfl
  · rw [h]
    exact hs.congr (spares_commit _ _ _).processes (spares_commit _ _ _).fresh (spares_commit _ _ _).started
  · exact hs.congr h.processes h.fresh h.started

theorem act_cases {a : ClientAct n} (h : a.run s = (.ok (), s')) :
    (∃ i act w, a = .atNode i act ∧ act.work.exec (s.working i) = (.ok (), w) ∧ s' = s.commit i w) ∨ Spares s s' := by
  cases a with
  | atNode i act =>
    change s.atNode i act.work = _ at h
    rw [atNode_eq] at h
    obtain ⟨hok, rfl⟩ := Prod.mk.inj h
    exact .inl ⟨i, act, _, rfl, Prod.ext hok rfl, rfl⟩
  | post i text =>
    cases h
    exact .inr (spares_send _ _ _)
  | enqueue i p times =>
    cases h
    exact .inr (spares_of_nodes rfl rfl rfl rfl rfl)
  | alarm delay k =>
    cases h
    exact .inr (spares_schedule _ _ _)

theorem act_crewed (hs : s.Crewed) {a : ClientAct n} (h : a.run s = (.ok (), s')) : s'.Crewed := by
  rcases act_cases h with ⟨i, act, w, -, -, rfl⟩ | h
  · exact hs.congr (spares_commit _ _ _).processes (spares_commit _ _ _).fresh (spares_commit _ _ _).started
  · exact hs.congr h.processes h.fresh h.started

/-! The start of a network. -/

theorem foldl_invariant {ε σ : Type} {f : σ → ε → σ} {I : σ → Prop} (hf : ∀ s e, I s → I (f s e)) (l : List ε)
    {s : σ} (h : I s) : I (l.foldl f s) := by
  induction l generalizing s with
  | nil => exact h
  | cons e l ih => exact ih (hf s e h)

/-- Processes that have not gone on yet. -/
def Activity.IsNew : Activity n m → Prop
  | .pairing _ .idle | .dispatch _ .idle | .host _ .next => True
  | _ => False

/-- What outlasts the start of a process that is new outlasts the start of a network. -/
theorem start_invariant {I : Network n m → Prop} (hst : ∀ s, I s → I { s with started := true })
    (hspawn : ∀ s name a, Activity.IsNew a → I s → I (s.spawn name a)) {s : Network n m} (h : I s) : I s.start := by
  unfold start
  split
  · exact h
  · have hnode : ∀ s i, I s → I (s.startNode i) := fun s i h =>
      hspawn _ _ (.dispatch i .idle) trivial (hspawn s _ (.pairing i .idle) trivial h)
    have hhost : ∀ s i, I s → I (s.startHost i) := fun s i h => hspawn s _ (.host i .next) trivial h
    exact foldl_invariant hhost _ (foldl_invariant hnode _ (hst s h))

theorem start_nodes (s : Network n m) : s.start.nodes = s.nodes ∧ s.start.current = s.current :=
  start_invariant (I := fun s' => s'.nodes = s.nodes ∧ s'.current = s.current) (fun _ h => h) (fun _ _ _ _ h => h)
    ⟨rfl, rfl⟩

theorem start_node (s : Network n m) (i : Fin n) : s.start.node i = s.node i := by
  unfold node
  rw [(start_nodes s).1]

/-- The processes that have been started so far are new, and the next gets number `k`. -/
structure Launched (s : Network n m) (k : Nat) : Prop where
  fresh : s.fresh = k
  processes : ∀ {p process}, s.processes.get? p = some process → process.activity.Sits p ∧ Activity.IsNew process.activity

theorem Launched.spawn {k : Nat} (h : s.Launched k) (name : String) {a : Activity n m} (ha : a.Sits k)
    (hn : Activity.IsNew a) : (s.spawn name a).Launched (k + 1) := by
  refine ⟨congrArg (· + 1) h.fresh, fun {p process} hp => ?_⟩
  change (s.processes.insert s.fresh ⟨name, a⟩).get? p = some process at hp
  by_cases hq : p = s.fresh
  · subst hq
    rw [SortedMap.get?_insert_self] at hp
    cases hp
    exact ⟨h.fresh ▸ ha, hn⟩
  · rw [SortedMap.get?_insert_of_ne _ hq] at hp
    exact h.processes hp

private theorem launched_nodes (l : List (Fin n)) {b : Nat} (hb : ∀ k (hk : k < l.length), (l[k]).val = b + k)
    (h : s.Launched (2 * b)) : (l.foldl startNode s).Launched (2 * (b + l.length)) := by
  induction l generalizing s b with
  | nil => exact h
  | cons i l ih =>
    have hi : i.val = b := hb 0 (Nat.zero_lt_succ _)
    have h₂ : (s.startNode i).Launched (2 * (b + 1)) :=
      (h.spawn _ (a := .pairing i .idle) (congrArg (2 * ·) hi.symm) trivial).spawn _ (a := .dispatch i .idle)
        (congrArg (2 * · + 1) hi.symm) trivial
    have := ih (b := b + 1) (fun k hk => by
      have := hb (k + 1) (Nat.succ_lt_succ hk)
      rw [List.getElem_cons_succ] at this
      omega) h₂
    rw [List.length_cons, List.foldl_cons]
    rwa [show b + 1 + l.length = b + (l.length + 1) by omega] at this

private theorem launched_hosts (l : List (Fin n)) {b : Nat} (hb : ∀ k (hk : k < l.length), (l[k]).val = b + k)
    (h : s.Launched (2 * n + b)) : (l.foldl startHost s).Launched (2 * n + (b + l.length)) := by
  induction l generalizing s b with
  | nil => exact h
  | cons i l ih =>
    have hi : i.val = b := hb 0 (Nat.zero_lt_succ _)
    have h₁ : (s.startHost i).Launched (2 * n + (b + 1)) :=
      h.spawn _ (a := .host i .next) (congrArg (2 * n + ·) hi.symm) trivial
    have := ih (b := b + 1) (fun k hk => by
      have := hb (k + 1) (Nat.succ_lt_succ hk)
      rw [List.getElem_cons_succ] at this
      omega) h₁
    rw [List.length_cons, List.foldl_cons]
    rwa [show b + 1 + l.length = b + (l.length + 1) by omega] at this

/-- All processes are new once the network has been started. -/
theorem start_launched (hs : s.Crewed) (hst : s.started = false) :
    s.start.started = true ∧ ∃ k, s.start.Launched k := by
  obtain ⟨hfresh, hempty⟩ := hs.unstarted hst
  have h₀ : ({ s with started := true } : Network n m).Launched (2 * 0) :=
    ⟨hfresh, fun hp => by
      change s.processes.get? _ = _ at hp
      rw [hempty] at hp
      exact nomatch hp⟩
  have h₁ := launched_nodes (List.finRange n) (by simp) h₀
  rw [Nat.zero_add, List.length_finRange] at h₁
  have h₂ := launched_hosts (List.finRange n) (b := 0) (by simp) h₁
  rw [start, if_neg (by simp [hst])]
  refine ⟨?_, _, h₂⟩
  refine foldl_invariant (f := startHost) (I := fun s' : Network n m => s'.started = true) (fun _ _ h => h) _ ?_
  exact foldl_invariant (f := startNode) (I := fun s' : Network n m => s'.started = true) (fun _ _ h => h) _ rfl

theorem start_crewed (hs : s.Crewed) : s.start.Crewed := by
  rcases hst : s.started with _ | _
  · obtain ⟨hst', k, hl⟩ := start_launched hs hst
    refine ⟨fun hp => (hl.processes hp).1, fun h => ?_⟩
    rw [hst'] at h
    exact nomatch h
  · rw [start, if_pos hst]
    exact hs

theorem start_pairStage (hs : s.Crewed) (i : Fin n) : s.start.pairStage i = s.pairStage i := by
  rcases hst : s.started with _ | _
  · obtain ⟨-, k, hl⟩ := start_launched hs hst
    have h₀ : s.pairStage i = .idle := by
      unfold pairStage
      rw [(hs.unstarted hst).2]
      rfl
    rw [h₀]
    unfold pairStage
    split
    · rename_i st hp
      have := (hl.processes hp).2
      cases st with
      | idle => rfl
      | _ => exact absurd this id
    · rfl
  · rw [start, if_pos hst]

theorem start_dispatchStage (hs : s.Crewed) (i : Fin n) : s.start.dispatchStage i = s.dispatchStage i := by
  rcases hst : s.started with _ | _
  · obtain ⟨-, k, hl⟩ := start_launched hs hst
    have h₀ : s.dispatchStage i = .idle := by
      unfold dispatchStage
      rw [(hs.unstarted hst).2]
      rfl
    rw [h₀]
    unfold dispatchStage
    split
    · rename_i st hp
      have := (hl.processes hp).2
      cases st with
      | idle => rfl
      | _ => exact absurd this id
    · rfl
  · rw [start, if_pos hst]

theorem Moves.crewed (h : s.Moves s') (hs : s.Crewed) : s'.Crewed := by
  cases h with
  | start _ => exact start_crewed hs
  | proceed h => exact (advances_of_went hs h).crewed hs
  | @begin _ e a _ _ => exact begin_crewed (s := { s with agenda := a }) (hs.congr rfl rfl rfl) e
  | wait _ _ => exact hs.congr rfl rfl rfl

end Network

end QuantumNode
