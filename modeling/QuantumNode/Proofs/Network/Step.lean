import QuantumNode.Proofs.Network.View
import QuantumNode.Proofs.Node.Deed

/-! What one step of a network does to what pair services see of it. -/
namespace QuantumNode

open Work Working

variable {n m : Nat}

namespace View

/-- A pair service has taken a message from a peer. -/
def takes (v : View n m) (i : Fin n) : Option (Fin n × PeerMessage) → View n m
  | some (j, message) => v.take j i message
  | none => v

/-- A pair service has told a peer something. -/
def tells (v : View n m) (i : Fin n) : Option (Fin n × PeerMessage) → View n m
  | some (j, message) => v.tell i j message
  | none => v

def exchange (v : View n m) (i : Fin n) (took told : Option (Fin n × PeerMessage)) : View n m :=
  (v.takes i took).tells i told

/-- The process that goes on has looked at why. -/
def look (v : View n m) (p : ProcessId) : Wake → View n m
  | .answer a => { v with answers := fun i => if pairId i = p then (v.answers i).erase a else v.answers i }
  | _ => v

/-- A process is going to look at why it goes on. -/
def hear (v : View n m) (p : ProcessId) : Wake → View n m
  | .answer a => v.wake p a
  | _ => v

theorem look_hear (v : View n m) (p : ProcessId) (wake : Wake) : (v.hear p wake).look p wake = v := by
  cases wake with
  | answer a =>
    ext1
    iterate 2 rfl
    · funext i
      change (if pairId i = p then (if pairId i = p then a ::ₘ v.answers i else v.answers i).erase a else
        if pairId i = p then a ::ₘ v.answers i else v.answers i) = v.answers i
      split
      · exact Multiset.erase_cons_head a _
      · rfl
    iterate 5 rfl
  | _ => rfl

/-- A process asks a link; it is answered at once, or waits. -/
inductive Asked (v : View n m) (p : ProcessId) (l : Fin m) (e : LinkEnd) (c : LinkCall) :
    Option LinkAnswer → View n m → Prop where
  | refused {q : QuantumState} {a : LinkAnswer} {link : Link}
      (h : (v.link l).request e c q = .ok (.refused a link)) : Asked v p l e c (some a) (v.setLink l link)
  | accepted {q q' : QuantumState} {effects : List LinkEffect} {link : Link}
      (h : (v.link l).request e c q = .ok (.accepted effects link q')) {v' : View n m}
      (hv : v' = v.updateLink l (effects, link)) :
      Asked v p l e c (((v'.wired l).answers e).receive p).1
        (v'.setWired l ((v'.wired l).setAnswers e (((v'.wired l).answers e).receive p).2))

/-- A process that has asked a link goes on with an answer, if there is one. -/
def wakeWith (v : View n m) (p : ProcessId) : Option LinkAnswer → View n m
  | some a => v.wake p a
  | none => v

/-- What pair services can do: the node of one, why it goes on, what it takes and tells, and where it goes on. -/
abbrev Doings (n m : Nat) : Type :=
  Fin n → Wake → Option (Fin n × PeerMessage) → Option (Fin n × PeerMessage) → Pairing.Step m → Prop

/-- One pair service does something, and nothing else is done. -/
def Doings.Only (does : Doings n m) (i : Fin n) (wake : Wake) (took told : Option (Fin n × PeerMessage))
    (flow : Pairing.Step m) : Prop :=
  does i wake took told flow ∧ ∀ {i' wake' took' told' flow'}, does i' wake' took' told' flow' →
    i' = i ∧ took' = took ∧ told' = told ∧ flow' = flow

/-- Nothing is taken from a peer or told to one. -/
def Doings.Silent (does : Doings n m) : Prop :=
  ∀ {i wake took told flow}, does i wake took told flow → took = none ∧ told = none

theorem Doings.Only.silent {does : Doings n m} {i : Fin n} {wake : Wake} {flow : Pairing.Step m}
    (h : does.Only i wake none none flow) : does.Silent := fun hx => ⟨(h.2 hx).2.1, (h.2 hx).2.2.1⟩

/-- What a step of a network can do to its view, where pair services do what they may. -/
inductive Steps (does : Doings n m) (v : View n m) : View n m → Prop where
  | still (hq : does.Silent) : Steps does v v
  | deed {i : Fin n} {wake : Wake} {took told : Option (Fin n × PeerMessage)} {flow : Pairing.Step m}
      {recorded : PairTask → Nat → Pair → Prop} (hx : does.Only i wake took told flow)
      (hw : ∀ a, wake = .answer a → a ∈ v.answers i) (ht : ∀ j message, took = some (j, message) → message ∈ v.underway j i)
      (hd : Pairing.Deed i (v.port i) recorded (v.stage i) wake took told flow) (hf : flow.asks = false) :
      Steps does v (((v.exchange i took told).look (pairId i) wake).setStage i flow.stage)
  | ask {i : Fin n} {wake : Wake} {took told : Option (Fin n × PeerMessage)} {stage : PairStage} {l : Fin m}
      {e : LinkEnd} {c : LinkCall} {recorded : PairTask → Nat → Pair → Prop} {answer : Option LinkAnswer}
      {v' : View n m} (hx : does.Only i wake took told (.call stage l e c))
      (hw : ∀ a, wake = .answer a → a ∈ v.answers i)
      (hd : Pairing.Deed i (v.port i) recorded (v.stage i) wake took told (.call stage l e c))
      (ha : (v.exchange i took told).Asked (pairId i) l e c answer v') :
      Steps does v (((v'.look (pairId i) wake).setStage i stage).wakeWith (pairId i) answer)
  | abort {i : Fin n} {remote : Int} {l : Fin m} {e : LinkEnd} (hq : does.Silent)
      (hp : v.port i remote = some (l, e)) : Steps does v (v.updateLink l ((v.link l).abort e))
  | fire (hq : does.Silent) (l : Fin m) (event : LinkEvent) (q : QuantumState) :
      Steps does v (v.updateLink l ((v.link l).fire event q).1)

end View

namespace Network

variable {s s' : Network n m} {i : Fin n}

/-! The work of nodes. -/

theorem loud_working (s : Network n m) (i : Fin n) : (s.working i).loud = [] := rfl

theorem view_commit (s : Network n m) (i : Fin n) (w : Working (Node n m) n m) (hs : Open (s.setNode i w.part).view) :
    (s.commit i w).view = w.loud.foldl View.applyEffect (s.setNode i w.part).view := by
  unfold commit
  rw [← Array.foldl_toList]
  exact view_effects { s.setNode i w.part with quantum := w.quantum } w.effects.toList hs

theorem view_setNode_took {w : Working (Node n m) n m} {took told : Option (Fin n × PeerMessage)}
    (h : Exchanges took told (s.working i) w) :
    (s.setNode i w.part).view = s.view.takes i took := by
  have hin := h.inbound
  cases took with
  | none => exact view_setNode s i h.id hin h.links
  | some x =>
    obtain ⟨j, message⟩ := x
    obtain ⟨c, hc, hset⟩ := hin
    have hinbound : ∀ x y, (s.setNode i w.part).inbound x y = if x = j ∧ y = i then c else s.inbound x y := by
      intro x y
      unfold inbound
      rw [node_setNode]
      by_cases hy : y = i
      · subst hy
        rw [if_pos rfl, hset, vector_get_set]
        simp only [and_true]
        rfl
      · rw [if_neg hy, if_neg fun h => hy h.2]
    have hold : s.inbound j i = { c with items := message :: c.items } := hc
    have hnode : ∀ k, ((s.setNode i w.part).node k).id = (s.node k).id ∧
        ((s.setNode i w.part).node k).ports.links = (s.node k).ports.links := by
      intro k
      rw [node_setNode]
      split
      · rename_i hk
        rw [hk]
        exact ⟨h.id, h.links⟩
      · exact ⟨rfl, rfl⟩
    ext1
    · exact funext fun k => (hnode k).1
    · rfl
    · rfl
    · funext x y
      change underway _ x y = if x = j ∧ y = i then (s.underway x y).erase message else s.underway x y
      rw [underway, hinbound]
      split
      · rename_i hxy
        obtain ⟨rfl, rfl⟩ := hxy
        rw [underway, hold]
        change _ = ((message ::ₘ (c.items : Multiset PeerMessage)) + _).erase message
        rw [Multiset.cons_add, Multiset.erase_cons_head]
        rfl
      · rfl
    · funext x y
      change Network.told _ x y = s.told x y
      rw [Network.told, hinbound]
      split
      · rename_i hxy
        obtain ⟨rfl, rfl⟩ := hxy
        rw [Network.told, hold]
      · rfl
    · funext x y
      change (inbound _ x y).waiters = (s.inbound x y).waiters
      rw [hinbound]
      split
      · rename_i hxy
        obtain ⟨rfl, rfl⟩ := hxy
        rw [hold]
      · rfl
    · rfl
    · exact funext fun k => funext fun r => by
        change ((s.setNode i w.part).node k).ports.links.get? r = (s.node k).ports.links.get? r
        rw [(hnode k).2]

/-- What the work of a pair service does to the view. -/
theorem view_commit_exchange {w : Working (Node n m) n m} {took told : Option (Fin n × PeerMessage)}
    (h : Exchanges took told (s.working i) w) (hid : (s.node i).id = i) (hs : Open s.view) :
    (s.commit i w).view = s.view.exchange i took told := by
  have hnode := view_setNode_took h
  have hopen : Open (s.setNode i w.part).view := by
    rw [hnode]
    cases took with
    | none => exact hs
    | some x => exact hs
  rw [view_commit s i w hopen, h.loud, loud_working, hnode]
  have hid' : (s.working i).part.id = i := hid
  rw [hid']
  cases told with
  | none => rfl
  | some x => rfl

theorem view_commit_calm {w : Working (Node n m) n m} (h : Calm (s.working i) w) (hid : (s.node i).id = i)
    (hs : Open s.view) : (s.commit i w).view = s.view :=
  view_commit_exchange h.mute hid hs

/-! The process that goes on. -/

private theorem view_of_cons (s s' : Network n m) (hn : s.nodes = s'.nodes) (hl : s.links = s'.links)
    (hp : s.processes = s'.processes)
    {p : ProcessId} {wake : Wake} (ha : s.ahead = .resume p wake :: s'.ahead) : s.view = s'.view.hear p wake := by
  have hrest : ∀ wake', (∀ a, wake' ≠ .answer a) → s.ahead = .resume p wake' :: s'.ahead → s.view = s'.view := by
    intro wake' hw ha
    have hnode : ∀ i, s.node i = s'.node i := fun i => by
      unfold node
      rw [hn]
    have hquiet : ∀ q, NetworkEvent.answerTo? q (.resume p wake' : NetworkEvent n m) = none := fun q => by
      cases wake' with
      | answer a => exact absurd rfl (hw a)
      | _ => rfl
    refine view_eq (fun i => by rw [hnode]) (fun i => pairStage_congr hp i) (fun q => ?_) (fun x y => ?_) (fun x y => ?_)
      (fun l => ?_) fun i => by rw [hnode]
    · rw [ha, List.filterMap_cons_none (hquiet q)]
    · rw [ha, List.filterMap_cons_none rfl]
    · unfold inbound
      rw [hnode]
    · unfold wired
      rw [hl]
  cases wake with
  | answer a =>
    have hagenda := view_resume_answer s' 0 p a
    have hperm := ahead_schedule s' 0 (.resume p (.answer a))
    refine Eq.trans ?_ hagenda
    have hnode : ∀ i, s.node i = s'.node i := fun i => by
      unfold node
      rw [hn]
    refine view_eq (fun i => congrArg Node.id (hnode i)) (fun i => pairStage_congr hp i) (fun q => ?_) (fun x y => ?_)
      (fun x y => ?_) (fun l => ?_) fun i => congrArg (·.ports.links) (hnode i)
    · rw [ha]
      exact (Multiset.coe_eq_coe.2 (hperm.filterMap _)).symm
    · rw [ha]
      exact (Multiset.coe_eq_coe.2 (hperm.filterMap _)).symm
    · exact congrArg (fun node : Node n m => node.service.inbound.get x) (hnode y)
    · exact congrArg (fun v : Vector WiredLink m => v.get l) hl
  | go => exact hrest .go nofun ha
  | text t => exact hrest (.text t) nofun ha
  | request r => exact hrest (.request r) nofun ha

/-- A process begins to go on; it is still to look at why. -/
theorem view_setCurrent (hc : s.current = none) (p : ProcessId) (wake : Wake) :
    (s.setCurrent (some (p, wake))).view = s.view.hear p wake := by
  refine view_of_cons (s.setCurrent (some (p, wake))) s rfl rfl rfl ?_
  unfold ahead
  rw [hc]
  rfl

theorem view_rest {p : ProcessId} {wake : Wake} (hc : s.current = some (p, wake)) :
    (s.setCurrent none).view = s.view.look p wake := by
  have h : s.view = (s.setCurrent none).view.hear p wake := by
    refine view_of_cons s (s.setCurrent none) rfl rfl rfl ?_
    unfold ahead
    rw [hc]
    rfl
  rw [h, View.look_hear]

theorem view_go {p q : ProcessId} {wake wake' : Wake} (hc : s.current = some (p, wake)) :
    (s.setCurrent (some (q, wake'))).view = (s.view.look p wake).hear q wake' := by
  rw [← view_rest hc]
  exact view_setCurrent (s := s.setCurrent none) rfl q wake'

theorem view_setActivity {process : Process n m} {stage : PairStage} :
    (s.setActivity (pairId i) process (.pairing i stage)).view = s.view.setStage i stage := by
  ext1
  · rfl
  · funext j
    change (s.setActivity (pairId i) process (.pairing i stage)).pairStage j = if j = i then stage else s.pairStage j
    split
    · rename_i hj
      subst hj
      exact pairStage_eq (SortedMap.get?_insert_self ..)
    · rename_i hj
      exact pairStage_of_get? (SortedMap.get?_insert_of_ne _ (fun h => hj (pairId_inj.1 h)) _)
  iterate 6 rfl

theorem view_of_stage (hn : s'.nodes = s.nodes) (hl : s'.links = s.links) (ha : s'.ahead = s.ahead)
    (hst : ∀ j, s'.pairStage j = s.pairStage j) : s'.view = s.view := by
  have hnode : ∀ i, s'.node i = s.node i := fun i => by
    unfold node
    rw [hn]
  refine view_eq (fun j => by rw [hnode]) hst (fun _ => by rw [ha]) (fun _ _ => by rw [ha]) (fun x y => ?_)
    (fun l => ?_) fun j => by rw [hnode]
  · unfold inbound
    rw [hnode]
  · unfold wired
    rw [hl]

/-- A link that is asked. -/
theorem view_askLink {p : ProcessId} {l : Fin m} {e : LinkEnd} {c : LinkCall} {a : Option LinkAnswer}
    (h : s.askLink p l e c = .ok (a, s')) : s.view.Asked p l e c a s'.view := by
  unfold askLink at h
  split at h
  · exact nomatch h
  · rename_i a link hr
    cases h
    rw [view_setLink]
    exact .refused hr
  · rename_i effects link q hr
    cases h
    have hv : (({ s with quantum := q } : Network n m).updateLink l (effects, link)).view =
        s.view.updateLink l (effects, link) := by
      rw [view_updateLink, view_quantum]
    rw [view_setWired]
    exact View.Asked.accepted (v := s.view) (p := p) hr hv

/-! One step. -/

/-- The step of a pair service that goes on by itself. -/
theorem Resolves.view_local {process : Process n m} {wake : Wake} {x : Pairing.Step m}
    (h : s.Resolves (pairId i) process (x.map (.pairing i) fun e => nomatch e) s')
    (hc : s.current = some (pairId i, wake)) (hf : x.asks = false) :
    s'.view = (s.view.look (pairId i) wake).setStage i x.stage := by
  cases x with
  | go stage =>
    cases h
    rw [view_go (s := s.setActivity (pairId i) process (.pairing i stage)) hc, view_setActivity]
    cases wake with
    | _ => rfl
  | rest stage =>
    cases h
    rw [view_rest (s := s.setActivity (pairId i) process (.pairing i stage)) hc, view_setActivity]
    cases wake with
    | _ => rfl
  | call stage l e c => exact nomatch hf
  | finished e => exact nomatch e

theorem Resolves.view_call {process : Process n m} {wake : Wake} {stage : PairStage} {l : Fin m} {e : LinkEnd}
    {c : LinkCall} (h : s.Resolves (pairId i) process (.call (.pairing i stage) l e c) s')
    (hc : s.current = some (pairId i, wake)) :
    ∃ answer v, s.view.Asked (pairId i) l e c answer v ∧
      s'.view = ((v.look (pairId i) wake).setStage i stage).wakeWith (pairId i) answer := by
  cases h with
  | @answered _ _ _ answer s₁ _ hask =>
    refine ⟨_, _, view_askLink hask, ?_⟩
    have hc₁ : s₁.current = some (pairId i, wake) := (spares_askLink hask).current.trans hc
    rw [view_go (s := s₁.setActivity (pairId i) process (.pairing i stage)) hc₁, view_setActivity]
    cases wake with
    | _ => rfl
  | @waiting _ _ _ s₁ _ hask =>
    refine ⟨_, _, view_askLink hask, ?_⟩
    have hc₁ : s₁.current = some (pairId i, wake) := (spares_askLink hask).current.trans hc
    rw [view_rest (s := s₁.setActivity (pairId i) process (.pairing i stage)) hc₁, view_setActivity]
    cases wake with
    | _ => rfl

/-- The step of a process that is no pair service and asks no link. -/
theorem Resolves.view_other {p : ProcessId} {process : Process n m} {wake : Wake}
    {flow : Flow m (Activity n m) (Option Outcome)} (h : s.Resolves p process flow s')
    (hc : s.current = some (p, wake)) (hp : ∀ i, pairId (n := n) i ≠ p) (hf : flow.asks = false) :
    s'.view = s.view := by
  have hlook : s.view.look p wake = s.view := by
    cases wake with
    | answer a =>
      ext1
      iterate 2 rfl
      · exact funext fun i => if_neg (hp i)
      iterate 5 rfl
    | _ => rfl
  have hst : ∀ j, s'.pairStage j = s.pairStage j := fun j => h.pairStage_of_ne (hp j)
  have hset : ∀ a, (s.setActivity p process a).view = s.view := fun a =>
    view_of_stage rfl rfl rfl fun j => pairStage_of_get? (SortedMap.get?_insert_of_ne _ (hp j) _)
  cases h with
  | go a =>
    rw [view_go (s := s.setActivity p process a) hc, hset]
    exact hlook
  | rest a =>
    rw [view_rest (s := s.setActivity p process a) hc, hset]
    exact hlook
  | finished o =>
    rw [← hlook, ← view_rest hc]
    refine view_of_stage ?_ ?_ ?_ hst
    all_goals
      unfold finish
      cases o with
      | none => rfl
      | some o => rfl
  | answered a hask => exact nomatch hf
  | waiting a hask => exact nomatch hf

theorem mem_answers {a : LinkAnswer} (hc : s.current = some (pairId i, .answer a)) : a ∈ s.answers i := by
  have ha : (NetworkEvent.resume (pairId i) (.answer a) : NetworkEvent n m).answerTo? (pairId i) = some a := if_pos rfl
  unfold answers ahead
  rw [hc]
  refine Multiset.mem_coe.2 (List.mem_filterMap.2 ⟨_, List.mem_append_left _ ?_, ha⟩)
  exact List.mem_singleton.2 rfl

/-- A message that is taken was under way. -/
theorem mem_underway {w : Working (Node n m) n m} {j : Fin n} {message : PeerMessage}
    {told : Option (Fin n × PeerMessage)} (h : Exchanges (some (j, message)) told (s.working i) w) :
    message ∈ s.underway j i := by
  obtain ⟨c, hc, -⟩ := h.inbound
  have hin : s.inbound j i = { c with items := message :: c.items } := hc
  unfold underway
  rw [hin]
  exact Multiset.mem_add.2 (.inl List.mem_cons_self)

end Network

/-- Nodes know their numbers, nobody waits for a message of a peer, and an idle pair service is owed no answer. -/
structure View.Regular (v : View n m) : Prop where
  id : ∀ i, v.id i = i
  listeners : Network.Open v
  idle : ∀ i, v.stage i = .idle → v.answers i = 0

namespace Network

variable {s s' : Network n m} {i : Fin n}

/-- The pair service of a node is the process that goes on, and this is what it does. -/
def Does (s : Network n m) : View.Doings n m := fun i wake took told flow =>
  s.current = some (pairId i, wake) ∧ (∃ name, s.processes.get? (pairId i) = some ⟨name, .pairing i (s.pairStage i)⟩) ∧
    ∃ w, (Pairing.step (pairId i) (s.pairStage i) wake).exec (s.working i) = (.ok flow, w) ∧
      Exchanges took told (s.working i) w

theorem Does.only {wake : Wake} {took told : Option (Fin n × PeerMessage)} {flow : Pairing.Step m}
    (h : s.Does i wake took told flow) : s.Does.Only i wake took told flow := by
  refine ⟨h, fun {i' wake' took' told' flow'} h' => ?_⟩
  obtain ⟨hc, -, w, hx, he⟩ := h
  obtain ⟨hc', -, w', hx', he'⟩ := h'
  rw [hc] at hc'
  injection hc' with hc'
  injection hc' with hi hwake
  obtain rfl := pairId_inj.1 hi
  subst hwake
  rw [hx] at hx'
  cases hx'
  obtain ⟨rfl, rfl⟩ := he.unique he'
  exact ⟨rfl, rfl, rfl, rfl⟩

/-- Where no pair service goes on nothing is exchanged. -/
theorem silent_of_current (hc : ∀ (i : Fin n) (wake : Wake), s.current ≠ some (pairId i, wake)) : s.Does.Silent := fun h =>
  absurd h.1 (hc _ _)

theorem silent_of_none (hc : s.current = none) : s.Does.Silent := silent_of_current fun _ _ h => nomatch hc.symm.trans h

/-- A small step of a process. -/
theorem Advances.steps (h : s.Advances s') (hs : s.view.Regular) : s.view.Steps s.Does s'.view := by
  cases h with
  | @gone p wake hc hp =>
    have hlook : s.view.look p wake = s.view := by
      cases wake with
      | answer a =>
        ext1
        iterate 2 rfl
        · funext i
          refine if_neg fun hi => ?_
          subst hi
          have hidle : s.pairStage i = .idle := by
            unfold pairStage
            rw [hp]
          have hmem : a ∈ s.answers i := mem_answers hc
          have hnone : s.answers i = 0 := hs.idle i hidle
          rw [hnone] at hmem
          exact Multiset.notMem_zero a hmem
        iterate 5 rfl
      | _ => rfl
    rw [view_rest hc, hlook]
    refine .still fun ⟨hcur, ⟨name, hget⟩, _⟩ => ?_
    rw [hc] at hcur
    cases hcur
    exact nomatch hp.symm.trans hget
  | @pairing i name stage wake flow w _ hc hp hx hr =>
    obtain ⟨took, told, hexchange, hd⟩ := Pairing.step_deed (pairId i) stage wake flow w hx
    have hid : (s.node i).id = i := hs.id i
    have hview := view_commit_exchange hexchange hid hs.listeners
    have hstage : s.view.stage i = stage := pairStage_eq hp
    have hd : Pairing.Deed i (s.view.port i) (Pairing.Records w.part) (s.view.stage i) wake took told flow := by
      rw [hstage]
      have hid' : (s.working i).part.id = i := hid
      rw [hid'] at hd
      exact hd
    have hw : ∀ a, wake = .answer a → a ∈ s.view.answers i := fun a ha => mem_answers (ha ▸ hc)
    have hst : s.pairStage i = stage := hstage
    have hdoes : s.Does i wake took told flow := ⟨hc, ⟨name, hst ▸ hp⟩, w, hst ▸ hx, hexchange⟩
    have hc' : (s.commit i w).current = some (pairId i, wake) := (spares_commit s i w).current.trans hc
    rcases hf : flow.asks with _ | _
    · rw [hr.view_local hc' hf, hview]
      exact .deed hdoes.only hw (fun j message ht => mem_underway (ht ▸ hexchange)) hd hf
    · cases flow with
      | call stage' l e c =>
        obtain ⟨answer, v, hask, hv⟩ := hr.view_call hc'
        rw [hview] at hask
        rw [hv]
        exact .ask hdoes.only hw hd hask
      | finished e => exact nomatch e
      | _ => exact nomatch hf
  | @dispatch j name stage wake flow w _ hc hp hx hr =>
    have hview := view_commit_calm ((Dispatch.step_lavish _ _ _).of_exec hx) (hs.id j) hs.listeners
    have hc' : (s.commit j w).current = some (dispatchId j, wake) := (spares_commit s j w).current.trans hc
    have hf : (flow.map (Activity.dispatch j) fun e => nomatch e : Flow m (Activity n m) (Option Outcome)).asks = false := by
      have := dispatch_asks hx
      cases flow with
      | call stage l e c => exact nomatch this
      | _ => rfl
    rw [hr.view_other hc' (fun k => pairId_ne_dispatchId k j) hf, hview]
    refine .still (silent_of_current fun k wake' hcur => ?_)
    rw [hc] at hcur
    injection hcur with hcur
    injection hcur with hk
    exact pairId_ne_dispatchId k j hk.symm
  | @host j name stage wake flow w _ hc hp hx hr =>
    have hquiet : w.loud = [] := ((HostRun.step_solitary _ _ _).of_exec hx).quiet
    have hview : (w.effects.foldl applyEffect { s.setHost j w.part with quantum := w.quantum }).view = s.view := by
      have hset : ({ s.setHost j w.part with quantum := w.quantum } : Network n m).view = s.view :=
        view_congr rfl rfl rfl rfl
      rw [← Array.foldl_toList, view_effects _ _ (by rw [hset]; exact hs.listeners), hset]
      change w.loud.foldl _ _ = _
      rw [hquiet]
      rfl
    have hc' : (w.effects.foldl applyEffect { s.setHost j w.part with quantum := w.quantum }).current =
        some (hostId j, wake) :=
      (spares_effects { s.setHost j w.part with quantum := w.quantum } w.effects).current.trans hc
    have hf : (flow.map (Activity.host j) fun _ => none : Flow m (Activity n m) (Option Outcome)).asks = false := by
      have := host_asks hx
      cases flow with
      | call stage l e c => exact nomatch this
      | _ => rfl
    rw [hr.view_other hc' (fun k => pairId_ne_hostId k j) hf, hview]
    refine .still (silent_of_current fun k wake' hcur => ?_)
    rw [hc] at hcur
    injection hcur with hcur
    injection hcur with hk
    exact pairId_ne_hostId k j hk.symm

/-! Events. -/

private theorem view_drop (s s₁ : Network n m) (hn : s.nodes = s₁.nodes) (hl : s.links = s₁.links)
    (hp : s.processes = s₁.processes) {e : NetworkEvent n m} (he : e.isLoud = false) (ha : s.ahead = e :: s₁.ahead) :
    s.view = s₁.view := by
  have hnode : ∀ i, s.node i = s₁.node i := fun i => congrArg (fun v : Vector (Node n m) n => v.get i) hn
  refine view_eq (fun i => congrArg Node.id (hnode i)) (fun i => pairStage_congr hp i) (fun q => ?_) (fun x y => ?_)
    (fun x y => ?_) (fun l => ?_) fun i => congrArg (·.ports.links) (hnode i)
  · rw [ha, List.filterMap_cons_none (e.answerTo?_of_not he q)]
  · rw [ha, List.filterMap_cons_none (e.message?_of_not he x y)]
  · exact congrArg (fun node : Node n m => node.service.inbound.get x) (hnode y)
  · exact congrArg (fun v : Vector WiredLink m => v.get l) hl

private theorem view_notifyNews (s : Network n m) (i : Fin n) (hid : (s.node i).id = i) (hs : Open s.view) :
    (s.atNode i Node.notifyNews).2.view = s.view :=
  view_commit_calm (s := s) ((Node.notifyNews_still).calm (s.working i)) hid hs

private theorem view_fireLink (s : Network n m) (l : Fin m) (e : LinkEvent) :
    (s.fireLink l e).view = s.view.updateLink l ((s.link l).fire e s.quantum).1 := by
  unfold fireLink
  rw [view_updateLink, view_quantum]

/-- The next event. -/
theorem begin_steps {limit : Nat} {e : NetworkEvent n m} {a : Agenda (NetworkEvent n m)} (hs : s.view.Regular)
    (hc : s.current = none) (h : s.agenda.next limit = .event e a) :
    s.view.Steps s.Does ({ s with agenda := a }.begin e).2.view := by
  have ha := ahead_next hc h
  have hdrop : e.isLoud = false → ({ s with agenda := a } : Network n m).view = s.view := fun he =>
    (view_drop s { s with agenda := a } rfl rfl rfl he ha).symm
  cases e with
  | resume p wake =>
    have hview : (({ s with agenda := a } : Network n m).setCurrent (some (p, wake))).view = s.view := by
      rw [view_setCurrent (s := { s with agenda := a }) hc]
      exact (view_of_cons s { s with agenda := a } rfl rfl rfl ha).symm
    change s.view.Steps s.Does (({ s with agenda := a } : Network n m).setCurrent (some (p, wake))).view
    rw [hview]
    exact .still (silent_of_none hc)
  | deliver line text =>
    change s.view.Steps s.Does (({ s with agenda := a } : Network n m).deliver line text).view
    rw [view_deliver, hdrop rfl]
    exact .still (silent_of_none hc)
  | deliverPeer source target message =>
    have hview : (({ s with agenda := a } : Network n m).deliverPeer source target message).view = s.view := by
      rw [view_deliverPeer (s := { s with agenda := a }) source target message (hs.listeners source target),
        ← view_schedule_message _ 0]
      have hperm := ahead_schedule ({ s with agenda := a } : Network n m) 0 (.deliverPeer source target message)
      rw [← ha] at hperm
      refine view_eq (fun _ => rfl) (fun _ => rfl) (fun q => ?_) (fun x y => ?_) (fun _ _ => rfl) (fun _ => rfl)
        fun _ => rfl
      · exact Multiset.coe_eq_coe.2 (hperm.filterMap _)
      · exact Multiset.coe_eq_coe.2 (hperm.filterMap _)
    change s.view.Steps s.Does (({ s with agenda := a } : Network n m).deliverPeer source target message).view
    rw [hview]
    exact .still (silent_of_none hc)
  | news i =>
    change s.view.Steps s.Does (({ s with agenda := a } : Network n m).atNode i Node.notifyNews).2.view
    have hview := hdrop rfl
    rw [view_notifyNews { s with agenda := a } i (hs.id i) (by rw [hview]; exact hs.listeners), hview]
    exact .still (silent_of_none hc)
  | link l e =>
    change s.view.Steps s.Does (({ s with agenda := a } : Network n m).fireLink l e).view
    rw [view_fireLink, hdrop rfl]
    exact .fire (silent_of_none hc) l e s.quantum
  | alarm k =>
    change s.view.Steps s.Does ({ s with agenda := a } : Network n m).view
    rw [hdrop rfl]
    exact .still (silent_of_none hc)

private theorem view_start (hc : s.Crewed) : s.start.view = s.view := by
  let Same (s' : Network n m) : Prop := s'.nodes = s.nodes ∧ s'.links = s.links ∧
    (∀ p, ((s'.ahead.filterMap (·.answerTo? p) : List LinkAnswer) : Multiset LinkAnswer) =
      s.ahead.filterMap (·.answerTo? p)) ∧
    ∀ x y, ((s'.ahead.filterMap (·.message? x y) : List PeerMessage) : Multiset PeerMessage) =
      s.ahead.filterMap (·.message? x y)
  have hsame : Same s.start := by
    refine start_invariant (I := Same) (fun _ h => h) (fun s' name a _ ⟨hn, hl, ha, hm⟩ => ?_)
      ⟨rfl, rfl, fun _ => rfl, fun _ _ => rfl⟩
    have hperm : (s'.spawn name a).ahead.Perm (.resume s'.fresh .go :: s'.ahead) := ahead_schedule
      { s' with processes := s'.processes.insert s'.fresh ⟨name, a⟩, fresh := s'.fresh + 1 } 0 (.resume s'.fresh .go)
    refine ⟨hn, hl, fun p => ?_, fun x y => ?_⟩
    · rw [Multiset.coe_eq_coe.2 (hperm.filterMap _), List.filterMap_cons_none rfl]
      exact ha p
    · rw [Multiset.coe_eq_coe.2 (hperm.filterMap _), List.filterMap_cons_none rfl]
      exact hm x y
  obtain ⟨hn, hl, ha, hm⟩ := hsame
  have hnode : ∀ i, s.start.node i = s.node i := start_node s
  refine view_eq (fun i => by rw [hnode]) (start_pairStage hc) ha hm (fun x y => ?_) (fun l => ?_) fun i => by
    rw [hnode]
  · unfold inbound
    rw [hnode]
  · unfold wired
    rw [hl]

/-- A step of a network by itself. -/
theorem Moves.steps (h : s.Moves s') (hc : s.Crewed) (hs : s.view.Regular) : s.view.Steps s.Does s'.view := by
  cases h with
  | start hcur =>
    rw [view_start hc]
    exact .still (silent_of_none hcur)
  | proceed h => exact (advances_of_went hc h).steps hs
  | begin hcur h => exact begin_steps hs hcur h
  | @wait _ a hcur h =>
    have hview : ({ s with agenda := a } : Network n m).view = s.view := by
      refine view_congr rfl rfl rfl ?_
      unfold Agenda.next at h
      split at h
      · exact nomatch h
      · rename_i head rest hq
        split at h
        · cases h
          rfl
        · exact nomatch h
    rw [hview]
    exact .still (silent_of_none hcur)

/-! Clients. -/

/-- An application that is aborted gives up on the link that works for it. -/
theorem abort_ends {w : Working (Node n m) n m} (app : Int) : Ends (Pairing.abort app) w fun _ w' =>
    Mute w w' ∨ ∃ remote l e, w.part.ports.links.get? remote = some (l, e) ∧ w'.loud = w.loud ++ [.abortLink l e] ∧
      w'.part.id = w.part.id ∧ w'.part.ports.links = w.part.ports.links ∧
      w'.part.service.inbound = w.part.service.inbound := by
  have hrest : Within Mute (do Node.notifyMemoryFreed; Node.notifyArrayWritten : NodeWork n m Unit) :=
    Node.notifyMemoryFreed_still.calm.mute.bind fun _ => Node.notifyArrayWritten_still.calm.mute
  have hmute : ∀ w₁, Mute w w₁ → Ends (do Node.notifyMemoryFreed; Node.notifyArrayWritten : NodeWork n m Unit) w₁
      fun _ w' => Mute w w' := fun w₁ h₁ _ w' he => h₁.mute (hrest.of_exec he)
  refine (Node.log_mild _ _ _).calm.mute.next fun _ w₁ h₁ => (Pairing.setAborted_still app).calm.mute.next
    fun _ w₂ h₂ => Pairing.service_mild.calm.mute.next fun service w₃ h₃ => ?_
  have h₃ : Mute w w₃ := (h₁.mute h₂).mute h₃
  split
  · rename_i owner remote _
    split
    · refine .bind fun _ w₄ he => ?_
      simp only [Node.abortLink, exec_bind, exec_part] at he
      rcases hl : w₃.part.ports.links.get? remote with _ | ⟨l, e⟩
      · rw [hl] at he
        cases he
        exact (hmute w₃ h₃).mono fun _ _ h => .inl h
      · rw [hl] at he
        cases he
        intro _ w' he
        have hm := hrest.of_exec he
        have hloud := hm.loud
        rw [Option.map_none, Option.toList_none, List.append_nil] at hloud
        have hloud₃ := h₃.loud
        rw [Option.map_none, Option.toList_none, List.append_nil] at hloud₃
        refine .inr ⟨remote, l, e, h₃.links ▸ hl, ?_, hm.id.trans h₃.id, hm.links.trans h₃.links,
          hm.inbound.trans h₃.inbound⟩
        rw [hloud, ← hloud₃]
        exact loud_push_of rfl
    · exact (hmute w₃ h₃).mono fun _ _ h => .inl h
  · exact (hmute w₃ h₃).mono fun _ _ h => .inl h

private theorem work_mute {act : NodeAct} (ha : ∀ app, act ≠ .abort app) :
    Within Mute (act.work : NodeWork n m Unit) := by
  cases act with
  | register maxQubits => exact (Dispatch.initApp_clearing maxQubits).mute.bind fun _ => .pure _
  | declare app address values => exact (Node.updateMemory_filling app fun _ _ h => by
    cases h
    exact ⟨rfl, rfl⟩ : Within Calm _).mute
  | openSocket app socket remote => exact (Pairing.openSocket_mild _ _ _).calm.mute
  | submit r => exact (Node.submit_still r).calm.mute
  | abort app => exact absurd rfl (ha app)
  | stop app => exact (Dispatch.stopApp_wiping app).mute
  | clearOnStop clear =>
    exact (Dispatch.modifyDispatcher_steering fun d => { d with clearOnStop := clear }).calm.mute

/-- What a client does. -/
theorem act_steps {a : ClientAct n} (hc : s.current = none) (h : a.run s = (.ok (), s')) (hs : s.view.Regular) :
    s.view.Steps s.Does s'.view := by
  cases a with
  | atNode i act =>
    change s.atNode i act.work = _ at h
    rw [atNode_eq] at h
    obtain ⟨hok, rfl⟩ := Prod.mk.inj h
    have hx : (act.work : NodeWork n m Unit).exec (s.working i) = (.ok (), (act.work.exec (s.working i)).2) :=
      Prod.ext hok rfl
    have hmute : Mute (s.working i) (act.work.exec (s.working i)).2 →
        s.view.Steps s.Does (s.commit i (act.work.exec (s.working i)).2).view := fun hm => by
      rw [view_commit_exchange hm (hs.id i) hs.listeners]
      exact .still (silent_of_none hc)
    by_cases ha : ∃ app, act = .abort app
    · obtain ⟨app, rfl⟩ := ha
      rcases abort_ends app () _ hx with hm | ⟨remote, l, e, hl, hloud, hid, hlinks, hin⟩
      · exact hmute hm
      · have hnode := view_setNode s i hid hin hlinks
        rw [view_commit s i _ (by rw [hnode]; exact hs.listeners), hloud, loud_working, hnode]
        exact .abort (silent_of_none hc) hl
    · exact hmute ((work_mute fun app happ => ha ⟨app, happ⟩) _)
  | post i text =>
    cases h
    rw [view_send]
    exact .still (silent_of_none hc)
  | enqueue i p times =>
    cases h
    have hview : (s.enqueue i p times).view = s.view := view_congr rfl rfl rfl rfl
    rw [hview]
    exact .still (silent_of_none hc)
  | alarm delay k =>
    cases h
    rw [view_schedule _ _ rfl]
    exact .still (silent_of_none hc)

end Network

end QuantumNode
