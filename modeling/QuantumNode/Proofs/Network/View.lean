import Mathlib.Data.Multiset.AddSub
import QuantumNode.Proofs.Network.Build
import QuantumNode.Proofs.Simulation.Agenda

/-! What pair services see of a network: how far each has come, what they have told each other, and the links. Most
of what happens in a network leaves this view as it is. -/
namespace QuantumNode

variable {n m : Nat}

/-- What pair services see. A message is under way until it is taken, an answer until it has been looked at. -/
@[ext] structure View (n m : Nat) where
  id : Fin n → Fin n
  stage : Fin n → PairStage
  answers : Fin n → Multiset LinkAnswer
  underway : Fin n → Fin n → Multiset PeerMessage
  told : Fin n → Fin n → Nat
  listeners : Fin n → Fin n → List ProcessId
  wired : Fin m → WiredLink
  port : Fin n → Int → Option (Fin m × LinkEnd)

namespace View

def link (v : View n m) (l : Fin m) : Link := (v.wired l).link

def setStage (v : View n m) (i : Fin n) (stage : PairStage) : View n m :=
  { v with stage := fun j => if j = i then stage else v.stage j }

def setWired (v : View n m) (l : Fin m) (w : WiredLink) : View n m :=
  { v with wired := fun k => if k = l then w else v.wired k }

def setLink (v : View n m) (l : Fin m) (link : Link) : View n m := v.setWired l { v.wired l with link := link }

def tell (v : View n m) (source target : Fin n) (message : PeerMessage) : View n m :=
  { v with
    underway := fun x y => if x = source ∧ y = target then message ::ₘ v.underway x y else v.underway x y
    told := fun x y => if x = source ∧ y = target then v.told x y + 1 else v.told x y }

/-- A message is taken from a peer. -/
def take (v : View n m) (source target : Fin n) (message : PeerMessage) : View n m :=
  { v with
    underway := fun x y =>
      if x = source ∧ y = target then (v.underway x y).erase message else v.underway x y }

/-- A process is woken with an answer; only those of pair services count. -/
def wake (v : View n m) (p : ProcessId) (a : LinkAnswer) : View n m :=
  { v with answers := fun i => if pairId i = p then a ::ₘ v.answers i else v.answers i }

/-- An answer has been looked at. -/
def read (v : View n m) (i : Fin n) (a : LinkAnswer) : View n m :=
  { v with answers := fun j => if j = i then (v.answers j).erase a else v.answers j }

def answer (v : View n m) (l : Fin m) (e : LinkEnd) (a : LinkAnswer) : View n m :=
  let w := v.wired l
  match (w.answers e).countSent.arrive a with
  | (some p, c) => (v.setWired l (w.setAnswers e c)).wake p a
  | (none, c) => v.setWired l (w.setAnswers e c)

def applyLink (l : Fin m) (v : View n m) : LinkEffect → View n m
  | .answer e a => v.answer l e a
  | _ => v

def updateLink (v : View n m) (l : Fin m) (r : List LinkEffect × Link) : View n m :=
  r.1.foldl (applyLink l) (v.setLink l r.2)

def applyEffect (v : View n m) : Effect n m → View n m
  | .tell source target message => v.tell source target message
  | .abortLink l e => v.updateLink l ((v.link l).abort e)
  | .resume _ p (.answer a) => v.wake p a
  | _ => v

end View

/-! Events that have not happened yet. -/

def NetworkEvent.answerTo? (p : ProcessId) : NetworkEvent n m → Option LinkAnswer
  | .resume q (.answer a) => if p = q then some a else none
  | _ => none

def NetworkEvent.message? (x y : Fin n) : NetworkEvent n m → Option PeerMessage
  | .deliverPeer source target message => if x = source ∧ y = target then some message else none
  | _ => none

/-- Events that pair services see. -/
def NetworkEvent.isLoud : NetworkEvent n m → Bool
  | .resume _ (.answer _) | .deliverPeer .. => true
  | _ => false

theorem NetworkEvent.answerTo?_of_not {e : NetworkEvent n m} (h : e.isLoud = false) (p : ProcessId) :
    e.answerTo? p = none := by
  cases e with
  | resume q wake =>
    cases wake with
    | answer a => exact nomatch h
    | _ => rfl
  | _ => rfl

theorem NetworkEvent.message?_of_not {e : NetworkEvent n m} (h : e.isLoud = false) (x y : Fin n) :
    e.message? x y = none := by
  cases e with
  | deliverPeer source target message => exact nomatch h
  | _ => rfl

namespace Network

/-- What is still to happen, and the process that goes on first of all. -/
def ahead (s : Network n m) : List (NetworkEvent n m) :=
  (s.current.map fun c => NetworkEvent.resume c.1 c.2).toList ++ s.agenda.queue.map (·.event)

theorem Built.ahead {s : Network n m} (h : s.Built) : s.ahead = [] := by
  unfold Network.ahead
  rw [h.current, h.agenda]
  rfl

/-- The answers of links that a pair service is still to look at. -/
def answers (s : Network n m) (i : Fin n) : Multiset LinkAnswer := s.ahead.filterMap (·.answerTo? (pairId i))

/-- The messages from one pair service to another that have not been taken yet. -/
def underway (s : Network n m) (x y : Fin n) : Multiset PeerMessage :=
  (s.inbound x y).items + (s.ahead.filterMap (·.message? x y) : Multiset PeerMessage)

/-- How many messages a pair service has sent to another. -/
def told (s : Network n m) (x y : Fin n) : Nat := (s.inbound x y).sent

def view (s : Network n m) : View n m where
  id i := (s.node i).id
  stage := s.pairStage
  answers := s.answers
  underway := s.underway
  told := s.told
  listeners x y := (s.inbound x y).waiters
  wired := s.wired
  port i remote := (s.node i).ports.links.get? remote

/-- Nobody waits for a message of a peer: messages are fetched. -/
def Open (v : View n m) : Prop := ∀ x y, v.listeners x y = []

section

variable {s s' : Network n m}

/-- The view of two networks is the same where everything it shows is. -/
theorem view_eq (hid : ∀ i, (s'.node i).id = (s.node i).id) (hst : ∀ i, s'.pairStage i = s.pairStage i)
    (ha : ∀ p, ((s'.ahead.filterMap (·.answerTo? p) : List LinkAnswer) : Multiset LinkAnswer) =
      s.ahead.filterMap (·.answerTo? p))
    (hm : ∀ x y, ((s'.ahead.filterMap (·.message? x y) : List PeerMessage) : Multiset PeerMessage) =
      s.ahead.filterMap (·.message? x y))
    (hin : ∀ x y, s'.inbound x y = s.inbound x y) (hw : ∀ l, s'.wired l = s.wired l)
    (hp : ∀ i, (s'.node i).ports.links = (s.node i).ports.links) : s'.view = s.view := by
  ext1
  · exact funext hid
  · exact funext hst
  · exact funext fun i => ha _
  · exact funext fun x => funext fun y => by
      change s'.underway x y = s.underway x y
      rw [underway, underway, hin, hm]
  · exact funext fun x => funext fun y => by
      change s'.told x y = s.told x y
      rw [told, told, hin]
  · exact funext fun x => funext fun y => by
      change (s'.inbound x y).waiters = (s.inbound x y).waiters
      rw [hin]
  · exact funext hw
  · exact funext fun i => funext fun r => by
      change (s'.node i).ports.links.get? r = (s.node i).ports.links.get? r
      rw [hp]

/-- States that differ in nothing that pair services see, and have the same ahead of them. -/
theorem view_congr (hn : s'.nodes = s.nodes) (hl : s'.links = s.links) (hp : s'.processes = s.processes)
    (ha : s'.ahead = s.ahead) : s'.view = s.view := by
  have hnode : ∀ i, s'.node i = s.node i := fun i => by
    unfold node
    rw [hn]
  refine view_eq (fun i => by rw [hnode]) (fun i => pairStage_congr hp i) (fun p => by rw [ha])
    (fun x y => by rw [ha]) (fun x y => ?_) (fun l => ?_) fun i => by rw [hnode]
  · unfold inbound
    rw [hnode]
  · unfold wired
    rw [hl]

/-- The next event is no longer ahead. -/
theorem ahead_next {limit : Nat} {e : NetworkEvent n m} {a : Agenda (NetworkEvent n m)}
    (hc : s.current = none) (h : s.agenda.next limit = .event e a) :
    s.ahead = e :: ({ s with agenda := a } : Network n m).ahead := by
  unfold Agenda.next at h
  split at h
  · exact nomatch h
  · rename_i head rest hq
    split at h
    · exact nomatch h
    · cases h
      unfold ahead
      rw [hc, hq]
      rfl

theorem ahead_schedule (s : Network n m) (delay : Nat) (e : NetworkEvent n m) :
    (s.schedule delay e).ahead.Perm (e :: s.ahead) := by
  have hq : ((s.schedule delay e).agenda.queue.map (·.event)).Perm (e :: s.agenda.queue.map (·.event)) :=
    (Agenda.enqueue_perm _ _).map _
  exact (hq.append_left _).trans List.perm_middle

theorem view_schedule (s : Network n m) (delay : Nat) {e : NetworkEvent n m} (h : e.isLoud = false) :
    (s.schedule delay e).view = s.view := by
  refine view_eq (fun _ => rfl) (fun _ => rfl) (fun p => ?_) (fun x y => ?_) (fun _ _ => rfl) (fun _ => rfl) fun _ => rfl
  · refine Multiset.coe_eq_coe.2 (((ahead_schedule s delay e).filterMap _).trans ?_)
    rw [List.filterMap_cons_none (e.answerTo?_of_not h p)]
  · refine Multiset.coe_eq_coe.2 (((ahead_schedule s delay e).filterMap _).trans ?_)
    rw [List.filterMap_cons_none (e.message?_of_not h x y)]

theorem view_resume_answer (s : Network n m) (delay : Nat) (p : ProcessId) (a : LinkAnswer) :
    (s.schedule delay (.resume p (.answer a))).view = s.view.wake p a := by
  have hperm := ahead_schedule s delay (.resume p (.answer a))
  ext1
  · rfl
  · rfl
  · funext i
    change (s.schedule delay (.resume p (.answer a))).answers i =
      if pairId i = p then a ::ₘ s.answers i else s.answers i
    rw [answers, Multiset.coe_eq_coe.2 (hperm.filterMap _)]
    split
    · rename_i hp
      have ha : (NetworkEvent.resume p (.answer a) : NetworkEvent n m).answerTo? (pairId i) = some a := if_pos hp
      rw [List.filterMap_cons_some ha]
      rfl
    · rename_i hp
      have ha : (NetworkEvent.resume p (.answer a) : NetworkEvent n m).answerTo? (pairId i) = none := if_neg hp
      rw [List.filterMap_cons_none ha]
      rfl
  · funext x y
    change (s.schedule delay (.resume p (.answer a))).underway x y = s.underway x y
    rw [underway, Multiset.coe_eq_coe.2 (hperm.filterMap _), List.filterMap_cons_none rfl]
    rfl
  · rfl
  · rfl
  · rfl
  · rfl

theorem view_quantum (s : Network n m) (q : QuantumState) : ({ s with quantum := q } : Network n m).view = s.view :=
  view_congr rfl rfl rfl rfl

theorem view_write (s : Network n m) (level : LogLevel) (name text : String) :
    (s.write level name text).view = s.view :=
  view_congr rfl rfl rfl rfl

/-- A node whose exchange with others is the same. -/
theorem view_setNode (s : Network n m) (i : Fin n) {x : Node n m} (hid : x.id = (s.node i).id)
    (hin : x.service.inbound = (s.node i).service.inbound) (hp : x.ports.links = (s.node i).ports.links) :
    (s.setNode i x).view = s.view := by
  have hnode := node_setNode s i (x := x)
  refine view_eq (fun j => ?_) (fun _ => rfl) (fun _ => rfl) (fun _ _ => rfl) (fun a b => ?_) (fun _ => rfl) fun j => ?_
  · rw [hnode]
    split
    · rename_i hj
      rw [hj, hid]
    · rfl
  · unfold inbound
    rw [hnode]
    split
    · rename_i hb
      rw [hb, hin]
    · rfl
  · rw [hnode]
    split
    · rename_i hj
      rw [hj, hp]
    · rfl

theorem view_setChannel (s : Network n m) (line : Line n) (c : Channel String ProcessId) :
    (s.setChannel line c).view = s.view := by
  cases line with
  | toNode i => exact view_setNode s i rfl rfl rfl
  | toHost i => exact view_congr rfl rfl rfl rfl
  | between a b => exact view_congr rfl rfl rfl rfl

theorem view_deliver (s : Network n m) (line : Line n) (text : String) : (s.deliver line text).view = s.view := by
  unfold deliver
  split
  · exact (view_schedule _ 0 rfl).trans (view_setChannel _ _ _)
  · exact view_setChannel _ _ _

theorem view_send (s : Network n m) (line : Line n) (text : String) : (s.send line text).view = s.view := by
  unfold send
  dsimp only
  split
  · exact (view_deliver _ _ _).trans (view_setChannel _ _ _)
  · exact (view_schedule _ _ rfl).trans (view_setChannel _ _ _)

/-! Messages. -/

theorem inbound_setInbound (s : Network n m) (source target : Fin n) (c : Channel PeerMessage ProcessId) (x y : Fin n) :
    (s.setInbound source target c).inbound x y = if x = source ∧ y = target then c else s.inbound x y := by
  unfold inbound setInbound
  dsimp only
  rw [node_setNode]
  by_cases hy : y = target
  · subst hy
    rw [if_pos rfl]
    change (((s.node y).service.inbound).set source c source.isLt).get x = _
    rw [vector_get_set]
    simp
  · rw [if_neg hy, if_neg fun h => hy h.2]

theorem node_setInbound (s : Network n m) (source target : Fin n) (c : Channel PeerMessage ProcessId) (i : Fin n) :
    ((s.setInbound source target c).node i).id = (s.node i).id ∧
      ((s.setInbound source target c).node i).ports = (s.node i).ports := by
  unfold setInbound
  dsimp only
  rw [node_setNode]
  split
  · rename_i hi
    rw [hi]
    exact ⟨rfl, rfl⟩
  · exact ⟨rfl, rfl⟩

theorem arrive_of_free {τ π : Type} {c : Channel τ π} (h : c.waiters = []) (v : τ) :
    c.arrive v = (none, { c with items := c.items ++ [v] }) := by
  obtain ⟨latency, items, waiters, sent⟩ := c
  obtain rfl : waiters = [] := h
  rfl

/-- A message that arrives is under way, if it was not before. -/
theorem view_deliverPeer (s : Network n m) (source target : Fin n) (message : PeerMessage)
    (hw : (s.inbound source target).waiters = []) :
    (s.deliverPeer source target message).view =
      { s.view with
        underway := fun x y =>
          if x = source ∧ y = target then message ::ₘ s.underway x y else s.underway x y } := by
  have hin := inbound_setInbound s source target ((s.inbound source target).arrive message).2
  rw [arrive_of_free hw] at hin
  have hs : s.deliverPeer source target message = s.setInbound source target
      { s.inbound source target with items := (s.inbound source target).items ++ [message] } := by
    rw [deliverPeer, arrive_of_free hw]
  rw [hs]
  ext1
  · exact funext fun i => (node_setInbound s source target _ i).1
  · rfl
  · rfl
  · funext x y
    change underway _ x y = if x = source ∧ y = target then message ::ₘ s.underway x y else s.underway x y
    rw [underway, hin]
    split
    · rename_i h
      obtain ⟨rfl, rfl⟩ := h
      have hperm : (((s.inbound x y).items ++ [message] : List PeerMessage) : Multiset PeerMessage) =
          message ::ₘ ((s.inbound x y).items : Multiset PeerMessage) :=
        Multiset.coe_eq_coe.2 (List.perm_append_singleton _ _)
      rw [underway, ← Multiset.cons_add, ← hperm]
      rfl
    · rfl
  · funext x y
    change told _ x y = s.told x y
    rw [told, hin]
    split
    · rename_i h
      obtain ⟨rfl, rfl⟩ := h
      rfl
    · rfl
  · funext x y
    change (inbound _ x y).waiters = (s.inbound x y).waiters
    rw [hin]
    split
    · rename_i h
      obtain ⟨rfl, rfl⟩ := h
      rfl
    · rfl
  · rfl
  · exact funext fun i => funext fun r => by
      change ((s.setInbound source target _).node i).ports.links.get? r = _
      rw [(node_setInbound s source target _ i).2]
      rfl

/-- A message that is scheduled to arrive is under way. -/
theorem view_schedule_message (s : Network n m) (delay : Nat) (source target : Fin n) (message : PeerMessage) :
    (s.schedule delay (.deliverPeer source target message)).view =
      { s.view with
        underway := fun x y =>
          if x = source ∧ y = target then message ::ₘ s.underway x y else s.underway x y } := by
  have hperm := ahead_schedule s delay (.deliverPeer source target message)
  ext1
  · rfl
  · rfl
  · funext i
    change (s.schedule delay (.deliverPeer source target message)).answers i = s.answers i
    rw [answers, Multiset.coe_eq_coe.2 (hperm.filterMap _), List.filterMap_cons_none rfl]
    rfl
  · funext x y
    change (s.schedule delay (.deliverPeer source target message)).underway x y =
      if x = source ∧ y = target then message ::ₘ s.underway x y else s.underway x y
    rw [underway, Multiset.coe_eq_coe.2 (hperm.filterMap _)]
    split
    · rename_i h
      have hm : (NetworkEvent.deliverPeer source target message : NetworkEvent n m).message? x y = some message :=
        if_pos h
      rw [List.filterMap_cons_some hm, ← Multiset.cons_coe, Multiset.add_cons]
      rfl
    · rename_i h
      have hm : (NetworkEvent.deliverPeer source target message : NetworkEvent n m).message? x y = none := if_neg h
      rw [List.filterMap_cons_none hm]
      rfl
  · rfl
  · rfl
  · rfl
  · rfl

theorem view_countSent (s : Network n m) (source target : Fin n) :
    (s.setInbound source target (s.inbound source target).countSent).view =
      { s.view with told := fun x y => if x = source ∧ y = target then s.told x y + 1 else s.told x y } := by
  have hin := inbound_setInbound s source target (s.inbound source target).countSent
  ext1
  · exact funext fun i => (node_setInbound s source target _ i).1
  · rfl
  · rfl
  · funext x y
    change underway _ x y = s.underway x y
    rw [underway, hin]
    split
    · rename_i h
      obtain ⟨rfl, rfl⟩ := h
      rfl
    · rfl
  · funext x y
    change told _ x y = if x = source ∧ y = target then s.told x y + 1 else s.told x y
    rw [told, hin]
    split
    · rename_i h
      obtain ⟨rfl, rfl⟩ := h
      rfl
    · rfl
  · funext x y
    change (inbound _ x y).waiters = (s.inbound x y).waiters
    rw [hin]
    split
    · rename_i h
      obtain ⟨rfl, rfl⟩ := h
      rfl
    · rfl
  · rfl
  · exact funext fun i => funext fun r => by
      change ((s.setInbound source target _).node i).ports.links.get? r = _
      rw [(node_setInbound s source target _ i).2]
      rfl

theorem view_tell (s : Network n m) (source target : Fin n) (message : PeerMessage) (hs : Open s.view) :
    (s.tell source target message).view = s.view.tell source target message := by
  have hcount := view_countSent s source target
  have hwaiters : ((s.setInbound source target (s.inbound source target).countSent).inbound source target).waiters =
      [] := by
    rw [inbound_setInbound, if_pos ⟨rfl, rfl⟩]
    exact hs source target
  have hunderway : (s.setInbound source target (s.inbound source target).countSent).underway = s.underway :=
    congrArg View.underway hcount
  unfold tell
  dsimp only
  rw [view_schedule _ _ rfl]
  split
  · rw [view_deliverPeer _ _ _ _ hwaiters, hunderway, hcount]
    rfl
  · rw [view_schedule_message, hunderway, hcount]
    rfl

/-! Links. -/

theorem wired_setWired (s : Network n m) (l : Fin m) (w : WiredLink) (k : Fin m) :
    (s.setWired l w).wired k = if k = l then w else s.wired k :=
  vector_get_set s.links l k w

theorem view_setWired (s : Network n m) (l : Fin m) (w : WiredLink) :
    (s.setWired l w).view = s.view.setWired l w := by
  ext1
  · rfl
  · rfl
  · rfl
  · rfl
  · rfl
  · rfl
  · exact funext fun k => wired_setWired s l w k
  · rfl

theorem view_setLink (s : Network n m) (l : Fin m) (link : Link) : (s.setLink l link).view = s.view.setLink l link :=
  view_setWired s l _

theorem view_answer (s : Network n m) (l : Fin m) (e : LinkEnd) (a : LinkAnswer) :
    (s.answer l e a).view = s.view.answer l e a := by
  have hw : s.view.wired l = s.wired l := rfl
  unfold answer View.answer
  dsimp only
  rw [hw]
  rcases ((s.wired l).answers e).countSent.arrive a with ⟨_ | p, c⟩
  · exact view_setWired _ _ _
  · exact (view_resume_answer _ 0 p a).trans (by rw [view_setWired])

theorem view_updateLink (s : Network n m) (l : Fin m) (r : List LinkEffect × Link) :
    (s.updateLink l r).view = s.view.updateLink l r := by
  have hfold : ∀ (es : List LinkEffect) (s : Network n m), (es.foldl (applyLink l) s).view =
      es.foldl (View.applyLink l) s.view := by
    intro es
    induction es with
    | nil => exact fun _ => rfl
    | cons e es ih =>
      intro s
      have he : (applyLink l s e).view = View.applyLink l s.view e := by
        cases e with
        | answer e a => exact view_answer s l e a
        | schedule delay e => exact view_schedule s delay rfl
        | log level text => exact view_write s level _ text
      rw [List.foldl_cons, ih, he]
      rfl
  exact (hfold _ _).trans (by rw [view_setLink]; rfl)

/-- What an effect does to a view. -/
theorem view_applyEffect (s : Network n m) (e : Effect n m) (hs : Open s.view) :
    (s.applyEffect e).view = s.view.applyEffect e := by
  cases e with
  | log level name text => exact view_write s level name text
  | resume delay p wake =>
    cases wake with
    | answer a => exact view_resume_answer s delay p a
    | _ => exact view_schedule s delay rfl
  | send line text => exact view_send s line text
  | tell source target message => exact view_tell s source target message hs
  | abortLink l e => exact view_updateLink s l _
  | observed remote request => exact view_congr rfl rfl rfl rfl

end

end Network

theorem View.listeners_applyEffect (v : View n m) (e : Effect n m) : (v.applyEffect e).listeners = v.listeners := by
  have hlink : ∀ l (es : List LinkEffect) (v : View n m), (es.foldl (applyLink l) v).listeners = v.listeners := by
    intro l es
    induction es with
    | nil => exact fun _ => rfl
    | cons e es ih =>
      intro v
      rw [List.foldl_cons, ih]
      cases e with
      | answer e a =>
        change (v.answer l e a).listeners = _
        unfold answer
        dsimp only
        split
        · rfl
        · rfl
      | _ => rfl
  cases e with
  | abortLink l e => exact hlink l _ _
  | resume delay p wake =>
    cases wake with
    | _ => rfl
  | _ => rfl

namespace Network

/-- Only what is loud changes a view. -/
theorem view_effects (s : Network n m) (es : List (Effect n m)) (hs : Open s.view) :
    (es.foldl applyEffect s).view = (es.filter Effect.isLoud).foldl View.applyEffect s.view := by
  induction es generalizing s with
  | nil => rfl
  | cons e es ih =>
    have he := view_applyEffect s e hs
    have hs' : Open (s.applyEffect e).view := by
      rw [he, Open, View.listeners_applyEffect]
      exact hs
    rw [List.foldl_cons, ih _ hs', he, List.filter_cons]
    split
    · rfl
    · rename_i hl
      congr 1
      cases e with
      | tell source target message => exact absurd rfl hl
      | abortLink l e => exact absurd rfl hl
      | resume delay p wake =>
        cases wake with
        | answer a => exact absurd rfl hl
        | _ => rfl
      | _ => rfl

end Network

end QuantumNode
