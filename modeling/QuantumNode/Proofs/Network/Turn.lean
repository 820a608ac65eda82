import QuantumNode.Proofs.Network.View
import QuantumNode.Proofs.Node.Starvation

/-! The turns of the processes of a network. A process has a turn ahead of it for each time that it is to be resumed, and
one to come for each time that it stands in a line: of a signal, of a text channel, or of a link's answers. What is sent
through a network makes processes that stand in a line go on, changes nobody's number of turns, and hands nobody a
request. -/
namespace QuantumNode

open Work Working

variable {n m : Nat}

/-- The process that an event resumes. -/
def NetworkEvent.resumed? : NetworkEvent n m → Option ProcessId
  | .resume p _ => some p
  | _ => none

/-- The request that an event hands to a process. -/
def NetworkEvent.requestTo? (q : ProcessId) : NetworkEvent n m → Option EntanglementRequest
  | .resume p (.request r) => if p = q then some r else none
  | _ => none

theorem NetworkEvent.requestTo?_of_ne {e : NetworkEvent n m} {q : ProcessId} (h : e.resumed? ≠ some q) :
    e.requestTo? q = none := by
  cases e with
  | resume p wake =>
    cases wake with
    | request r => exact if_neg fun hp => h (congrArg some hp)
    | _ => rfl
  | _ => rfl

/-- How often a process waits for an answer of a link. -/
def WiredLink.lines (w : WiredLink) (q : ProcessId) : Nat := w.left.waiters.count q + w.right.waiters.count q

/-- A sum over the places of a vector, one of which is written to. -/
theorem sum_get_set {α : Type} {k : Nat} (v : Vector α k) (i : Fin k) (x : α) (f : α → Nat) :
    (∑ j, f ((v.set i x i.isLt).get j)) + f (v.get i) = (∑ j, f (v.get j)) + f x := by
  have hrest : ∑ j ∈ Finset.univ.erase i, f ((v.set i x i.isLt).get j) = ∑ j ∈ Finset.univ.erase i, f (v.get j) :=
    Finset.sum_congr rfl fun j hj => by rw [vector_get_set, if_neg (Finset.ne_of_mem_erase hj)]
  have hleft := Finset.add_sum_erase Finset.univ (fun j => f ((v.set i x i.isLt).get j)) (Finset.mem_univ i)
  have hright := Finset.add_sum_erase Finset.univ (fun j => f (v.get j)) (Finset.mem_univ i)
  rw [vector_get_set, if_pos rfl] at hleft
  omega

namespace Network

/-- How often a process is to be resumed. -/
def due (s : Network n m) (q : ProcessId) : Nat := (s.ahead.filterMap NetworkEvent.resumed?).count q

/-- How often a process stands in a line. -/
def waits (s : Network n m) (q : ProcessId) : Nat :=
  (∑ i, (s.node i).lines q) + (∑ i, (s.host i).lines q) + ∑ l, (s.wired l).lines q

def turns (s : Network n m) (q : ProcessId) : Nat := s.due q + s.waits q

/-- The requests that a process is to be handed. -/
def handed (s : Network n m) (q : ProcessId) : Multiset EntanglementRequest := s.ahead.filterMap (·.requestTo? q)

/-- Processes have been resumed, some of them for the first time; nobody else has been handed a request. -/
structure Passes (resumed : ProcessId → Nat) (s s' : Network n m) : Prop where
  due : ∀ q, s.due q + resumed q ≤ s'.due q
  turns : ∀ q, s'.turns q = s.turns q + resumed q
  handed : ∀ q, resumed q = 0 → s'.handed q = s.handed q

namespace Passes

variable {s s₁ s' : Network n m} {f g : ProcessId → Nat}

theorem trans (h : Passes f s s₁) (h' : Passes g s₁ s') : Passes (fun q => f q + g q) s s' where
  due q := by
    have := h.due q
    have := h'.due q
    omega
  turns q := by rw [h'.turns, h.turns, Nat.add_assoc]
  handed q hq := (h'.handed q (Nat.add_eq_zero_iff.1 hq).2).trans (h.handed q (Nat.add_eq_zero_iff.1 hq).1)

theorem refl (s : Network n m) : Passes (fun _ => 0) s s := ⟨fun _ => Nat.le_refl _, fun _ => rfl, fun _ _ => rfl⟩

/-- Nobody is resumed before. -/
theorem after (h : Passes (fun _ => 0) s s₁) (h' : Passes g s₁ s') : Passes g s s' := by
  simpa using h.trans h'

end Passes

variable {s s' : Network n m}

theorem due_schedule (s : Network n m) (delay : Nat) (e : NetworkEvent n m) (q : ProcessId) :
    (s.schedule delay e).due q = s.due q + if e.resumed? = some q then 1 else 0 := by
  have hperm := (ahead_schedule s delay e).filterMap NetworkEvent.resumed?
  rw [due, hperm.count_eq, List.filterMap_cons, due]
  cases h : e.resumed? with
  | none => simp
  | some p => simp [List.count_cons]

theorem handed_schedule (s : Network n m) (delay : Nat) (e : NetworkEvent n m) (q : ProcessId) :
    (s.schedule delay e).handed q = s.handed q + (e.requestTo? q).toList := by
  have hperm := (ahead_schedule s delay e).filterMap (·.requestTo? q)
  rw [handed, Multiset.coe_eq_coe.2 hperm, List.filterMap_cons, handed]
  cases e.requestTo? q with
  | none => simp
  | some r => exact Multiset.coe_eq_coe.2 (List.perm_append_singleton r _).symm

theorem waits_setNode (s : Network n m) (i : Fin n) (x : Node n m) (q : ProcessId) :
    (s.setNode i x).waits q + (s.node i).lines q = s.waits q + x.lines q := by
  have h := sum_get_set s.nodes i x (Node.lines · q)
  change (∑ j, ((s.setNode i x).node j).lines q) + (s.node i).lines q = (∑ j, (s.node j).lines q) + x.lines q at h
  change (∑ j, ((s.setNode i x).node j).lines q) + (∑ j, (s.host j).lines q) + (∑ l, (s.wired l).lines q) + _ = _
  rw [waits]
  omega

theorem waits_setHost (s : Network n m) (i : Fin n) (x : Host n) (q : ProcessId) :
    (s.setHost i x).waits q + (s.host i).lines q = s.waits q + x.lines q := by
  have h := sum_get_set s.hosts i x (Host.lines · q)
  change (∑ j, ((s.setHost i x).host j).lines q) + (s.host i).lines q = (∑ j, (s.host j).lines q) + x.lines q at h
  change (∑ j, (s.node j).lines q) + (∑ j, ((s.setHost i x).host j).lines q) + (∑ l, (s.wired l).lines q) + _ = _
  rw [waits]
  omega

theorem waits_setWired (s : Network n m) (l : Fin m) (x : WiredLink) (q : ProcessId) :
    (s.setWired l x).waits q + (s.wired l).lines q = s.waits q + x.lines q := by
  have h := sum_get_set s.links l x (WiredLink.lines · q)
  change (∑ k, ((s.setWired l x).wired k).lines q) + (s.wired l).lines q = (∑ k, (s.wired k).lines q) + x.lines q at h
  change (∑ j, (s.node j).lines q) + (∑ j, (s.host j).lines q) + (∑ k, ((s.setWired l x).wired k).lines q) + _ = _
  rw [waits]
  omega

/-- What changes no line and schedules no resumption. -/
theorem passes_of_same (hd : ∀ q, s'.due q = s.due q) (hh : ∀ q, s'.handed q = s.handed q)
    (hw : ∀ q, s'.waits q = s.waits q) : Passes (fun _ => 0) s s' :=
  ⟨fun q => Nat.le_of_eq (hd q).symm, fun q => by rw [turns, hd, hw, turns, Nat.add_zero], fun q _ => hh q⟩

/-- Whoever leaves a line is resumed. -/
theorem passes_of_moved {k : ProcessId → Nat} (hd : ∀ q, s'.due q = s.due q + k q) (hh : ∀ q, s'.handed q = s.handed q)
    (hw : ∀ q, s'.waits q + k q = s.waits q) : Passes (fun _ => 0) s s' :=
  ⟨fun q => by rw [hd]; omega, fun q => by
    have := hw q
    rw [turns, hd, turns]
    omega, fun q _ => hh q⟩

theorem passes_schedule (s : Network n m) (delay : Nat) (e : NetworkEvent n m) :
    Passes (fun q => if e.resumed? = some q then 1 else 0) s (s.schedule delay e) :=
  ⟨fun q => Nat.le_of_eq (due_schedule s delay e q).symm, fun q => by
    change (s.schedule delay e).due q + s.waits q = s.due q + s.waits q + _
    rw [due_schedule]
    omega, fun q hq => by
    rw [handed_schedule, NetworkEvent.requestTo?_of_ne fun h => by rw [if_pos h] at hq; exact nomatch hq]
    simp⟩

theorem passes_schedule_of_none (s : Network n m) (delay : Nat) {e : NetworkEvent n m} (h : e.resumed? = none) :
    Passes (fun _ => 0) s (s.schedule delay e) := by
  simpa [h] using passes_schedule s delay e

/-! Texts. -/

theorem waits_setChannel (s : Network n m) (line : Line n) (c : Channel String ProcessId) (q : ProcessId) :
    (s.setChannel line c).waits q + (s.channel line).waiters.count q = s.waits q + c.waiters.count q := by
  cases line with
  | toNode i =>
    have h : (s.setChannel (.toNode i) c).waits q + _ = _ := waits_setNode s i { s.node i with inbox := c } q
    have hc : s.channel (.toNode i) = (s.node i).inbox := rfl
    simp only [Node.lines] at h
    rw [hc]
    omega
  | toHost i =>
    have h : (s.setChannel (.toHost i) c).waits q + _ = _ := waits_setHost s i { s.host i with fromNode := c } q
    have hc : s.channel (.toHost i) = (s.host i).fromNode := rfl
    simp only [Host.lines] at h
    rw [hc]
    omega
  | between source target =>
    let peers := (s.host target).fromPeers.set source c source.isLt
    have h : (s.setChannel (.between source target) c).waits q + _ = _ :=
      waits_setHost s target { s.host target with fromPeers := peers } q
    have hc : s.channel (.between source target) = (s.host target).fromPeers.get source := rfl
    have hsum : (∑ x, (peers.get x).waiters.count q) + ((s.host target).fromPeers.get source).waiters.count q =
        (∑ x, ((s.host target).fromPeers.get x).waiters.count q) + c.waiters.count q :=
      sum_get_set (s.host target).fromPeers source c fun c => c.waiters.count q
    simp only [Host.lines] at h
    rw [hc]
    omega

theorem due_setChannel (s : Network n m) (line : Line n) (c : Channel String ProcessId) (q : ProcessId) :
    (s.setChannel line c).due q = s.due q := by
  cases line with
  | _ => rfl

theorem handed_setChannel (s : Network n m) (line : Line n) (c : Channel String ProcessId) (q : ProcessId) :
    (s.setChannel line c).handed q = s.handed q := by
  cases line with
  | _ => rfl

/-- A channel at which as many wait as before. -/
theorem passes_setChannel (s : Network n m) (line : Line n) {c : Channel String ProcessId}
    (h : c.waiters = (s.channel line).waiters) : Passes (fun _ => 0) s (s.setChannel line c) := by
  refine passes_of_same (due_setChannel s line c) (handed_setChannel s line c) fun q => ?_
  have := waits_setChannel s line c q
  rw [h] at this
  omega

/-- A channel at which somebody waits passes what arrives on to the first. -/
theorem passes_deliver (s : Network n m) (line : Line n) (text : String) :
    Passes (fun _ => 0) s (s.deliver line text) := by
  unfold deliver Channel.arrive
  rcases hw : (s.channel line).waiters with _ | ⟨p, ps⟩
  · exact passes_setChannel s line hw.symm
  · refine passes_of_moved (k := fun q => if p = q then 1 else 0) (fun q => ?_) (fun q => ?_) fun q => ?_
    · change ((s.setChannel line _).schedule 0 (.resume p (.text text))).due q = _
      rw [due_schedule, due_setChannel]
      simp [NetworkEvent.resumed?]
    · change ((s.setChannel line _).schedule 0 (.resume p (.text text))).handed q = _
      rw [handed_schedule, handed_setChannel]
      exact Multiset.add_zero _
    · have := waits_setChannel s line { s.channel line with waiters := ps } q
      rw [hw, List.count_cons] at this
      change (s.setChannel line { s.channel line with waiters := ps }).waits q + _ = _
      simp only [beq_iff_eq] at this
      dsimp only at this ⊢
      omega

theorem passes_send (s : Network n m) (line : Line n) (text : String) : Passes (fun _ => 0) s (s.send line text) := by
  have hc := passes_setChannel s line (c := (s.channel line).countSent) rfl
  unfold send
  dsimp only
  split
  · exact hc.after (passes_deliver _ _ _)
  · exact hc.after (passes_schedule_of_none _ _ rfl)

/-! Messages of pair services. -/

theorem passes_setNode (s : Network n m) (i : Fin n) {x : Node n m} (h : ∀ q, x.lines q = (s.node i).lines q) :
    Passes (fun _ => 0) s (s.setNode i x) := by
  refine passes_of_same (fun _ => rfl) (fun _ => rfl) fun q => ?_
  have := waits_setNode s i x q
  rw [h] at this
  omega

theorem passes_setInbound (s : Network n m) (source target : Fin n) (c : Channel PeerMessage ProcessId) :
    Passes (fun _ => 0) s (s.setInbound source target c) :=
  passes_setNode s target fun _ => rfl

theorem passes_tell (s : Network n m) (source target : Fin n) (message : PeerMessage) :
    Passes (fun _ => 0) s (s.tell source target message) := by
  have hc := passes_setInbound s source target (s.inbound source target).countSent
  unfold tell
  dsimp only
  split
  · exact (hc.after (passes_setInbound _ _ _ _)).after (passes_schedule_of_none _ _ rfl)
  · exact (hc.after (passes_schedule_of_none _ _ rfl)).after (passes_schedule_of_none _ _ rfl)

/-! Links. -/

theorem passes_setWired (s : Network n m) (l : Fin m) {x : WiredLink} (h : ∀ q, x.lines q = (s.wired l).lines q) :
    Passes (fun _ => 0) s (s.setWired l x) := by
  refine passes_of_same (fun _ => rfl) (fun _ => rfl) fun q => ?_
  have := waits_setWired s l x q
  rw [h] at this
  omega

theorem lines_setAnswers (w : WiredLink) (e : LinkEnd) (c : Channel LinkAnswer ProcessId) (q : ProcessId) :
    (w.setAnswers e c).lines q + (w.answers e).waiters.count q = w.lines q + c.waiters.count q := by
  cases e with
  | left =>
    simp only [WiredLink.lines, WiredLink.setAnswers, WiredLink.answers]
    omega
  | right =>
    simp only [WiredLink.lines, WiredLink.setAnswers, WiredLink.answers]
    omega

theorem waits_setAnswers (s : Network n m) (l : Fin m) (e : LinkEnd) (c : Channel LinkAnswer ProcessId) (q : ProcessId) :
    (s.setWired l ((s.wired l).setAnswers e c)).waits q + ((s.wired l).answers e).waiters.count q =
      s.waits q + c.waiters.count q := by
  have := waits_setWired s l ((s.wired l).setAnswers e c) q
  have := lines_setAnswers (s.wired l) e c q
  omega

theorem passes_answer (s : Network n m) (l : Fin m) (e : LinkEnd) (a : LinkAnswer) :
    Passes (fun _ => 0) s (s.answer l e a) := by
  rcases hw : ((s.wired l).answers e).waiters with _ | ⟨p, ps⟩
  · let c : Channel LinkAnswer ProcessId :=
      { ((s.wired l).answers e).countSent with items := ((s.wired l).answers e).items ++ [a] }
    have ha : s.answer l e a = s.setWired l ((s.wired l).setAnswers e c) := by
      simp only [answer, Channel.countSent, Channel.arrive, hw, c]
    rw [ha]
    refine passes_of_same (fun _ => rfl) (fun _ => rfl) fun q => ?_
    have := waits_setAnswers s l e c q
    simp only [c, Channel.countSent, hw] at this ⊢
    omega
  · let c : Channel LinkAnswer ProcessId := { ((s.wired l).answers e).countSent with waiters := ps }
    have ha : s.answer l e a = (s.setWired l ((s.wired l).setAnswers e c)).resume p (.answer a) := by
      simp only [answer, Channel.countSent, Channel.arrive, hw, c]
    rw [ha]
    refine passes_of_moved (k := fun q => if p = q then 1 else 0) (fun q => ?_) (fun q => ?_) fun q => ?_
    · rw [resume, due_schedule]
      simp [NetworkEvent.resumed?]
      rfl
    · rw [resume, handed_schedule]
      exact Multiset.add_zero _
    · have := waits_setAnswers s l e c q
      rw [hw, List.count_cons] at this
      simp only [beq_iff_eq] at this
      change (s.setWired l ((s.wired l).setAnswers e c)).waits q + _ = _
      have hc : c.waiters.count q = ps.count q := rfl
      omega

theorem passes_setLink (s : Network n m) (l : Fin m) (link : Link) : Passes (fun _ => 0) s (s.setLink l link) :=
  passes_setWired s l fun _ => rfl

theorem passes_applyLink (l : Fin m) (s : Network n m) (e : LinkEffect) : Passes (fun _ => 0) s (applyLink l s e) := by
  cases e with
  | answer e a => exact passes_answer s l e a
  | schedule delay e => exact passes_schedule_of_none s delay rfl
  | log level text => exact passes_of_same (fun _ => rfl) (fun _ => rfl) fun _ => rfl

theorem passes_updateLink (s : Network n m) (l : Fin m) (r : List LinkEffect × Link) :
    Passes (fun _ => 0) s (s.updateLink l r) :=
  foldl_invariant (I := Passes (fun _ => 0) s) (fun s' e h => h.after (passes_applyLink l s' e)) r.1
    (passes_setLink s l r.2)

theorem passes_quantum (s : Network n m) (q : QuantumState) : Passes (fun _ => 0) s { s with quantum := q } :=
  passes_of_same (fun _ => rfl) (fun _ => rfl) fun _ => rfl

theorem passes_fireLink (s : Network n m) (l : Fin m) (e : LinkEvent) : Passes (fun _ => 0) s (s.fireLink l e) :=
  (passes_quantum s _).after (passes_updateLink _ l _)

/-! The work of a node or a host. -/

/-- An effect resumes the process that it says it does. -/
theorem passes_applyEffect (s : Network n m) (e : Effect n m) :
    Passes (fun q => if e.resumed? = some q then 1 else 0) s (s.applyEffect e) := by
  have hnone : ∀ {s' : Network n m}, e.resumed? = none → Passes (fun _ => 0) s s' →
      Passes (fun q => if e.resumed? = some q then 1 else 0) s s' := fun h hp => by simpa [h] using hp
  cases e with
  | log level name text => exact hnone rfl (passes_of_same (fun _ => rfl) (fun _ => rfl) fun _ => rfl)
  | resume delay p wake => exact passes_schedule s delay (.resume p wake)
  | send line text => exact hnone rfl (passes_send s line text)
  | tell source target message => exact hnone rfl (passes_tell s source target message)
  | abortLink l e => exact hnone rfl (passes_updateLink s l _)
  | observed remote request => exact hnone rfl (passes_of_same (fun _ => rfl) (fun _ => rfl) fun _ => rfl)

theorem passes_effects (s : Network n m) (es : List (Effect n m)) :
    Passes (fun q => (es.filterMap Effect.resumed?).count q) s (es.foldl applyEffect s) := by
  induction es generalizing s with
  | nil => exact .refl s
  | cons e es ih =>
    have h := (passes_applyEffect s e).trans (ih (s.applyEffect e))
    have hcount : ∀ q, ((e :: es).filterMap Effect.resumed?).count q =
        (if e.resumed? = some q then 1 else 0) + (es.filterMap Effect.resumed?).count q := fun q => by
      cases he : e.resumed? with
      | none => simp [he]
      | some p => simp [he, List.count_cons, Nat.add_comm]
    rw [funext hcount]
    exact h

theorem handed_applyEffect (s : Network n m) (e : Effect n m) (q : ProcessId) :
    (s.applyEffect e).handed q = s.handed q + (e.requestTo? q).toList := by
  have hnone : e.resumed? = none → e.requestTo? q = none →
      (s.applyEffect e).handed q = s.handed q + (e.requestTo? q).toList := fun hr hq => by
    rw [(passes_applyEffect s e).handed q (by simp [hr]), hq]
    exact (Multiset.add_zero _).symm
  cases e with
  | resume delay p wake =>
    refine (handed_schedule s delay (.resume p wake) q).trans ?_
    cases wake with
    | _ => rfl
  | _ => exact hnone rfl rfl

theorem handed_effects (s : Network n m) (es : List (Effect n m)) (q : ProcessId) :
    (es.foldl applyEffect s).handed q = s.handed q + (es.filterMap (·.requestTo? q) : Multiset EntanglementRequest) := by
  induction es generalizing s with
  | nil => simp
  | cons e es ih =>
    rw [List.foldl_cons, ih, handed_applyEffect, List.filterMap_cons]
    cases e.requestTo? q with
    | none => simp
    | some r => simp [add_assoc]

theorem handed_commit (s : Network n m) (i : Fin n) (w : Working (Node n m) n m) (q : ProcessId) :
    (s.commit i w).handed q = s.handed q + w.handed q := by
  rw [commit, ← Array.foldl_toList]
  exact handed_effects { s.setNode i w.part with quantum := w.quantum } w.effects.toList q

theorem due_commit (s : Network n m) (i : Fin n) (w : Working (Node n m) n m) (q : ProcessId) :
    s.due q + w.resumed q ≤ (s.commit i w).due q := by
  have h := (passes_effects { s.setNode i w.part with quantum := w.quantum } w.effects.toList).due q
  rwa [Array.foldl_toList] at h

/-- The turns at a node are those that its work leaves. -/
theorem turns_commit (s : Network n m) (i : Fin n) (w : Working (Node n m) n m) (q : ProcessId) :
    (s.commit i w).turns q + (s.node i).lines q = s.turns q + w.turns q := by
  have h := (passes_effects { s.setNode i w.part with quantum := w.quantum } w.effects.toList).turns q
  rw [Array.foldl_toList] at h
  have hnode := waits_setNode s i w.part q
  change (s.commit i w).turns q = s.due q + (s.setNode i w.part).waits q + w.resumed q at h
  rw [h, turns, Working.turns]
  omega

/-- The network after a host's work. -/
def commitHost (s : Network n m) (i : Fin n) (w : Working (Host n) n m) : Network n m :=
  w.effects.foldl applyEffect { s.setHost i w.part with quantum := w.quantum }

theorem due_commitHost (s : Network n m) (i : Fin n) (w : Working (Host n) n m) (q : ProcessId) :
    s.due q + w.resumed q ≤ (s.commitHost i w).due q := by
  have h := (passes_effects { s.setHost i w.part with quantum := w.quantum } w.effects.toList).due q
  rwa [Array.foldl_toList] at h

/-- The work of a host hands nothing to those that it does not resume. -/
theorem handed_commitHost (s : Network n m) (i : Fin n) {w : Working (Host n) n m} {q : ProcessId} (h : w.resumed q = 0) :
    (s.commitHost i w).handed q = s.handed q := by
  have hp := (passes_effects { s.setHost i w.part with quantum := w.quantum } w.effects.toList).handed q h
  rwa [Array.foldl_toList] at hp

theorem turns_commitHost (s : Network n m) (i : Fin n) (w : Working (Host n) n m) (q : ProcessId) :
    (s.commitHost i w).turns q + (s.host i).lines q = s.turns q + w.resumed q + w.part.lines q := by
  have h := (passes_effects { s.setHost i w.part with quantum := w.quantum } w.effects.toList).turns q
  rw [Array.foldl_toList] at h
  have hhost := waits_setHost s i w.part q
  change (s.commitHost i w).turns q = s.due q + (s.setHost i w.part).waits q + w.resumed q at h
  rw [h, turns]
  omega

/-! Processes that go on. -/

/-- A process looks for its answer. -/
theorem turns_receive (s : Network n m) (l : Fin m) (e : LinkEnd) (p q : ProcessId) :
    (s.setWired l ((s.wired l).setAnswers e (((s.wired l).answers e).receive p).2)).turns q =
      s.turns q + if (((s.wired l).answers e).receive p).1.isNone ∧ q = p then 1 else 0 := by
  have hw := waits_setAnswers s l e (((s.wired l).answers e).receive p).2 q
  have ht : ∀ x, (s.setWired l x).turns q = s.due q + (s.setWired l x).waits q := fun _ => rfl
  rw [Channel.count_receive] at hw
  rw [ht, turns]
  omega

/-- A process that has asked a link waits at most once more, and not if it is answered. -/
theorem turns_askLink {p : ProcessId} {l : Fin m} {e : LinkEnd} {c : LinkCall} {a : Option LinkAnswer}
    (h : s.askLink p l e c = .ok (a, s')) (q : ProcessId) :
    s.due q ≤ s'.due q ∧ s'.turns q ≤ s.turns q + if a.isNone ∧ q = p then 1 else 0 := by
  unfold askLink at h
  split at h
  · exact nomatch h
  · rename_i link _
    cases h
    have hp := passes_setLink s l link
    exact ⟨hp.due q, by rw [hp.turns]; omega⟩
  · rename_i effects link quantum _
    have hp := (passes_quantum s quantum).after (passes_updateLink _ l (effects, link))
    cases h
    refine ⟨hp.due q, Nat.le_of_eq ((turns_receive _ l e p q).trans ?_)⟩
    rw [hp.turns]
    rfl

theorem handed_askLink {p : ProcessId} {l : Fin m} {e : LinkEnd} {c : LinkCall} {a : Option LinkAnswer}
    (h : s.askLink p l e c = .ok (a, s')) (q : ProcessId) : s'.handed q = s.handed q := by
  unfold askLink at h
  split at h
  · exact nomatch h
  · rename_i link _
    cases h
    exact (passes_setLink s l link).handed q rfl
  · rename_i effects link quantum _
    cases h
    exact ((passes_quantum s quantum).after (passes_updateLink _ l (effects, link))).handed q rfl

theorem due_current (s : Network n m) (q : ProcessId) :
    s.due q = (if s.current.map Prod.fst = some q then 1 else 0) + (s.setCurrent none).due q := by
  cases hc : s.current with
  | none => simp [due, ahead, setCurrent, hc]
  | some c => simp [due, ahead, setCurrent, hc, NetworkEvent.resumed?, List.count_cons, Nat.add_comm]

theorem due_of_current {q : ProcessId} (h : s.current.map Prod.fst = some q) : 0 < s.due q := by
  have := due_current s q
  rw [if_pos h] at this
  omega

theorem turns_current (s : Network n m) (q : ProcessId) :
    s.turns q = (if s.current.map Prod.fst = some q then 1 else 0) + (s.setCurrent none).turns q := by
  rw [turns, due_current, turns, Nat.add_assoc]
  rfl

theorem due_setCurrent (s : Network n m) (c : Option (ProcessId × Wake)) (q : ProcessId) :
    (s.setCurrent c).due q = (if c.map Prod.fst = some q then 1 else 0) + (s.setCurrent none).due q :=
  due_current (s.setCurrent c) q

/-- The request that a process has been handed and goes on with. -/
def taken? (s : Network n m) (q : ProcessId) : Option EntanglementRequest :=
  s.current.bind fun c => (NetworkEvent.resume c.1 c.2 : NetworkEvent n m).requestTo? q

theorem taken?_of_ne {q : ProcessId} (h : s.current.map Prod.fst ≠ some q) : s.taken? q = none := by
  unfold taken?
  cases hc : s.current with
  | none => rfl
  | some c => exact NetworkEvent.requestTo?_of_ne fun h' => h (by rw [hc]; exact h')

theorem handed_current (s : Network n m) (q : ProcessId) :
    s.handed q = (s.setCurrent none).handed q + (s.taken? q).toList := by
  unfold taken?
  cases hc : s.current with
  | none => simp [handed, ahead, setCurrent, hc]
  | some c =>
    simp only [handed, ahead, setCurrent, hc, Option.map_some, Option.toList_some, Option.bind_some, Option.map_none,
      Option.toList_none, List.nil_append, List.singleton_append, List.filterMap_cons]
    cases (NetworkEvent.resume c.1 c.2 : NetworkEvent n m).requestTo? q with
    | none => simp
    | some r => exact Multiset.coe_eq_coe.2 (List.perm_append_singleton r _).symm

/-- Whoever goes on while somebody is at work has still been handed the same. -/
theorem handed_commit_rest (s : Network n m) (i : Fin n) (w : Working (Node n m) n m) (q : ProcessId) :
    ((s.commit i w).setCurrent none).handed q = (s.setCurrent none).handed q + w.handed q := by
  have hcommit := handed_commit s i w q
  have htaken : (s.commit i w).taken? q = s.taken? q := by rw [taken?, current_commit, taken?]
  rw [handed_current s, handed_current (s.commit i w), htaken, add_right_comm] at hcommit
  exact add_right_cancel hcommit

section

variable {p : ProcessId} {process : Process n m} {flow : Flow m (Activity n m) (Option Outcome)}

theorem turns_finish (s : Network n m) (p : ProcessId) (process : Process n m) (o : Option Outcome) (q : ProcessId) :
    (s.finish p process o).due q = (s.setCurrent none).due q ∧
      (s.finish p process o).turns q = (s.setCurrent none).turns q := by
  cases o with
  | _ => exact ⟨rfl, rfl⟩

/-- What becomes of a process takes the turn that it had, and gives it no more than one back. -/
theorem Resolves.turns (h : s.Resolves p process flow s') (hc : s.current.map Prod.fst = some p) (q : ProcessId) :
    (q ≠ p → s.due q ≤ s'.due q) ∧ s'.turns q + (if flow.rests = true ∧ q = p then 1 else 0) ≤ s.turns q := by
  have hset : ∀ (s₁ : Network n m) (a : Activity n m) (c : Option (ProcessId × Wake)),
      ((s₁.setActivity p process a).setCurrent c).due q =
          (if c.map Prod.fst = some q then 1 else 0) + (s₁.setCurrent none).due q ∧
        ((s₁.setActivity p process a).setCurrent c).turns q =
          (if c.map Prod.fst = some q then 1 else 0) + (s₁.setCurrent none).turns q :=
    fun s₁ a c => ⟨due_setCurrent _ c q, turns_current _ q⟩
  have hcur : ∀ s₁ : Network n m, s₁.current.map Prod.fst = some p →
      s₁.due q = (if q = p then 1 else 0) + (s₁.setCurrent none).due q ∧
        s₁.turns q = (if q = p then 1 else 0) + (s₁.setCurrent none).turns q := fun s₁ h₁ => by
    have hd := due_current s₁ q
    have ht := turns_current s₁ q
    simp only [h₁, Option.some.injEq, eq_comm (a := p)] at hd ht
    exact ⟨hd, ht⟩
  obtain ⟨hdue, hturns⟩ := hcur s hc
  cases h with
  | go a =>
    obtain ⟨hd, ht⟩ := hset s a (some (p, .go))
    simp only [Option.map_some, Option.some.injEq, eq_comm (a := p)] at hd ht
    simp only [Flow.rests, Bool.false_eq_true, false_and, if_false]
    omega
  | rest a =>
    obtain ⟨hd, ht⟩ := hset s a none
    simp only [Option.map_none, reduceCtorEq, if_false, Nat.zero_add] at hd ht
    simp only [Flow.rests, true_and]
    refine ⟨fun hq => ?_, by omega⟩
    rw [if_neg hq] at hdue
    omega
  | finished o =>
    obtain ⟨hd, ht⟩ := turns_finish s p process o q
    simp only [Flow.rests, Bool.false_eq_true, false_and, if_false]
    refine ⟨fun hq => ?_, by omega⟩
    rw [if_neg hq] at hdue
    omega
  | @answered l e c answer s₁ a h =>
    obtain ⟨hd, ht⟩ := hset s₁ a (some (p, .answer answer))
    obtain ⟨hdue₁, hturns₁⟩ := hcur s₁ (by rw [(spares_askLink h).current, hc])
    obtain ⟨hda, hta⟩ := turns_askLink h q
    simp only [Option.map_some, Option.some.injEq, eq_comm (a := p)] at hd ht
    simp only [Option.isNone_some, Bool.false_eq_true, false_and, if_false] at hta
    simp only [Flow.rests, Bool.false_eq_true, false_and, if_false]
    omega
  | @waiting l e c s₁ a h =>
    obtain ⟨hd, ht⟩ := hset s₁ a none
    obtain ⟨hdue₁, hturns₁⟩ := hcur s₁ (by rw [(spares_askLink h).current, hc])
    obtain ⟨hda, hta⟩ := turns_askLink h q
    simp only [Option.map_none, reduceCtorEq, if_false, Nat.zero_add] at hd ht
    simp only [Option.isNone_none, true_and] at hta
    simp only [Flow.rests, Bool.false_eq_true, false_and, if_false]
    refine ⟨fun hq => ?_, by omega⟩
    rw [if_neg hq] at hdue₁ hta
    omega

/-- Whoever is not to go on is handed nothing. -/
theorem handed_of_due {q : ProcessId} (h : s.due q = 0) : s.handed q = 0 := by
  have hnone : ∀ e ∈ s.ahead, e.requestTo? q = none := fun e he => NetworkEvent.requestTo?_of_ne fun hr =>
    List.count_eq_zero.1 h (List.mem_filterMap.2 ⟨e, he, hr⟩)
  exact congrArg _ (List.filterMap_eq_nil_iff.2 hnone)

/-- What a process has been handed is taken at its turn. -/
theorem Resolves.handed (h : s.Resolves p process flow s') (q : ProcessId) :
    s'.handed q = (s.setCurrent none).handed q := by
  have hset : ∀ (s₁ : Network n m) (a : Activity n m) (c : Option (ProcessId × Wake)),
      ((s₁.setActivity p process a).setCurrent c).taken? q = none →
        ((s₁.setActivity p process a).setCurrent c).handed q = (s₁.setCurrent none).handed q := fun s₁ a c hc => by
    rw [handed_current, hc]
    exact Multiset.add_zero _
  have hask : ∀ {l e c a} {s₁ : Network n m}, s.askLink p l e c = .ok (a, s₁) →
      (s₁.setCurrent none).handed q = (s.setCurrent none).handed q := fun {l e c a s₁} h => by
    have hh := handed_askLink h q
    have htaken : s₁.taken? q = s.taken? q := by rw [taken?, (spares_askLink h).current, taken?]
    rw [handed_current, handed_current s, htaken] at hh
    exact add_right_cancel hh
  cases h with
  | go a => exact hset s a _ rfl
  | rest a => exact hset s a _ rfl
  | finished o =>
    cases o with
    | _ => rfl
  | answered a h => exact (hset _ a _ rfl).trans (hask h)
  | waiting a h => exact (hset _ a _ rfl).trans (hask h)

end

end Network

end QuantumNode
