import QuantumNode.Proofs.Entanglement.Generation
import QuantumNode.Proofs.Handshake.Wiring
import QuantumNode.Proofs.Network.Occasion

/-! What the agenda of a network holds for a link: the events that end its generations, each at its time. Whoever is
answered goes on at once. -/
namespace QuantumNode

variable {n m : Nat} {l : Fin m}

/-- The time and the event, if it is one of a link. -/
def Scheduled.timer? (l : Fin m) (t : Scheduled (NetworkEvent n m)) : Option (Nat × LinkEvent) :=
  match t.event with
  | .link k event => if k = l then some (t.time, event) else none
  | _ => none

theorem Scheduled.timer?_eq_none {t : Scheduled (NetworkEvent n m)} (h : t.event.Elsewhere l) : t.timer? l = none := by
  unfold timer?
  split
  · rename_i k event he
    refine if_neg fun hk => h event ?_
    rw [he, hk]
  · rfl

theorem Scheduled.timer?_eq_some {t : Scheduled (NetworkEvent n m)} {x : Nat × LinkEvent} (h : t.timer? l = some x) :
    t.time = x.1 := by
  unfold timer? at h
  split at h
  · split at h
    · cases h
      rfl
    · exact nomatch h
  · exact nomatch h

namespace Network

/-- The events of a link that are still to fall due, with their times. -/
def timers (s : Network n m) (l : Fin m) : List (Nat × LinkEvent) := s.agenda.queue.filterMap (Scheduled.timer? l)

variable {s s' : Network n m} {limit : Nat} {a : Agenda (NetworkEvent n m)}

theorem Idles.timers (h : s.Idles l s') : s'.timers l = s.timers l :=
  h.agenda.filterMap_queue fun _ _ _ he => Scheduled.timer?_eq_none he

theorem timers_of_next {e : NetworkEvent n m} (hn : s.agenda.next limit = .event e a) (he : e.Elsewhere l) :
    ({ s with agenda := a } : Network n m).timers l = s.timers l := by
  obtain ⟨k, hpop⟩ := Agenda.filterMap_of_next (Scheduled.timer? l) hn
  rw [Scheduled.timer?_eq_none he] at hpop
  exact hpop.symm

theorem timers_of_later (hn : s.agenda.next limit = .later a) :
    ({ s with agenda := a } : Network n m).timers l = s.timers l := by
  obtain ⟨_, _, _, _, rfl⟩ := Agenda.next_eq_later.1 hn
  rfl

theorem timers_of_fire {event : LinkEvent} (hn : s.agenda.next limit = .event (.link l event) a) :
    s.timers l = (a.now, event) :: ({ s with agenda := a } : Network n m).timers l := by
  obtain ⟨k, hpop⟩ := Agenda.filterMap_of_next (Scheduled.timer? l) hn
  refine hpop.trans ?_
  unfold Scheduled.timer?
  dsimp only
  rw [if_pos rfl]
  rfl

/-- The next event falls due no later than any event of a link. -/
theorem now_le_of_next (ha : s.agenda.Tidy) {e : NetworkEvent n m} (hn : s.agenda.next limit = .event e a)
    {x : Nat × LinkEvent} (hx : x ∈ s.timers l) : a.now ≤ x.1 := by
  obtain ⟨t, ht, htx⟩ := List.mem_filterMap.1 hx
  obtain ⟨u, rest, hq, -, -, rfl⟩ := Agenda.next_eq_event.1 hn
  have hsorted := ha.sorted
  rw [hq] at ht hsorted
  rw [← Scheduled.timer?_eq_some htx]
  rcases List.mem_cons.1 ht with rfl | ht
  · exact Nat.le_refl _
  · have := Scheduled.before_iff.1 (List.rel_of_pairwise_cons hsorted ht)
    change u.time ≤ t.time
    omega

theorem now_le_of_later (ha : s.agenda.Tidy) (hn : s.agenda.next limit = .later a) {x : Nat × LinkEvent}
    (hx : x ∈ s.timers l) : a.now ≤ x.1 := by
  obtain ⟨t, ht, htx⟩ := List.mem_filterMap.1 hx
  have hlt := ha.lt_of_later hn
  obtain ⟨_, _, _, _, rfl⟩ := Agenda.next_eq_later.1 hn
  rw [← Scheduled.timer?_eq_some htx]
  exact Nat.le_of_lt (hlt t ht)

/-! What a link brings about. -/

theorem grows_answer (s : Network n m) (l : Fin m) (e : LinkEnd) (a : LinkAnswer) :
    s.agenda.Grows (NetworkEvent.Elsewhere l) (s.answer l e a).agenda := by
  unfold answer
  dsimp only
  split
  · exact .schedule .refl 0 nofun
  · exact .refl

/-- What a link schedules falls due after its delay; nothing else of it changes. -/
theorem timers_applyLink (es : List LinkEffect) (s : Network n m) :
    ((es.foldl (applyLink l) s).timers l).Perm
        ((LinkEffect.timers es).map (fun x => ((s.now + x.1) % Word.size64, x.2)) ++ s.timers l) ∧
      s.agenda.Grows (fun _ => True) (es.foldl (applyLink l) s).agenda := by
  induction es generalizing s with
  | nil => exact ⟨.refl _, .refl⟩
  | cons x es ih =>
    rw [List.foldl_cons]
    obtain ⟨hperm, hgrows⟩ := ih (applyLink l s x)
    cases x with
    | answer e a =>
      have hg := s.grows_answer l e a
      have hnow : (s.answer l e a).now = s.now := hg.now_eq
      have htimers : (s.answer l e a).timers l = s.timers l :=
        hg.filterMap_queue fun _ _ _ he => Scheduled.timer?_eq_none he
      refine ⟨?_, (hg.mono fun _ _ => trivial).trans hgrows⟩
      change List.Perm _ ((LinkEffect.timers es).map _ ++ _)
      rw [← htimers, ← hnow]
      exact hperm
    | schedule delay event =>
      refine ⟨hperm.trans ?_, Agenda.Grows.trans (.schedule .refl delay trivial) hgrows⟩
      have hqueue := (Agenda.enqueue_perm ⟨(s.agenda.now + delay) % Word.size64, s.agenda.seq, .link l event⟩
        s.agenda.queue).filterMap (Scheduled.timer? l)
      have hsome : Scheduled.timer? l (⟨(s.agenda.now + delay) % Word.size64, s.agenda.seq, .link l event⟩ :
          Scheduled (NetworkEvent n m)) = some ((s.agenda.now + delay) % Word.size64, event) := if_pos rfl
      rw [List.filterMap_cons_some hsome] at hqueue
      exact (hqueue.append_left _).trans List.perm_middle
    | log level text => exact ⟨hperm, hgrows⟩

theorem timers_updateLink (s : Network n m) (r : List LinkEffect × Link) :
    ((s.updateLink l r).timers l).Perm
      ((LinkEffect.timers r.1).map (fun x => ((s.now + x.1) % Word.size64, x.2)) ++ s.timers l) :=
  (timers_applyLink r.1 (s.setLink l r.2)).1

theorem events_updateLink (s : Network n m) (r : List LinkEffect × Link) :
    (((s.updateLink l r).timers l).map Prod.snd).Perm (LinkEffect.events r.1 ++ (s.timers l).map Prod.snd) := by
  have h := (s.timers_updateLink (l := l) r).map Prod.snd
  rwa [List.map_append, List.map_map, show Prod.snd ∘ (fun x : Nat × LinkEvent =>
    ((s.now + x.1) % Word.size64, x.2)) = Prod.snd from rfl, LinkEffect.map_timers] at h

theorem grows_updateLink (s : Network n m) (r : List LinkEffect × Link) :
    s.agenda.Grows (fun _ => True) (s.updateLink l r).agenda :=
  (timers_applyLink r.1 (s.setLink l r.2)).2

/-! Whoever waits for an answer. -/

/-- Where an end of a link is answered. -/
def mailbox (s : Network n m) (l : Fin m) (e : LinkEnd) : Channel LinkAnswer ProcessId := (s.wired l).answers e

/-- At an end that waits, one process waits for the answer. -/
def Attended (s : Network n m) (l : Fin m) : Prop :=
  ∀ e, (s.mailbox l e).items = [] ∧ (s.mailbox l e).waiters.length = ((s.link l).waiting e).toList.length

/-- The process that waits at an end is to go on at once, with an answer. -/
def Hands (s s' : Network n m) (l : Fin m) (e : LinkEnd) (a : LinkAnswer) : Prop :=
  ∃ p, (s.mailbox l e).waiters = [p] ∧ ∃ t ∈ s'.agenda.queue, t.time = s'.now ∧ t.event = .resume p (.answer a)

theorem mailbox_setAnswers (s : Network n m) (e o : LinkEnd) (c : Channel LinkAnswer ProcessId) :
    (s.setWired l ((s.wired l).setAnswers e c)).mailbox l o = if o = e then c else s.mailbox l o := by
  unfold mailbox
  rw [wired_setWired, if_pos rfl, View.answers_setAnswers]

theorem link_setAnswers (s : Network n m) (e : LinkEnd) (c : Channel LinkAnswer ProcessId) :
    (s.setWired l ((s.wired l).setAnswers e c)).link l = s.link l := by
  unfold link
  rw [wired_setWired, if_pos rfl, View.link_setAnswers]

theorem mailbox_setLink (s : Network n m) (link : Link) (e : LinkEnd) :
    (s.setLink l link).mailbox l e = s.mailbox l e := by
  unfold mailbox setLink
  rw [wired_setWired, if_pos rfl]
  cases e with
  | left => rfl
  | right => rfl

theorem link_setLink (s : Network n m) (link : Link) : (s.setLink l link).link l = link :=
  congrArg WiredLink.link ((wired_setWired s l _ l).trans (if_pos rfl))

theorem mailbox_answer (s : Network n m) {e o : LinkEnd} (ho : o ≠ e) (a : LinkAnswer) :
    (s.answer l e a).mailbox l o = s.mailbox l o := by
  unfold answer
  dsimp only
  split
  · exact (mailbox_setAnswers s e o _).trans (if_neg ho)
  · exact (mailbox_setAnswers s e o _).trans (if_neg ho)

theorem link_answer (s : Network n m) (e : LinkEnd) (a : LinkAnswer) : (s.answer l e a).link l = s.link l := by
  unfold answer
  dsimp only
  split
  · exact link_setAnswers s e _
  · exact link_setAnswers s e _

/-- Each answer makes a process go on that waits for it. -/
theorem resumes_of_reply {es : List LinkEffect} (s : Network n m) (hn : ((LinkEffect.replies es).map Prod.fst).Nodup)
    {e : LinkEnd} {a : LinkAnswer} (ha : (e, a) ∈ LinkEffect.replies es) {p : ProcessId}
    (hp : (s.mailbox l e).waiters = [p]) : ∃ t ∈ (es.foldl (applyLink l) s).agenda.queue,
      t.time = (s.now + 0) % Word.size64 ∧ t.event = .resume p (.answer a) := by
  induction es generalizing s with
  | nil => exact nomatch ha
  | cons x es ih =>
    rw [List.foldl_cons]
    cases x with
    | schedule delay event => exact ih (s.schedule delay (.link l event)) hn ha hp
    | log level text => exact ih (s.write level (s.link l).name text) hn ha hp
    | answer o b =>
      obtain ⟨ho, hn⟩ := List.nodup_cons.1 (show (o :: (LinkEffect.replies es).map Prod.fst).Nodup from hn)
      rcases List.mem_cons.1 (show (e, a) ∈ (o, b) :: LinkEffect.replies es from ha) with heq | ha
      · obtain ⟨rfl, rfl⟩ := Prod.mk.inj heq
        refine ⟨⟨(s.now + 0) % Word.size64, s.agenda.seq, .resume p (.answer a)⟩,
          (timers_applyLink es (applyLink l s (.answer e a))).2.mem ?_, rfl, rfl⟩
        change _ ∈ (s.answer l e a).agenda.queue
        have harrive : ((s.wired l).answers e).countSent.arrive a =
            (some p, { ((s.wired l).answers e).countSent with waiters := [] }) := by
          unfold Channel.arrive
          rw [show ((s.wired l).answers e).countSent.waiters = [p] from hp]
        unfold answer
        dsimp only
        rw [harrive]
        exact Agenda.mem_enqueue.2 (.inl rfl)
      · have hne : e ≠ o := fun he => ho (List.mem_map.2 ⟨_, ha, he⟩)
        obtain ⟨t, ht, htime, hevent⟩ := ih (s.answer l o b) hn ha (by rw [mailbox_answer s hne]; exact hp)
        exact ⟨t, ht, htime.trans (by rw [show (s.answer l o b).now = s.now from (s.grows_answer l o b).now_eq]), hevent⟩

theorem updateLink_answered (s : Network n m) (link : Link) {es : List LinkEffect}
    (hn : ((LinkEffect.replies es).map Prod.fst).Nodup) (hw : ∀ e, (s.mailbox l e).waiters.length ≤ 1) :
    (s.setLink l link).view.Answered l (LinkEffect.replies es) (s.updateLink l (es, link)).view := by
  have h := View.answered_foldl l (LinkEffect.replies es) hn (v := (s.setLink l link).view) fun x _ => by
    change ((s.setLink l link).mailbox l x.1).waiters.length ≤ 1
    rw [mailbox_setLink]
    exact hw x.1
  have hv : es.foldl (View.applyLink l) (s.setLink l link).view = (s.updateLink l (es, link)).view := by
    rw [view_updateLink, View.updateLink, view_setLink]
  rwa [← View.foldl_applyLink, hv] at h

/-- An end that is not answered is left alone. -/
theorem mailbox_unserved (s : Network n m) (link : Link) {es : List LinkEffect}
    (hn : ((LinkEffect.replies es).map Prod.fst).Nodup) (hw : ∀ e, (s.mailbox l e).waiters.length ≤ 1) {e : LinkEnd}
    (he : ∀ a, (e, a) ∉ LinkEffect.replies es) : (s.updateLink l (es, link)).mailbox l e = s.mailbox l e := by
  refine ((s.updateLink_answered link hn hw).unserved e fun hmem => ?_).trans (mailbox_setLink s link e)
  obtain ⟨x, hx, rfl⟩ := List.mem_map.1 hmem
  exact he x.2 hx

/-- An answer is kept for a process that is still to wait. -/
theorem mailbox_served (s : Network n m) (link : Link) {es : List LinkEffect}
    (hn : ((LinkEffect.replies es).map Prod.fst).Nodup) (hw : ∀ e, (s.mailbox l e).waiters.length ≤ 1) {e : LinkEnd}
    {a : LinkAnswer} (ha : (e, a) ∈ LinkEffect.replies es) :
    ((s.updateLink l (es, link)).mailbox l e).waiters = [] ∧ ((s.updateLink l (es, link)).mailbox l e).items =
      (s.mailbox l e).items ++ if (s.mailbox l e).waiters = [] then [a] else [] := by
  have h := s.updateLink_answered link hn hw
  have hitems := h.items _ ha
  change _ = ((s.setLink l link).mailbox l e).items ++
    if ((s.setLink l link).mailbox l e).waiters = [] then [a] else [] at hitems
  rw [mailbox_setLink] at hitems
  exact ⟨h.served _ ha, hitems⟩

theorem link_updateLink (s : Network n m) (r : List LinkEffect × Link) : (s.updateLink l r).link l = r.2 := by
  refine foldl_invariant (f := applyLink l) (I := fun s' => s'.link l = r.2) (fun s' e h => ?_) r.1 (link_setLink s r.2)
  cases e with
  | answer e a => exact (link_answer s' e a).trans h
  | schedule delay event => exact h
  | log level text => exact h

theorem link_fireLink (s : Network n m) (event : LinkEvent) :
    (s.fireLink l event).link l = ((s.link l).fire event s.quantum).1.2 :=
  link_updateLink _ _

theorem now_fireLink (s : Network n m) (event : LinkEvent) : (s.fireLink l event).now = s.now :=
  (grows_updateLink (l := l) { s with quantum := ((s.link l).fire event s.quantum).2 } _).now_eq

/-- Nothing happens when an event falls due that does not count any more. -/
theorem idles_fireLink_of_stale (s : Network n m) {event : LinkEvent}
    (h : ¬ ((s.link l).generating = true ∧ event.ticket = (s.link l).ticket)) : s.Idles l (s.fireLink l event) := by
  unfold fireLink
  rw [Link.fire_of_stale h]
  exact ⟨(wired_setWired s l _ l).trans (if_pos rfl), .refl⟩

namespace Attended

theorem length_le (h : s.Attended l) (e : LinkEnd) : (s.mailbox l e).waiters.length ≤ 1 :=
  (h e).2 ▸ Option.length_toList_le

theorem waiter (h : s.Attended l) {e : LinkEnd} (hw : ((s.link l).waiting e).isSome) :
    ∃ p, (s.mailbox l e).waiters = [p] := by
  obtain ⟨c, hc⟩ := Option.isSome_iff_exists.1 hw
  have hlength := (h e).2
  rw [hc] at hlength
  exact List.length_eq_one_iff.1 hlength

theorem unattended (h : s.Attended l) {e : LinkEnd} (hw : (s.link l).waiting e = none) :
    (s.mailbox l e).waiters = [] := by
  have hlength := (h e).2
  rw [hw] at hlength
  exact List.length_eq_zero_iff.1 hlength

theorem congr (h : s.Attended l) (hl : s'.wired l = s.wired l) : s'.Attended l := by
  unfold Attended mailbox link at h ⊢
  rw [hl]
  exact h

/-- Whoever is answered goes on, and the others wait as before. -/
theorem updateLink (h : s.Attended l) {link : Link} {es : List LinkEffect} (hr : Link.Replies (s.link l) link es) :
    (s.updateLink l (es, link)).Attended l := by
  intro e
  rw [link_updateLink]
  by_cases he : ∃ a, (e, a) ∈ LinkEffect.replies es
  · obtain ⟨a, he⟩ := he
    obtain ⟨hw, hw'⟩ := hr.answered e a he
    obtain ⟨p, hp⟩ := h.waiter hw
    obtain ⟨hwaiters, hitems⟩ := s.mailbox_served link hr.nodup h.length_le he
    rw [hp, (h e).1] at hitems
    exact ⟨hitems, by rw [hwaiters, hw']; rfl⟩
  · have hnone : ∀ a, (e, a) ∉ LinkEffect.replies es := fun a ha => he ⟨a, ha⟩
    rw [s.mailbox_unserved link hr.nodup h.length_le hnone, hr.unanswered e hnone]
    exact h e

theorem hands (h : s.Attended l) (hnow : s.now < Word.size64) {link : Link} {es : List LinkEffect}
    (hr : Link.Replies (s.link l) link es) {e : LinkEnd} {a : LinkAnswer} (ha : (e, a) ∈ LinkEffect.replies es) :
    s.Hands (s.updateLink l (es, link)) l e a := by
  obtain ⟨p, hp⟩ := h.waiter (hr.answered e a ha).1
  obtain ⟨t, ht, htime, hevent⟩ :=
    resumes_of_reply (s.setLink l link) hr.nodup ha (by rw [mailbox_setLink]; exact hp)
  refine ⟨p, hp, t, ht, htime.trans ?_, hevent⟩
  rw [show (s.updateLink l (es, link)).now = s.now from (s.grows_updateLink (es, link)).now_eq]
  exact Nat.mod_eq_of_lt hnow

theorem fireLink_hands (h : s.Attended l) (hm : (s.link l).Matched) (hnow : s.now < Word.size64) (event : LinkEvent)
    {e : LinkEnd} {a : LinkAnswer} (ha : (e, a) ∈ LinkEffect.replies ((s.link l).fire event s.quantum).1.1) :
    s.Hands (s.fireLink l event) l e a :=
  Attended.hands (s := { s with quantum := ((s.link l).fire event s.quantum).2 }) h hnow
    (Link.fire_replies hm event s.quantum) ha

/-- A process that has called waits, unless it is answered at once. -/
theorem receive (h : s.Attended l) {e : LinkEnd} {c : LinkCall} {link : Link} {es : List LinkEffect}
    (hw : (s.link l).waiting e = none) (ha : Link.Accepts (s.link l) link e c es) (p : ProcessId) (o : LinkEnd) :
    let box := (s.updateLink l (es, link)).mailbox l
    (if o = e then ((box e).receive p).2 else box o).items = [] ∧
      (if o = e then ((box e).receive p).2 else box o).waiters.length = (link.waiting o).toList.length := by
  dsimp only
  cases ha with
  | waits hes hn hwaiting hf hmatched =>
    have hnone : ∀ a, (o, a) ∉ LinkEffect.replies es := fun a => by
      rw [hes]
      exact List.not_mem_nil
    have hsame := s.mailbox_unserved link (by rw [hes]; exact .nil) h.length_le hnone
    rw [hwaiting, Link.waiting_await]
    by_cases ho : o = e
    · subst ho
      rw [if_pos rfl, if_pos rfl, Channel.receive, hsame, (h o).1, h.unattended hw]
      exact ⟨rfl, rfl⟩
    · rw [if_neg ho, if_neg ho, hsame]
      exact h o
  | turned hother hj =>
    obtain ⟨a, ha⟩ : ∃ a, (o, a) ∈ LinkEffect.replies es := by
      cases o with
      | left => exact ⟨_, hj.left⟩
      | right => exact ⟨_, hj.right⟩
    obtain ⟨hwaiters, hitems⟩ := s.mailbox_served link hj.nodup h.length_le ha
    rw [(h o).1] at hitems
    rw [hj.ended o]
    by_cases ho : o = e
    · subst ho
      rw [h.unattended hw, if_pos rfl] at hitems
      rw [if_pos rfl, Channel.receive, hitems]
      exact ⟨rfl, congrArg List.length hwaiters⟩
    · obtain rfl : o = e.opposite := (LinkEnd.eq_or_opposite e o).resolve_left ho
      obtain ⟨q, hq⟩ := h.waiter hother
      rw [hq] at hitems
      rw [if_neg ho, hitems, hwaiters]
      exact ⟨rfl, rfl⟩

theorem askLink (h : s.Attended l) (hm : (s.link l).Matched) {p : ProcessId} {e : LinkEnd} {c : LinkCall}
    {a : Option LinkAnswer} (ha : s.askLink p l e c = .ok (a, s')) : s'.Attended l := by
  unfold Network.askLink at ha
  split at ha
  · exact nomatch ha
  · rename_i hr
    cases ha
    obtain ⟨-, -, -, rfl⟩ := Link.request_cases hm hr
    intro o
    rw [mailbox_setLink, link_setLink, Link.waiting_flag]
    exact h o
  · rename_i es link q hr
    cases ha
    obtain ⟨hw, -, hacc⟩ := Link.request_cases hm hr
    intro o
    rw [mailbox_setAnswers, link_setAnswers, link_updateLink]
    exact Attended.receive (s := { s with quantum := q }) h hw hacc p o

end Attended

end Network

end QuantumNode
