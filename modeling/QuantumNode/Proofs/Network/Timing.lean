import QuantumNode.Proofs.Network.Rehearsal
import QuantumNode.Proofs.Network.Timer

/-! When a link answers. A pair takes as long as has been drawn for it when both of its calls were there, whatever is given
up before and after and whatever else falls due; what would take longer than is allowed ends when that time has passed. -/
namespace QuantumNode

variable {n m : Nat} {l : Fin m}

namespace Network

variable {s s' s₀ : Network n m} {g : Generation} {start : Nat}

/-- What holds of a network with a link whose history is known. -/
structure Timed (s : Network n m) (l : Fin m) (past : List LinkMoment) : Prop where
  timely : s.agenda.Timely
  attended : s.Attended l
  usage : ∃ due config a b, Link.Usage (.new config a b) past due (s.link l) ∧ due.Perm ((s.timers l).map Prod.snd)

theorem Built.timed (h : s₀.Built) (l : Fin m) : s₀.Timed l [] := by
  obtain ⟨config, a, b, hw, -⟩ := h.links l
  have hlink : s₀.link l = .new config a b := congrArg WiredLink.link hw
  refine ⟨h.agenda ▸ Agenda.start_timely, fun e => ?_, [], config, a, b, hlink ▸ .new, ?_⟩
  · unfold mailbox
    rw [hlink, hw]
    cases e with
    | left => exact ⟨rfl, rfl⟩
    | right => exact ⟨rfl, rfl⟩
  · unfold timers
    rw [h.agenda]
    exact .refl _

namespace Timed

variable {past : List LinkMoment}

theorem sound (h : s.Timed l past) : ∃ due, Link.Usage.Sound past due (s.link l) ∧ due.Perm ((s.timers l).map Prod.snd) := by
  obtain ⟨due, config, a, b, hu, hp⟩ := h.usage
  exact ⟨due, hu.sound, hp⟩

theorem matched (h : s.Timed l past) : (s.link l).Matched := by
  obtain ⟨due, hs, -⟩ := h.sound
  exact hs.matched

/-- No two events of a link have the same ticket. -/
theorem timer_unique (h : s.Timed l past) {x y : Nat × LinkEvent} (hx : x ∈ s.timers l) (hy : y ∈ s.timers l)
    (ht : x.2.ticket = y.2.ticket) : x = y := by
  obtain ⟨due, hs, hp⟩ := h.sound
  have hnodup : ((s.timers l).map fun x => x.2.ticket).Nodup := by
    have := (hp.map LinkEvent.ticket).nodup_iff.1 hs.nodup
    rwa [List.map_map] at this
  exact List.inj_on_of_nodup_map hnodup hx hy ht

theorem congr (h : s.Timed l past) (hw : s'.wired l = s.wired l) (ha : s'.agenda.Timely)
    (ht : s'.timers l = s.timers l) : s'.Timed l past := by
  have hlink : s'.link l = s.link l := congrArg WiredLink.link hw
  refine ⟨ha, h.attended.congr hw, ?_⟩
  rw [hlink, ht]
  exact h.usage

theorem drifts (h : s.Timed l past) (hd : s.Drifts l s') : s'.Timed l past := by
  cases hd with
  | idle hi => exact h.congr hi.wired (hi.agenda.timely h.timely) hi.timers
  | pass hn he => exact h.congr rfl (h.timely.event hn) (timers_of_next hn he)
  | wait hn => exact h.congr rfl (h.timely.later hn) (timers_of_later hn)

end Timed

theorem askLink_of_refused {p : ProcessId} {e : LinkEnd} {c : LinkCall} {a : Option LinkAnswer} {b : LinkAnswer}
    {link : Link} (hr : (s.link l).request e c s.quantum = .ok (.refused b link))
    (h : s.askLink p l e c = .ok (a, s')) : s' = s.setLink l link := by
  unfold askLink at h
  rw [hr] at h
  cases h
  rfl

theorem askLink_of_accepted {p : ProcessId} {e : LinkEnd} {c : LinkCall} {a : Option LinkAnswer}
    {es : List LinkEffect} {link : Link} {q : QuantumState}
    (hr : (s.link l).request e c s.quantum = .ok (.accepted es link q)) (h : s.askLink p l e c = .ok (a, s')) :
    s'.link l = link ∧ s'.agenda = (({ s with quantum := q } : Network n m).updateLink l (es, link)).agenda ∧
      s'.timers l = (({ s with quantum := q } : Network n m).updateLink l (es, link)).timers l := by
  unfold askLink at h
  rw [hr] at h
  cases h
  exact ⟨(link_setAnswers _ e _).trans (link_updateLink _ _), rfl, rfl⟩

theorem Timed.occurs {past : List LinkMoment} {x : LinkMoment} (h : s.Timed l past) (ho : s.Occurs l x s') :
    s'.Timed l (x :: past) := by
  obtain ⟨due, config, a, b, hu, hp⟩ := h.usage
  have hs := hu.sound
  cases ho with
  | @call p e c r answer _ hr hask =>
    have hmailbox := h.attended.askLink hs.matched hask
    have hturn : Link.calls past e = (Link.answers past e).length := by
      have := hs.outstanding e
      rwa [(Link.request_cases hs.matched hr).1] at this
    cases r with
    | refused answer link =>
      obtain rfl := askLink_of_refused hr hask
      refine ⟨h.timely, hmailbox, due, config, a, b, ?_, hp⟩
      rw [link_setLink]
      exact hu.refused hturn hr
    | accepted es link q =>
      obtain ⟨hlink, hagenda, htimers⟩ := askLink_of_accepted hr hask
      let s₁ : Network n m := { s with quantum := q }
      refine ⟨hagenda ▸ (s₁.grows_updateLink _).timely h.timely, hmailbox, _, config, a, b,
        hlink ▸ hu.accepted hturn hr, ?_⟩
      rw [htimers]
      exact (hp.append_left _).trans (s₁.events_updateLink (es, link)).symm
  | abort e =>
    have hreplies := ((s.link l).abort_aborts e).toReplies
    refine ⟨(s.grows_updateLink _).timely h.timely, h.attended.updateLink hreplies, due, config, a, b, ?_, ?_⟩
    · rw [abortLink, link_updateLink]
      exact hu.abort e
    · have hevents := s.events_updateLink (l := l) ((s.link l).abort e)
      rw [Link.abort_events] at hevents
      exact hp.trans hevents.symm
  | @fire limit event agenda hn =>
    have htimers := timers_of_fire hn
    have hreplies := Link.fire_replies hs.matched event s.quantum
    let s₁ : Network n m := { s with agenda := agenda, quantum := ((s.link l).fire event s.quantum).2 }
    have hattended : s₁.Attended l := h.attended.congr rfl
    have hmem : event ∈ due := hp.mem_iff.2 (by rw [htimers]; exact List.mem_cons_self)
    refine ⟨(s₁.grows_updateLink _).timely (h.timely.event hn), hattended.updateLink hreplies, due.erase event, config, a,
      b, ?_, ?_⟩
    · rw [show (({ s with agenda := agenda } : Network n m).fireLink l event).link l = _ from link_updateLink s₁ _]
      exact hu.fire hmem s.quantum
    · have hevents := s₁.events_updateLink (l := l) ((s.link l).fire event s.quantum).1
      rw [Link.fire_events] at hevents
      refine List.Perm.trans ?_ hevents.symm
      rw [htimers, List.map_cons] at hp
      exact ((List.perm_cons_erase hmem).symm.trans hp).cons_inv

theorem Chronicle.timed {past : List (Occasion n m)} (h₀ : s₀.Built) (h : Chronicle l s₀ past s) :
    s.Timed l (past.map (·.moment)) := by
  induction h with
  | new => exact h₀.timed l
  | drifts _ hd ih => exact ih.drifts hd
  | occurs _ ho ih => exact ih.occurs ho

/-! Generations and their ends. -/

namespace Occasion

variable {x : Occasion n m}

/-- Both calls are there, and a pair begins to be made for them. -/
def Begins (x : Occasion n m) (l : Fin m) (g : Generation) : Prop :=
  (x.before.link l).underway? = none ∧ (x.after.link l).underway? = some g

/-- Nobody is answered. -/
def Silent (x : Occasion n m) : Prop := x.moment.replies = []

/-- Both ends are answered, and both processes that wait there go on at once. -/
def Answers (x : Occasion n m) (l : Fin m) (P : LinkAnswer → Prop) : Prop :=
  ∀ e, ∃ a, x.moment.answersTo e = [a] ∧ P a ∧ x.before.Hands x.after l e a

/-- How a generation ends that has begun at some time: somebody gives up, or the time that is allowed has passed, or a
pair is there. Times are counted modulo 2^64. -/
inductive Ends (x : Occasion n m) (l : Fin m) (g : Generation) (start : Nat) : Prop where
  | givenUp (e : LinkEnd) (hact : x.moment.act = .abort e) (ha : x.Answers l (· = .refused .aborted .keep))
  | late (hl : g.Late) (ht : x.after.now = (start + g.maxTime) % Word.size64)
      (ha : x.Answers l fun a => ∃ kind, a = .refused .timeout kind)
  | made (p : Pair) (hl : ¬ g.Late) (hp : p.duration = g.time) (ht : x.after.now = (start + p.duration) % Word.size64)
      (ha : x.Answers l fun a => ∃ reading, a = .pair { p with reading := reading })

end Occasion

/-- A generation that has begun at some time is under way. What ends it is scheduled for its time, which has not passed. -/
structure Pends (s : Network n m) (l : Fin m) (g : Generation) (start : Nat) : Prop where
  underway : (s.link l).underway? = some g
  timer : (g.due start, g.event (s.link l).ticket) ∈ s.timers l
  ahead : start + g.delay < Word.size64 → s.now ≤ g.due start

theorem Pends.idle (h : s.Pends l g start) (hi : s.Idles l s') : s'.Pends l g start := by
  refine ⟨hi.link ▸ h.underway, ?_, fun hfit => ?_⟩
  · rw [hi.link, hi.timers]
    exact h.timer
  · rw [show s'.now = s.now from hi.agenda.now_eq]
    exact h.ahead hfit

theorem Pends.drifts {past : List LinkMoment} (h : s.Pends l g start) (ht : s.Timed l past) (hd : s.Drifts l s') :
    s'.Pends l g start := by
  cases hd with
  | idle hi => exact h.idle hi
  | pass hn he =>
    exact ⟨h.underway, timers_of_next hn he ▸ h.timer, fun _ => now_le_of_next ht.timely.toTidy hn h.timer⟩
  | wait hn =>
    exact ⟨h.underway, timers_of_later hn ▸ h.timer, fun _ => now_le_of_later ht.timely.toTidy hn h.timer⟩

/-- Where nothing is under way, a call begins a generation that takes as long as is drawn, or nothing does. -/
theorem Occurs.begins {past : List LinkMoment} {x : LinkMoment} (ho : s.Occurs l x s') (h : s.Timed l past)
    (hnone : (s.link l).underway? = none) (hg : (s'.link l).underway? = some g) :
    s'.Pends l g s'.now ∧ g.time = (s.link l).drawnTime s.quantum := by
  have hidle := h.matched.idle_of_underway hnone
  have hbusy : ∀ {link : Link}, link.underway? = some g → link.generating = false → False := fun hu hi =>
    nomatch (Link.underway?_of_idle hi).symm.trans hu
  cases ho with
  | @call p e c r answer _ hr hask =>
    cases r with
    | refused answer link =>
      obtain rfl := askLink_of_refused hr hask
      obtain ⟨-, -, -, rfl⟩ := Link.request_cases h.matched hr
      rw [link_setLink] at hg
      exact (hbusy hg ((Link.generating_setSide ..).trans hidle)).elim
    | accepted es link q =>
      obtain ⟨rfl, hagenda, htimers⟩ := askLink_of_accepted hr hask
      rcases Link.request_begins hidle hr with ⟨hi, -⟩ | ⟨g', hb, ht⟩
      · exact (hbusy hg hi).elim
      · obtain rfl : g' = g := Option.some.inj (hb.underway.symm.trans hg)
        let s₁ : Network n m := { s with quantum := q }
        have hnow : s'.now = s.now := (congrArg Agenda.now hagenda).trans (s₁.grows_updateLink (l := l) _).now_eq
        refine ⟨⟨hg, ?_, fun hfit => ?_⟩, ht⟩
        · rw [htimers, hnow, (s₁.timers_updateLink (es, s'.link l)).mem_iff, hb.timers]
          exact List.mem_append_left _ List.mem_cons_self
        · rw [g'.due_eq hfit]
          exact Nat.le_add_right _ _
  | abort e =>
    rw [abortLink, link_updateLink] at hg
    exact (hbusy hg ((s.link l).abort_aborts e).idle).elim
  | @fire limit event agenda hn =>
    let s₁ : Network n m := { s with agenda := agenda }
    have hstale : s₁.Idles l (s₁.fireLink l event) :=
      s₁.idles_fireLink_of_stale fun hlive => nomatch hidle.symm.trans hlive.1
    rw [hstale.link] at hg
    exact nomatch hnone.symm.trans hg

/-- The event of the generation under way ends it, and at its time. -/
theorem Pends.fire {past : List LinkMoment} (hp : s.Pends l g start) (h : s.Timed l past) {limit : Nat}
    {event : LinkEvent} {a : Agenda (NetworkEvent n m)} (hn : s.agenda.next limit = .event (.link l event) a)
    (ht : event.ticket = (s.link l).ticket) {x : LinkMoment}
    (hx : x.replies = LinkEffect.replies ((s.link l).fire event s.quantum).1.1) :
    ((({ s with agenda := a } : Network n m).fireLink l event).link l).underway? = none ∧
      Occasion.Ends ⟨s, x, ({ s with agenda := a } : Network n m).fireLink l event⟩ l g start := by
  have htimers := timers_of_fire hn
  let s₁ : Network n m := { s with agenda := a }
  -- Of the events of the link only one has this ticket.
  have hevent : (a.now, event) = (g.due start, g.event (s.link l).ticket) :=
    h.timer_unique (by rw [htimers]; exact List.mem_cons_self) hp.timer (ht.trans (g.ticket_event _).symm)
  obtain ⟨hdue, rfl⟩ := Prod.mk.inj hevent
  obtain ⟨hsettles, hidle⟩ := Link.fire_settles h.matched hp.underway s.quantum hx
  have hnow := (s₁.now_fireLink (l := l) (g.event (s.link l).ticket)).trans hdue
  have hattended : s₁.Attended l := h.attended.congr rfl
  have hhands : ∀ {e b}, b ∈ x.answersTo e → s.Hands (s₁.fireLink l (g.event (s.link l).ticket)) l e b :=
    fun hb => hattended.fireLink_hands h.matched (h.timely.event hn).now_lt _ (hx ▸ Link.mem_answersTo.1 hb)
  refine ⟨?_, ?_⟩
  · rw [link_fireLink]
    exact Link.underway?_of_idle hidle
  · by_cases hlate : g.Late
    · refine .late hlate (hnow.trans ?_) fun e => ?_
      · rw [Generation.due, g.delay_of_late hlate]
      · obtain ⟨kind, hkind⟩ := hsettles.late hlate e
        exact ⟨_, hkind, ⟨kind, rfl⟩, hhands (hkind ▸ List.mem_cons_self)⟩
    · obtain ⟨p, hduration, hpair⟩ := hsettles.made hlate
      refine .made p hlate hduration (hnow.trans ?_) fun e => ?_
      · rw [Generation.due, g.delay_of_not_late hlate, hduration]
      · obtain ⟨reading, hreading⟩ := hpair e
        exact ⟨_, hreading, ⟨reading, rfl⟩, hhands (hreading ▸ List.mem_cons_self)⟩

/-- A generation that is under way stays so while nobody is answered, or it ends. -/
theorem Occurs.pends {past : List LinkMoment} {x : LinkMoment} (ho : s.Occurs l x s') (h : s.Timed l past)
    (hp : s.Pends l g start) : s'.Pends l g start ∧ x.replies = [] ∨
      (s'.link l).underway? = none ∧ Occasion.Ends ⟨s, x, s'⟩ l g start := by
  have hwaits := Link.waiting_of_underway hp.underway
  cases ho with
  | @call p e c r answer _ hr hask =>
    have hcall := hwaits e
    rw [(Link.request_cases h.matched hr).1] at hcall
    exact nomatch hcall
  | abort e =>
    have haborts := (s.link l).abort_aborts e
    refine .inr ⟨?_, .givenUp e rfl fun o => ⟨_, Link.abort_answersTo hp.underway e rfl o, rfl, ?_⟩⟩
    · rw [abortLink, link_updateLink]
      exact Link.underway?_of_idle haborts.idle
    · exact h.attended.hands h.timely.now_lt haborts.toReplies (haborts.reply (hwaits o))
  | @fire limit event agenda hn =>
    by_cases ht : event.ticket = (s.link l).ticket
    · exact .inr (hp.fire h hn ht rfl)
    · let s₁ : Network n m := { s with agenda := agenda }
      have hstale : s₁.Idles l (s₁.fireLink l event) := s₁.idles_fireLink_of_stale fun hlive => ht hlive.2
      refine .inl ⟨Pends.idle (s := s₁) ⟨hp.underway, ?_, fun _ => now_le_of_next h.timely.toTidy hn hp.timer⟩ hstale, ?_⟩
      · have hmem := hp.timer
        rw [timers_of_fire hn] at hmem
        refine (List.mem_cons.1 hmem).resolve_left fun heq => ht ?_
        rw [← (Prod.mk.inj heq).2, g.ticket_event]
      · rw [Link.fire_of_stale fun hlive => ht hlive.2]
        rfl

/-- Only a generation that was under way ends in a pair. -/
theorem Occurs.underway {past : List LinkMoment} {x : LinkMoment} (ho : s.Occurs l x s') (h : s.Timed l past)
    {e : LinkEnd} {p : Pair} (hp : .pair p ∈ x.answersTo e) : ∃ g, (s.link l).underway? = some g := by
  rw [Link.mem_answersTo] at hp
  cases ho with
  | @call p' o c r answer _ hr hask =>
    cases r with
    | refused a link =>
      obtain ⟨-, -, rfl, -⟩ := Link.request_cases h.matched hr
      exact nomatch (List.mem_singleton.1 hp)
    | accepted es link q =>
      obtain ⟨-, -, ha⟩ := Link.request_cases h.matched hr
      exact nomatch ha.pair?_eq_none _ hp
  | abort o => exact nomatch ((s.link l).abort_aborts o).aborted _ _ hp
  | @fire limit event agenda hn =>
    cases hu : (s.link l).underway? with
    | some g => exact ⟨g, rfl⟩
    | none =>
      have hidle := h.matched.idle_of_underway hu
      rw [Link.fire_of_stale fun hlive => nomatch hidle.symm.trans hlive.1] at hp
      exact nomatch hp

theorem Occasion.Ends.of_pair {x : Occasion n m} (h : x.Ends l g start) {e : LinkEnd} {p : Pair}
    (hp : .pair p ∈ x.moment.answersTo e) : p.duration = g.time ∧ (0 < g.maxTime → p.duration ≤ g.maxTime) ∧
      x.after.now = (start + p.duration) % Word.size64 := by
  have htold : ∀ {P}, x.Answers l P → P (.pair p) := fun ha => by
    obtain ⟨a, hone, hP, -⟩ := ha e
    rw [hone, List.mem_singleton] at hp
    exact hp ▸ hP
  cases h with
  | givenUp e' hact ha => exact nomatch htold ha
  | late hl ht ha =>
    obtain ⟨kind, hkind⟩ := htold ha
    exact nomatch hkind
  | made p' hl hduration ht ha =>
    obtain ⟨reading, hreading⟩ := htold ha
    obtain rfl := LinkAnswer.pair.inj hreading
    exact ⟨hduration, fun hm => hduration ▸ Generation.time_le hl hm, ht⟩

/-! Chronicles. -/

section Chronicle

variable {past later earlier : List (Occasion n m)} {x y : Occasion n m}

/-- A generation that has begun is under way, or it has ended as the first thing since then that has brought answers. -/
theorem Chronicle.pends (h₀ : s₀.Built) (h : Chronicle l s₀ past s) (hpast : past = later ++ x :: earlier)
    (hx : x.Begins l g) : s.Pends l g x.after.now ∧ (∀ z ∈ later, z.Silent) ∨
      ∃ after y between, later = after ++ y :: between ∧ (∀ z ∈ between, z.Silent) ∧ y.Ends l g x.after.now := by
  induction h generalizing later with
  | new => exact absurd hpast.symm (List.append_ne_nil_of_right_ne_nil _ (List.cons_ne_nil _ _))
  | drifts h hd ih => exact (ih hpast).imp_left fun hp => ⟨hp.1.drifts (h.timed h₀) hd, hp.2⟩
  | occurs h ho ih =>
    cases later with
    | nil =>
      obtain ⟨rfl, rfl⟩ := List.cons.inj hpast
      exact .inl ⟨(ho.begins (h.timed h₀) hx.1 hx.2).1, List.forall_mem_nil _⟩
    | cons y later =>
      obtain ⟨rfl, rfl⟩ := List.cons.inj hpast
      rcases ih rfl with ⟨hp, hsilent⟩ | ⟨after, z, between, rfl, hsilent, hends⟩
      · rcases ho.pends (h.timed h₀) hp with ⟨hp', hnone⟩ | ⟨-, hends⟩
        · exact .inl ⟨hp', List.forall_mem_cons.2 ⟨hnone, hsilent⟩⟩
        · exact .inr ⟨[], _, later, rfl, hsilent, hends⟩
      · exact .inr ⟨_ :: after, z, between, rfl, hsilent, hends⟩

/-- A generation that is under way has begun, and nobody has been answered since. -/
theorem Chronicle.began (h₀ : s₀.Built) (h : Chronicle l s₀ past s) (hg : (s.link l).underway? = some g) :
    ∃ since x before, past = since ++ x :: before ∧ x.Begins l g ∧ (∀ z ∈ since, z.Silent) ∧
      s.Pends l g x.after.now := by
  induction h generalizing g with
  | new =>
    obtain ⟨config, a, b, hw, -⟩ := h₀.links l
    rw [show s₀.link l = .new config a b from congrArg WiredLink.link hw] at hg
    exact nomatch hg
  | drifts h hd ih =>
    obtain ⟨since, x, before, rfl, hx, hs, hp⟩ := ih (hd.link ▸ hg)
    exact ⟨since, x, before, rfl, hx, hs, hp.drifts (h.timed h₀) hd⟩
  | @occurs past s s' x h ho ih =>
    cases hu : (s.link l).underway? with
    | none => exact ⟨[], _, past, rfl, ⟨hu, hg⟩, List.forall_mem_nil _, (ho.begins (h.timed h₀) hu hg).1⟩
    | some g' =>
      obtain ⟨since, y, before, rfl, hy, hs, hp⟩ := ih hu
      rcases ho.pends (h.timed h₀) hp with ⟨hp', hnone⟩ | ⟨hend, -⟩
      · obtain rfl : g' = g := Option.some.inj (hp'.underway.symm.trans hg)
        exact ⟨⟨s, x, s'⟩ :: since, y, before, rfl, hy, List.forall_mem_cons.2 ⟨hnone, hs⟩, hp'⟩
      · exact nomatch hend.symm.trans hg

end Chronicle

/-! Chronicles that can be computed. -/

/-- What is done at a link, or that the next event falls due. Whoever calls is no process of the network, and does nothing
when it goes on. -/
inductive Visit where
  | call (p : ProcessId) (e : LinkEnd) (c : LinkCall)
  | abort (e : LinkEnd)
  | alarm (delay : Nat)
  | next

/-- The chronicle of some visits. -/
def visit (l : Fin m) : List Visit → List (Occasion n m) → Network n m → Option (List (Occasion n m) × Network n m)
  | [], past, s => some (past, s)
  | .call p e c :: visits, past, s =>
    match (s.link l).request e c s.quantum, s.askLink p l e c with
    | .ok r, .ok (_, s') => visit l visits (⟨s, r.moment e c, s'⟩ :: past) s'
    | _, _ => none
  | .abort e :: visits, past, s =>
    visit l visits (⟨s, ⟨.abort e, LinkEffect.replies ((s.link l).abort e).1, []⟩, s.abortLink l e⟩ :: past)
      (s.abortLink l e)
  | .alarm delay :: visits, past, s => visit l visits past (s.schedule delay (.alarm 0))
  | .next :: visits, past, s =>
    match s.agenda.next forever with
    | .event (.alarm _) a => visit l visits past { s with agenda := a }
    | .event (.resume _ _) a => visit l visits past { s with agenda := a }
    | .event (.link k event) a =>
      let moment := ⟨.fire event, LinkEffect.replies ((s.link l).fire event s.quantum).1.1, []⟩
      let s' := ({ s with agenda := a } : Network n m).fireLink l event
      if k = l then visit l visits (⟨s, moment, s'⟩ :: past) s' else none
    | _ => none

theorem Chronicle.visit {past past' : List (Occasion n m)} (h : Chronicle l s₀ past s) {visits : List Visit}
    (hv : Network.visit l visits past s = some (past', s')) : Chronicle l s₀ past' s' := by
  induction visits generalizing past s with
  | nil =>
    cases hv
    exact h
  | cons v visits ih =>
    cases v with
    | call p e c =>
      rw [Network.visit] at hv
      split at hv
      · rename_i hr ha
        exact ih (h.occurs (.call hr ha)) hv
      · exact nomatch hv
    | abort e => exact ih (h.occurs (.abort e)) hv
    | alarm delay => exact ih (h.drifts (.idle (idles_schedule s delay (e := .alarm 0) nofun))) hv
    | next =>
      rw [Network.visit] at hv
      split at hv
      · rename_i k a hn
        exact ih (h.drifts (.pass hn fun _ => nofun)) hv
      · rename_i p wake a hn
        exact ih (h.drifts (.pass hn fun _ => nofun)) hv
      · rename_i k event a hn
        split at hv
        · rename_i hk
          subst hk
          exact ih (h.occurs (.fire hn)) hv
        · exact nomatch hv
      · exact nomatch hv

/-- When something happens, how long a generation takes that begins then, and how long a pair has taken that is told of. -/
def Occasion.row (l : Fin m) (x : Occasion n m) : Nat × Option Nat × Option Nat :=
  (x.after.now, if (x.before.link l).underway? = none then (x.after.link l).underway?.map Generation.time else none,
    (x.moment.answersTo .left).findSome? fun a => a.pair?.map Pair.duration)

theorem Occasion.begins_of_row {x : Occasion n m} {now time : Nat} {told : Option Nat}
    (h : x.row l = (now, some time, told)) : x.after.now = now ∧ ∃ g, x.Begins l g ∧ g.time = time := by
  obtain ⟨hnow, h⟩ := Prod.mk.inj h
  obtain ⟨htime, -⟩ := Prod.mk.inj h
  refine ⟨hnow, ?_⟩
  split at htime
  · rename_i hnone
    obtain ⟨g, hg, rfl⟩ := Option.map_eq_some_iff.1 htime
    exact ⟨g, ⟨hnone, hg⟩, rfl⟩
  · exact nomatch htime

theorem Occasion.pair_of_row {x : Occasion n m} {now duration : Nat} {time : Option Nat}
    (h : x.row l = (now, time, some duration)) :
    x.after.now = now ∧ ∃ p, .pair p ∈ x.moment.answersTo .left ∧ p.duration = duration := by
  obtain ⟨hnow, h⟩ := Prod.mk.inj h
  obtain ⟨-, htold⟩ := Prod.mk.inj h
  refine ⟨hnow, ?_⟩
  obtain ⟨a, ha, hpair⟩ := List.exists_of_findSome?_eq_some htold
  cases a with
  | refused cause kind => exact nomatch hpair
  | pair p => exact ⟨p, ha, Option.some.inj hpair⟩

/-- Visits to a network that has just been built. -/
theorem exists_of_rows (c : NetworkConfig) (l : Fin c.links.length) (visits : List Visit)
    (rows : List (Nat × Option Nat × Option Nat))
    (h : ((build c).toOption.bind (visit l visits [])).map (fun r => r.1.map (Occasion.row l)) = some rows) :
    ∃ s₀ past s, build c = .ok s₀ ∧ visit l visits [] s₀ = some (past, s) ∧ past.map (Occasion.row l) = rows := by
  obtain ⟨r, hr, hrows⟩ := Option.map_eq_some_iff.1 h
  obtain ⟨s₀, hs, hv⟩ := Option.bind_eq_some_iff.1 hr
  cases hb : build c with
  | error f =>
    rw [hb] at hs
    exact nomatch hs
  | ok s₁ =>
    rw [hb] at hs
    cases hs
    exact ⟨_, _, _, rfl, hv, hrows⟩

instance : NeZero duo.links.length := ⟨Nat.succ_ne_zero 0⟩

/-- From when both of its calls are there, a pair is made in the time that is drawn then: that much later both ends are told
of it, unless more time would pass than is allowed, after which both are told so, or somebody gives up before. Nobody is
told anything in between, whatever falls due that belongs to what was given up. Every pair comes from the latest generation
that has begun, and tells how long that has taken. -/
theorem pairs_take_their_time {c : NetworkConfig} {s₀ s : Network c.nodes.length c.links.length}
    {l : Fin c.links.length} {past : List (Occasion c.nodes.length c.links.length)} (hb : build c = .ok s₀)
    (h : Chronicle l s₀ past s) :
    (∀ later x earlier g, past = later ++ x :: earlier → x.Begins l g →
      g.time = (x.before.link l).drawnTime x.before.quantum ∧
        (s.Pends l g x.after.now ∧ (∀ z ∈ later, z.Silent) ∨
          ∃ after y between, later = after ++ y :: between ∧ (∀ z ∈ between, z.Silent) ∧ y.Ends l g x.after.now)) ∧
      ∀ later y earlier e p, past = later ++ y :: earlier → .pair p ∈ y.moment.answersTo e →
        ∃ between x before g, earlier = between ++ x :: before ∧ x.Begins l g ∧ (∀ z ∈ between, z.Silent) ∧
          y.Ends l g x.after.now ∧ p.duration = g.time ∧ (0 < g.maxTime → p.duration ≤ g.maxTime) ∧
          y.after.now = (x.after.now + p.duration) % Word.size64 := by
  have h₀ := built_of_build hb
  refine ⟨fun later x earlier g hpast hx => ⟨?_, h.pends h₀ hpast hx⟩, fun later y earlier e p hpast hp => ?_⟩
  · obtain ⟨hx', ho⟩ := h.of_suffix ⟨later, hpast.symm⟩
    exact (ho.begins (hx'.timed h₀) hx.1 hx.2).2
  · obtain ⟨hy, ho⟩ := h.of_suffix ⟨later, hpast.symm⟩
    obtain ⟨g, hg⟩ := ho.underway (hy.timed h₀) hp
    obtain ⟨between, x, before, rfl, hx, hs, hpends⟩ := hy.began h₀ hg
    have hends : y.Ends l g x.after.now := by
      rcases ho.pends (hy.timed h₀) hpends with ⟨-, hsilent⟩ | ⟨-, hends⟩
      · rw [Link.mem_answersTo, hsilent] at hp
        exact nomatch hp
      · exact hends
    exact ⟨between, x, before, g, rfl, hx, hs, hends, hends.of_pair hp⟩

/-- The first attempt is given up after 400 ns, and the next one begins at once. -/
def duoAgain : List Visit :=
  [.call 10 .left (.create .standard 0), .call 11 .right (.receive 1), .alarm 400, .next, .abort .left, .next, .next,
    .call 10 .left (.create .standard 0), .call 11 .right (.receive 1), .next, .next]

/-- What would have ended the attempt that was given up falls due at 1000 ns. The pair of the second one is there at
1400 ns, and has taken 1000 ns. -/
theorem pairs_take_their_time_after_abort : ∃ s₀ y z x rest s p, build duo = .ok s₀ ∧
    visit 0 duoAgain [] s₀ = some (y :: z :: x :: rest, s) ∧
      (y.after.now, z.after.now, x.after.now) = (1400, 1000, 400) ∧ .pair p ∈ y.moment.answersTo .left ∧
      p.duration = 1000 ∧ ∃ between x' before g, z :: x :: rest = between ++ x' :: before ∧ x'.Begins 0 g ∧
        (∀ z ∈ between, z.Silent) ∧ y.Ends 0 g x'.after.now ∧ p.duration = g.time ∧
        (0 < g.maxTime → p.duration ≤ g.maxTime) ∧ y.after.now = (x'.after.now + p.duration) % Word.size64 := by
  obtain ⟨s₀, past, s, hb, hv, hrows⟩ := exists_of_rows duo 0 duoAgain
    [(1400, none, some 1000), (1000, none, none), (400, some 1000, none), (400, none, none), (400, none, none),
      (0, some 1000, none), (0, none, none)] (by decide +kernel)
  obtain ⟨y, past, rfl, hy, hrows⟩ := List.map_eq_cons_iff.1 hrows
  obtain ⟨z, past, rfl, hz, hrows⟩ := List.map_eq_cons_iff.1 hrows
  obtain ⟨x, rest, rfl, hx, -⟩ := List.map_eq_cons_iff.1 hrows
  obtain ⟨hynow, p, hp, hduration⟩ := Occasion.pair_of_row hy
  refine ⟨s₀, y, z, x, rest, s, p, hb, hv, ?_, hp, hduration,
    (pairs_take_their_time hb (Chronicle.new.visit hv)).2 [] y (z :: x :: rest) .left p rfl hp⟩
  rw [hynow, (Occasion.begins_of_row hx).1, show z.after.now = 1000 from congrArg Prod.fst hz]

/-- The clock is close to its end when both calls are there. -/
def duoLate : List Visit :=
  [.alarm 18446744073709551000, .next, .call 10 .left (.create .standard 0), .call 11 .right (.receive 1), .next]

/-- A sum of a time and a duration that is too large for a time brings a pair forward. -/
theorem pair_before_its_time : ∃ s₀ y x rest s g p, build duo = .ok s₀ ∧
    visit 0 duoLate [] s₀ = some (y :: x :: rest, s) ∧ Chronicle 0 s₀ (y :: x :: rest) s ∧ x.Begins 0 g ∧
      .pair p ∈ y.moment.answersTo .left ∧ p.duration = g.time ∧ p.duration = 1000 ∧
      x.after.now = 18446744073709551000 ∧ y.after.now = 384 ∧ y.after.now ≠ x.after.now + p.duration := by
  obtain ⟨s₀, past, s, hb, hv, hrows⟩ := exists_of_rows duo 0 duoLate
    [(384, none, some 1000), (18446744073709551000, some 1000, none), (18446744073709551000, none, none)]
    (by decide +kernel)
  obtain ⟨y, past, rfl, hy, hrows⟩ := List.map_eq_cons_iff.1 hrows
  obtain ⟨x, rest, rfl, hx, -⟩ := List.map_eq_cons_iff.1 hrows
  obtain ⟨hynow, p, hp, hduration⟩ := Occasion.pair_of_row hy
  obtain ⟨hxnow, g, hg, htime⟩ := Occasion.begins_of_row hx
  refine ⟨s₀, y, x, rest, s, g, p, hb, hv, Chronicle.new.visit hv, hg, hp, hduration.trans htime.symm, hduration, hxnow,
    hynow, ?_⟩
  rw [hynow, hxnow, hduration]
  decide

end Network

end QuantumNode
