import QuantumNode.Proofs.Entanglement.Abort

/-! The making of a pair: for which calls, how long it takes, and what both ends are told at its end. -/
namespace QuantumNode

/-- A pair that is being made for two calls, of which one creates and the other receives. -/
structure Generation where
  creator : LinkEnd × LinkCall
  receiver : LinkEnd × LinkCall
  /-- How long it takes. -/
  time : Nat
  deriving DecidableEq

namespace Generation

/-- The time that is allowed; zero allows any. -/
def maxTime (g : Generation) : Nat := g.creator.2.request.maxTime

def Late (g : Generation) : Prop := 0 < g.maxTime ∧ g.maxTime < g.time

instance (g : Generation) : Decidable g.Late := inferInstanceAs (Decidable (_ ∧ _))

/-- How long it is waited for. -/
def delay (g : Generation) : Nat := if g.Late then g.maxTime else g.time

/-- When it ends if it begins at some time. -/
def due (g : Generation) (start : Nat) : Nat := (start + g.delay) % Word.size64

/-- What ends it. -/
def event (g : Generation) (ticket : Nat) : LinkEvent := if g.Late then .timeout ticket else .complete ticket

theorem ticket_event (g : Generation) (ticket : Nat) : (g.event ticket).ticket = ticket := by
  unfold event
  split
  · rfl
  · rfl

theorem delay_of_late {g : Generation} (h : g.Late) : g.delay = g.maxTime := if_pos h

theorem delay_of_not_late {g : Generation} (h : ¬ g.Late) : g.delay = g.time := if_neg h

/-- What is not late keeps within the time that is allowed. -/
theorem time_le {g : Generation} (h : ¬ g.Late) (hm : 0 < g.maxTime) : g.time ≤ g.maxTime :=
  Nat.le_of_not_lt fun hlt => h ⟨hm, hlt⟩

theorem due_eq {g : Generation} {start : Nat} (h : start + g.delay < Word.size64) : g.due start = start + g.delay :=
  Nat.mod_eq_of_lt h

end Generation

/-! What is scheduled. -/

def LinkEffect.timer? : LinkEffect → Option (Nat × LinkEvent)
  | .schedule delay e => some (delay, e)
  | _ => none

/-- The events that are scheduled among effects with their delays, in order. -/
def LinkEffect.timers (es : List LinkEffect) : List (Nat × LinkEvent) := es.filterMap LinkEffect.timer?

theorem LinkEffect.map_timers (es : List LinkEffect) : (timers es).map Prod.snd = events es := by
  unfold timers events
  rw [List.map_filterMap]
  congr 1
  funext e
  cases e with
  | _ => rfl

namespace Link

variable {l l' : Link} {e : LinkEnd} {g : Generation} {x : LinkMoment}

/-- The generation under way. -/
def underway? (l : Link) : Option Generation :=
  if l.generating then l.matched?.map fun m => ⟨m.1, m.2, l.generationTime⟩ else none

/-- How long a generation will take that draws from a quantum state. -/
def drawnTime (l : Link) (q : QuantumState) : Nat :=
  nanoseconds (Float.ofNat (l.drawCycles q).1 * l.config.effectiveCycleTime)

theorem underway?_of_idle (h : l.generating = false) : l.underway? = none := by
  rw [underway?, h]
  rfl

theorem underway?_eq_some : l.underway? = some g ↔
    l.generating = true ∧ l.matched? = some (g.creator, g.receiver) ∧ g.time = l.generationTime := by
  unfold underway?
  split
  · rename_i hg
    rw [Option.map_eq_some_iff]
    constructor
    · rintro ⟨m, hm, rfl⟩
      exact ⟨hg, hm, rfl⟩
    · rintro ⟨-, hm, ht⟩
      exact ⟨_, hm, by rw [← ht]⟩
  · rename_i hg
    exact iff_of_false nofun fun h => hg h.1

theorem Matched.idle_of_underway (hl : l.Matched) (h : l.underway? = none) : l.generating = false := by
  cases hg : l.generating with
  | false => rfl
  | true =>
    obtain ⟨a, b, ha, hb, hr⟩ := hl hg
    obtain ⟨creator, receiver, hm, -⟩ := matched?_of_roles ha hb hr
    rw [underway?, if_pos hg, hm] at h
    exact nomatch h

theorem matched?_cases {creator receiver : LinkEnd × LinkCall} (h : l.matched? = some (creator, receiver)) :
    receiver.1 = creator.1.opposite ∧ l.waiting creator.1 = some creator.2 ∧ l.waiting receiver.1 = some receiver.2 ∧
      creator.2.role = .create ∧ receiver.2.role = .receive := by
  unfold matched? at h
  split at h
  · rename_i a b ha hb
    split at h
    · rename_i hra hrb
      cases h
      exact ⟨rfl, ha, hb, hra, hrb⟩
    · rename_i hra hrb
      cases h
      exact ⟨rfl, hb, ha, hrb, hra⟩
    · exact nomatch h
  · exact nomatch h

/-- Both ends wait for a generation under way. -/
theorem waiting_of_underway (h : l.underway? = some g) (e : LinkEnd) : (l.waiting e).isSome := by
  obtain ⟨-, hm, -⟩ := underway?_eq_some.1 h
  obtain ⟨hends, hc, hr, -⟩ := matched?_cases hm
  rcases LinkEnd.eq_or_opposite g.creator.1 e with rfl | rfl
  · exact Option.isSome_of_eq_some hc
  · rw [← hends]
    exact Option.isSome_of_eq_some hr

/-- An end that is answered gets one answer. -/
theorem Replies.answersTo_eq {es : List LinkEffect} (h : Replies l l' es) (hx : x.replies = LinkEffect.replies es)
    {a : LinkAnswer} (ha : (e, a) ∈ LinkEffect.replies es) : x.answersTo e = [a] := by
  obtain ⟨hw, hw'⟩ := h.answered e a ha
  obtain ⟨c, hc⟩ := Option.isSome_iff_exists.1 hw
  have hlength := h.length_answersTo hx e
  rw [hc, hw'] at hlength
  obtain ⟨b, hb⟩ := List.length_eq_one_iff.1 hlength
  have hmem : a ∈ x.answersTo e := mem_answersTo.2 (hx ▸ ha)
  rw [hb] at hmem ⊢
  rw [List.mem_singleton.1 hmem]

/-! Beginning. -/

/-- A generation begins: it has a ticket of its own, and its end is scheduled, once. -/
structure Begins (l l' : Link) (es : List LinkEffect) (g : Generation) : Prop where
  underway : l'.underway? = some g
  ticket : l'.ticket = l.ticket + 1
  timers : LinkEffect.timers es = [(g.delay, g.event l'.ticket)]
  replies : LinkEffect.replies es = []

theorem generate_begins {creator receiver : LinkEnd × LinkCall} (h : l.matched? = some (creator, receiver))
    (cycles : Nat) : Begins l (l.generate creator.2.request cycles).2 (l.generate creator.2.request cycles).1
      ⟨creator, receiver, nanoseconds (Float.ofNat cycles * l.config.effectiveCycleTime)⟩ := by
  unfold generate
  dsimp only
  generalize nanoseconds (Float.ofNat cycles * l.config.effectiveCycleTime) = time
  split
  · rename_i hlate
    have hlate : Generation.Late ⟨creator, receiver, time⟩ := hlate
    refine ⟨underway?_eq_some.2 ⟨rfl, h, rfl⟩, rfl, ?_, rfl⟩
    rw [Generation.delay_of_late hlate, Generation.event, if_pos hlate]
    rfl
  · rename_i hlate
    have hlate : ¬ Generation.Late ⟨creator, receiver, time⟩ := hlate
    refine ⟨underway?_eq_some.2 ⟨rfl, h, rfl⟩, rfl, ?_, rfl⟩
    rw [Generation.delay_of_not_late hlate, Generation.event, if_neg hlate]
    rfl

/-- An idle link that looks at its ends stays idle, or begins a generation of the time that is drawn. -/
theorem matchEnds_begins (hg : l.generating = false) (q : QuantumState) :
    (l.matchEnds q).1.2.generating = false ∧ LinkEffect.events (l.matchEnds q).1.1 = [] ∨
      ∃ g, Begins l (l.matchEnds q).1.2 (l.matchEnds q).1.1 g ∧ g.time = l.drawnTime q := by
  unfold matchEnds
  split
  · rename_i a b _ ha hb
    obtain ⟨he, hgen, -⟩ := l.refuseBoth_counts .rejected
    split
    · exact .inl ⟨hgen.trans hg, he⟩
    · rename_i hrole
      obtain ⟨creator, receiver, hm, hr⟩ : ∃ creator receiver, l.matched? = some (creator, receiver) ∧
          (if a.role = .create then a.request else b.request) = creator.2.request := by
        unfold matched?
        rw [ha, hb]
        dsimp only
        cases hra : a.role with
        | create =>
          cases hrb : b.role with
          | create => exact absurd (hra.trans hrb.symm) hrole
          | receive => exact ⟨(.left, a), (.right, b), rfl, rfl⟩
        | receive =>
          cases hrb : b.role with
          | create => exact ⟨(.right, b), (.left, a), rfl, rfl⟩
          | receive => exact absurd (hra.trans hrb.symm) hrole
      dsimp only
      rw [hr]
      split
      · exact .inl ⟨hgen.trans hg, he⟩
      · exact .inr ⟨_, generate_begins hm _, rfl⟩
  · exact .inl ⟨hg, rfl⟩

/-- A call that is accepted begins a generation, or none is under way after it. -/
theorem request_begins {c : LinkCall} {q q' : QuantumState} {es : List LinkEffect} (hg : l.generating = false)
    (h : l.request e c q = .ok (.accepted es l' q')) : l'.generating = false ∧ LinkEffect.events es = [] ∨
      ∃ g, Begins l l' es g ∧ g.time = l.drawnTime q := by
  unfold request at h
  dsimp only at h
  split at h
  · exact nomatch h
  · split at h
    · exact nomatch h
    · cases h
      have hsame : ∀ s : LinkSide, (l.setSide e s).drawnTime q = l.drawnTime q := fun s => by
        cases e with
        | left => rfl
        | right => rfl
      rcases matchEnds_begins ((generating_setSide l e { l.side e with waiting := some c }).trans hg) q with
        hidle | ⟨g, hb, ht⟩
      · exact .inl hidle
      · exact .inr ⟨g, ⟨hb.underway, by rw [hb.ticket, ticket_setSide], hb.timers, hb.replies⟩, ht.trans (hsame _)⟩

/-- No call is answered with a pair at once. -/
theorem Accepts.pair?_eq_none {c : LinkCall} {es : List LinkEffect} (h : Accepts l l' e c es) :
    ∀ r ∈ LinkEffect.replies es, r.2.pair? = none := by
  intro r hr
  cases h with
  | waits hes hn hw hf hm =>
    rw [hes] at hr
    exact nomatch hr
  | turned hw hj =>
    rcases hj.eq_of_mem hr with rfl | rfl
    · rfl
    · rfl

/-! Ending. -/

/-- What both ends are told when the time of a generation has passed. -/
structure Settles (g : Generation) (x : LinkMoment) : Prop where
  made : ¬ g.Late → ∃ p : Pair, p.duration = g.time ∧
    ∀ e, ∃ reading, x.answersTo e = [.pair { p with reading := reading }]
  late : g.Late → ∀ e, ∃ kind, x.answersTo e = [.refused .timeout kind]

theorem fire_complete_replies (h : l.underway? = some g) (q : QuantumState) :
    ∃ (p : Pair) (reading : Option PairReading), p.duration = g.time ∧
      LinkEffect.replies (l.fire (.complete l.ticket) q).1.1 =
        [(g.creator.1, .pair p), (g.receiver.1, .pair { p with reading := reading })] := by
  obtain ⟨hg, hm, ht⟩ := underway?_eq_some.1 h
  have hm' : ({ l with generating := false } : Link).matched? = some (g.creator, g.receiver) := hm
  unfold fire
  dsimp only
  rw [if_pos ⟨hg, rfl⟩, hm']
  exact ⟨_, _, ht.symm, rfl⟩

theorem fire_timeout_replies (hg : l.generating = true) (q : QuantumState) :
    ∀ r ∈ LinkEffect.replies (l.fire (.timeout l.ticket) q).1.1, ∃ kind, r.2 = .refused .timeout kind := by
  intro r hr
  unfold fire at hr
  dsimp only at hr
  rw [if_pos ⟨hg, rfl⟩] at hr
  simp only [refuseBoth, replies_append, replies_refuse, List.mem_append, Option.mem_toList,
    Option.map_eq_some_iff] at hr
  rcases hr with ⟨c, -, rfl⟩ | ⟨c, -, rfl⟩
  · exact ⟨_, rfl⟩
  · exact ⟨_, rfl⟩

/-- Whoever is answered when an event falls due has waited. -/
theorem fire_replies (hl : l.Matched) (event : LinkEvent) (q : QuantumState) :
    Replies l (l.fire event q).1.2 (l.fire event q).1.1 := by
  rcases fire_cases hl event q with ⟨hnone, hsame⟩ | ⟨-, _, _, hj⟩
  · rw [hsame]
    exact .of_same (fun _ => rfl) (fun _ => rfl) hnone
  · exact hj.toReplies

/-- The event of the generation under way ends it. -/
theorem fire_settles (hl : l.Matched) (h : l.underway? = some g) (q : QuantumState)
    (hx : x.replies = LinkEffect.replies (l.fire (g.event l.ticket) q).1.1) :
    Settles g x ∧ (l.fire (g.event l.ticket) q).1.2.generating = false := by
  obtain ⟨hg, hm, -⟩ := underway?_eq_some.1 h
  obtain ⟨first, second, hj⟩ : ∃ first second,
      Joins l (l.fire (g.event l.ticket) q).1.2 (l.fire (g.event l.ticket) q).1.1 first second := by
    rcases fire_cases hl (g.event l.ticket) q with ⟨hnone, hsame⟩ | ⟨-, hj⟩
    · -- Both ends are answered, so something has happened.
      rcases fire_of_live hl hg (g.ticket_event l.ticket) q with hmakes | ⟨-, -, hidle, -⟩
      · exact nomatch (hsame ▸ hmakes.idle).symm.trans hg
      · exact nomatch (hsame ▸ hidle).symm.trans hg
    · exact hj
  refine ⟨⟨fun hlate => ?_, fun hlate e => ?_⟩, hj.idle⟩
  · have hev : g.event l.ticket = .complete l.ticket := if_neg hlate
    rw [hev] at hx hj
    obtain ⟨p, reading, hp, hreplies⟩ := fire_complete_replies h q
    refine ⟨p, hp, fun e => ?_⟩
    rcases LinkEnd.eq_or_opposite g.creator.1 e with rfl | rfl
    · exact ⟨p.reading, hj.answersTo_eq hx (by rw [hreplies]; exact List.mem_cons_self)⟩
    · refine ⟨reading, hj.answersTo_eq hx ?_⟩
      rw [hreplies, (matched?_cases hm).1]
      exact List.mem_cons_of_mem _ List.mem_cons_self
  · have hev : g.event l.ticket = .timeout l.ticket := if_pos hlate
    rw [hev] at hx hj
    have hkind := fire_timeout_replies hg q
    cases e with
    | left =>
      obtain ⟨kind, hk⟩ := hkind _ hj.left
      exact ⟨kind, hj.answersTo_eq hx (hk ▸ hj.left)⟩
    | right =>
      obtain ⟨kind, hk⟩ := hkind _ hj.right
      exact ⟨kind, hj.answersTo_eq hx (hk ▸ hj.right)⟩

/-- An end that gives up while a generation is under way ends the calls of both. -/
theorem abort_answersTo (h : l.underway? = some g) (o : LinkEnd)
    (hx : x.replies = LinkEffect.replies (l.abort o).1) (e : LinkEnd) :
    x.answersTo e = [.refused .aborted .keep] :=
  (l.abort_aborts o).answersTo_eq hx ((l.abort_aborts o).reply (waiting_of_underway h e))

end Link

end QuantumNode
