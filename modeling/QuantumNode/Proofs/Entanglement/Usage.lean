import Mathlib.Data.List.Nodup
import QuantumNode.Proofs.Entanglement.Link

/-! What happens at a link while its ends call, are answered and give up, and the events that it has scheduled fall due
in whatever order: who is answered with what, and which events still count. -/
namespace QuantumNode

def LinkEvent.ticket : LinkEvent → Nat
  | complete ticket | timeout ticket => ticket

def LinkEffect.event? : LinkEffect → Option LinkEvent
  | .schedule _ e => some e
  | _ => none

/-- The events that are scheduled among effects, in order. -/
def LinkEffect.events (es : List LinkEffect) : List LinkEvent := es.filterMap LinkEffect.event?

def LinkAnswer.pair? : LinkAnswer → Option Pair
  | pair p => some p
  | refused .. => none

namespace Link

variable {l l' : Link} {e o : LinkEnd}

/-- Each end is answered once. -/
theorem Joins.eq_of_mem {es : List LinkEffect} {first second : LinkAnswer} (h : Joins l l' es first second)
    {r : LinkEnd × LinkAnswer} (hr : r ∈ LinkEffect.replies es) : r = (.left, first) ∨ r = (.right, second) := by
  obtain ⟨o, a⟩ := r
  cases o with
  | left => exact .inl (List.inj_on_of_nodup_map h.nodup hr h.left rfl)
  | right => exact .inr (List.inj_on_of_nodup_map h.nodup hr h.right rfl)

/-! Generations. -/

/-- What an operation does to the generation under way, if it makes no pair: nothing, it begins one and schedules its
end under a new ticket, or it stops one. -/
inductive Paces (l l' : Link) (es : List LinkEffect) : Prop where
  | stays (hg : l'.generating = l.generating) (ht : l'.ticket = l.ticket) (he : LinkEffect.events es = [])
  | begins (event : LinkEvent) (hg : l.generating = false) (ht : l'.ticket = l.ticket + 1)
      (he : LinkEffect.events es = [event]) (hev : event.ticket = l'.ticket)
  | halts (hg : l'.generating = false) (ht : l.ticket ≤ l'.ticket) (he : LinkEffect.events es = [])

/-- Tickets grow. -/
theorem Paces.ticket_le {es : List LinkEffect} (h : Paces l l' es) : l.ticket ≤ l'.ticket := by
  cases h with
  | stays hg ht he => exact Nat.le_of_eq ht.symm
  | begins event hg ht he hev => exact ht ▸ Nat.le_succ _
  | halts hg ht he => exact ht

@[simp] theorem events_append (es fs : List LinkEffect) :
    LinkEffect.events (es ++ fs) = LinkEffect.events es ++ LinkEffect.events fs :=
  List.filterMap_append

@[simp] theorem events_cons_log (level : LogLevel) (text : String) (es : List LinkEffect) :
    LinkEffect.events (.log level text :: es) = LinkEffect.events es := rfl

@[simp] theorem ticket_setSide (l : Link) (e : LinkEnd) (s : LinkSide) : (l.setSide e s).ticket = l.ticket := by
  cases e with
  | left => rfl
  | right => rfl

@[simp] theorem generated_setSide (l : Link) (e : LinkEnd) (s : LinkSide) :
    (l.setSide e s).generated = l.generated := by
  cases e with
  | left => rfl
  | right => rfl

/-- A refusal of what waits at an end is all that happens. -/
theorem refuse_counts (l : Link) (e : LinkEnd) (answer : LinkCall → LinkAnswer) :
    LinkEffect.events (l.refuse e answer).1 = [] ∧ (l.refuse e answer).2.generating = l.generating ∧
      (l.refuse e answer).2.ticket = l.ticket ∧ (l.refuse e answer).2.generated = l.generated := by
  rw [refuse_eq]
  refine ⟨?_, generating_settle l e, ticket_setSide .., generated_setSide ..⟩
  cases l.waiting e with
  | none => rfl
  | some c => rfl

theorem refuseBoth_counts (l : Link) (cause : LinkRefusal) :
    LinkEffect.events (l.refuseBoth cause).1 = [] ∧ (l.refuseBoth cause).2.generating = l.generating ∧
      (l.refuseBoth cause).2.ticket = l.ticket ∧ (l.refuseBoth cause).2.generated = l.generated := by
  unfold refuseBoth
  dsimp only
  obtain ⟨h₁, h₂, h₃, h₄⟩ := l.refuse_counts .left fun c => .refused cause c.request.kind
  obtain ⟨k₁, k₂, k₃, k₄⟩ := (l.refuse .left fun c => .refused cause c.request.kind).2.refuse_counts .right
    fun c => .refused cause c.request.kind
  exact ⟨by rw [events_append, h₁, k₁]; rfl, k₂.trans h₂, k₃.trans h₃, k₄.trans h₄⟩

theorem abortOther_counts (l : Link) (o : LinkEnd) (b : Bool) :
    LinkEffect.events (l.abortOther o b).1 = [] ∧ (l.abortOther o b).2.ticket = l.ticket ∧
      (l.abortOther o b).2.generated = l.generated := by
  unfold abortOther
  split
  · obtain ⟨h₁, -, h₃, h₄⟩ := l.refuse_counts o fun _ => .refused .aborted .keep
    exact ⟨h₁, h₃, h₄⟩
  · split
    · exact ⟨rfl, ticket_setSide .., generated_setSide ..⟩
    · exact ⟨rfl, rfl, rfl⟩

theorem abort_events (l : Link) (e : LinkEnd) : LinkEffect.events (l.abort e).1 = [] := by
  unfold abort
  dsimp only
  rw [List.cons_append, events_cons_log, events_append, (refuse_counts ..).1, (abortOther_counts ..).1]
  rfl

/-- Whoever gives up stops the generation under way. -/
theorem abort_paces (l : Link) (e : LinkEnd) :
    Paces l (l.abort e).2 (l.abort e).1 ∧ (l.abort e).2.generated = l.generated := by
  have hidle := (abort_aborts l e).idle
  have he := abort_events l e
  unfold abort at hidle he ⊢
  dsimp only at hidle he ⊢
  generalize hl : (if l.generating = true then { l with generating := false, ticket := l.ticket + 1 } else l) = l₁
  have h₁ : l.ticket ≤ l₁.ticket ∧ l₁.generated = l.generated := by
    subst hl
    split
    · exact ⟨Nat.le_succ _, rfl⟩
    · exact ⟨Nat.le_refl _, rfl⟩
  rw [hl] at hidle he
  obtain ⟨-, -, ht, hn⟩ := l₁.refuse_counts e fun _ => .refused .aborted .keep
  obtain ⟨-, ht', hn'⟩ := (l₁.refuse e fun _ => .refused .aborted .keep).2.abortOther_counts e.opposite
    ((l.side e).waiting.isSome || l.generating)
  refine ⟨.halts hidle ?_ he, hn'.trans (hn.trans h₁.2)⟩
  rw [ht', ht]
  exact h₁.1

/-- A generation begins under a new ticket. -/
theorem generate_paces (l : Link) (hg : l.generating = false) (r : PairRequest) (cycles : Nat) :
    Paces l (l.generate r cycles).2 (l.generate r cycles).1 ∧ (l.generate r cycles).2.generated = l.generated := by
  unfold generate
  dsimp only
  split
  · exact ⟨.begins (.timeout (l.ticket + 1)) hg rfl rfl rfl, rfl⟩
  · exact ⟨.begins (.complete (l.ticket + 1)) hg rfl rfl rfl, rfl⟩

theorem matchEnds_paces (l : Link) (q : QuantumState) :
    Paces l (l.matchEnds q).1.2 (l.matchEnds q).1.1 ∧ (l.matchEnds q).1.2.generated = l.generated := by
  unfold matchEnds
  split
  · rename_i a b hg ha hb
    obtain ⟨he, hg', ht, hn⟩ := l.refuseBoth_counts .rejected
    have hrejected : ∀ level text, Paces l (saying level text (l.refuseBoth .rejected)).2
        (saying level text (l.refuseBoth .rejected)).1 ∧
          (saying level text (l.refuseBoth .rejected)).2.generated = l.generated := fun _ _ => ⟨.stays hg' ht he, hn⟩
    split
    · exact hrejected _ _
    · dsimp only
      generalize (if a.role = PairRole.create then a.request else b.request) = request
      split
      · exact hrejected _ _
      · exact l.generate_paces hg _ _
  · exact ⟨.stays rfl rfl rfl, rfl⟩

/-- A call that is accepted may begin a generation. -/
theorem request_paces {c : LinkCall} {q q' : QuantumState} {es : List LinkEffect}
    (h : l.request e c q = .ok (.accepted es l' q')) : Paces l l' es ∧ l'.generated = l.generated := by
  unfold request at h
  dsimp only at h
  split at h
  · exact nomatch h
  · split at h
    · exact nomatch h
    · cases h
      have hm := (l.setSide e { l.side e with waiting := some c }).matchEnds_paces q
      refine ⟨?_, hm.2.trans (generated_setSide ..)⟩
      cases hm.1 with
      | stays hg ht he => exact .stays (hg.trans (generating_setSide ..)) (ht.trans (ticket_setSide ..)) he
      | begins event hg ht he hev =>
        exact .begins event ((generating_setSide ..).symm.trans hg) (by rw [ht, ticket_setSide]) he hev
      | halts hg ht he => exact .halts hg (by rwa [ticket_setSide] at ht) he

/-! Events that fall due. -/

/-- An event whose ticket is not that of a generation under way changes nothing. -/
theorem fire_of_stale {event : LinkEvent} (h : ¬ (l.generating = true ∧ event.ticket = l.ticket)) (q : QuantumState) :
    l.fire event q = (([], l), q) := by
  cases event with
  | complete ticket => exact if_neg h
  | timeout ticket => exact if_neg h

theorem fire_events (l : Link) (event : LinkEvent) (q : QuantumState) :
    LinkEffect.events (l.fire event q).1.1 = [] := by
  cases event with
  | complete ticket =>
    unfold fire
    dsimp only
    split
    · split
      · rfl
      · rfl
    · rfl
  | timeout ticket =>
    unfold fire
    dsimp only
    split
    · exact (refuseBoth_counts ..).1
    · rfl

/-- The two ends get a pair each that differ only in the outcomes at their halves, for the calls that wait there. -/
structure Makes (l l' : Link) (es : List LinkEffect) : Prop where
  replies : ∃ creator p p' c, l.waiting creator = some c ∧ c.role = .create ∧
    LinkEffect.replies es = [(creator, .pair p), (creator.opposite, .pair p')] ∧
    { p with reading := none } = { p' with reading := none } ∧ p.kind = c.request.kind ∧ p.createId = l.generated ∧
    p.sequence = l.generated
  idle : l'.generating = false
  ticket : l'.ticket = l.ticket
  generated : l'.generated = l.generated + 1
  events : LinkEffect.events es = []

/-- The time of a generation under way has passed: both ends are answered, with a pair each or with a refusal. -/
theorem fire_of_live (hm : l.Matched) {event : LinkEvent} (hg : l.generating = true) (ht : event.ticket = l.ticket)
    (q : QuantumState) : Makes l (l.fire event q).1.2 (l.fire event q).1.1 ∨
      (Paces l (l.fire event q).1.2 (l.fire event q).1.1 ∧ (l.fire event q).1.2.generated = l.generated ∧
        (l.fire event q).1.2.generating = false ∧ ∀ r ∈ LinkEffect.replies (l.fire event q).1.1, r.2.pair? = none) := by
  obtain ⟨a, b, ha, hb, hr⟩ := hm hg
  cases event with
  | complete ticket =>
    have hdue : l.generating = true ∧ ticket = l.ticket := ⟨hg, ht⟩
    have ha' : l.left.waiting = some a := ha
    have hb' : l.right.waiting = some b := hb
    left
    simp only [fire, if_pos hdue, matched?, ha', hb']
    cases hra : a.role with
    | create =>
      cases hrb : b.role with
      | create => exact absurd (hra.trans hrb.symm) hr
      | receive => exact ⟨⟨.left, _, _, a, ha, hra, rfl, rfl, rfl, rfl, rfl⟩, rfl, rfl, rfl, rfl⟩
    | receive =>
      cases hrb : b.role with
      | create => exact ⟨⟨.right, _, _, b, hb, hrb, rfl, rfl, rfl, rfl, rfl⟩, rfl, rfl, rfl, rfl⟩
      | receive => exact absurd (hra.trans hrb.symm) hr
  | timeout ticket =>
    have hfire : l.fire (.timeout ticket) q = (({ l with generating := false } : Link).refuseBoth .timeout, q) :=
      if_pos ⟨hg, ht⟩
    right
    rw [hfire]
    obtain ⟨he, hg', ht', hn⟩ := ({ l with generating := false } : Link).refuseBoth_counts .timeout
    have hj := refuseBoth_joins (l := { l with generating := false }) ha hb (by decide : LinkRefusal.timeout ≠ .aborted) rfl
    refine ⟨.halts hg' (Nat.le_of_eq ht'.symm) he, hn, hg', fun r hr => ?_⟩
    rcases hj.eq_of_mem hr with rfl | rfl
    · rfl
    · rfl

end Link

/-! Histories. -/

/-- What may happen at a link: an end calls, an end gives up, or an event that has been scheduled falls due. -/
inductive LinkAct where
  | call (e : LinkEnd) (c : LinkCall)
  | abort (e : LinkEnd)
  | fire (event : LinkEvent)

/-- Something that has happened at a link, with the answers and the events that it has brought. -/
structure LinkMoment where
  act : LinkAct
  replies : List (LinkEnd × LinkAnswer)
  events : List LinkEvent

namespace LinkMoment

def isCall (e : LinkEnd) (x : LinkMoment) : Bool :=
  match x.act with
  | .call o _ => o = e
  | _ => false

/-- The answers to an end. -/
def answersTo (e : LinkEnd) (x : LinkMoment) : List LinkAnswer := (x.replies.filter (·.1 = e)).map Prod.snd

/-- Nobody calls, gives up or is answered. -/
def Silent (x : LinkMoment) : Prop := x.replies = [] ∧ ∃ event, x.act = .fire event

end LinkMoment

namespace Link

variable {past : List LinkMoment} {l l' : Link} {e : LinkEnd}

/-- How many calls an end has made. -/
def calls (past : List LinkMoment) (e : LinkEnd) : Nat := past.countP (·.isCall e)

/-- The answers that an end has got, latest first. -/
def answers (past : List LinkMoment) (e : LinkEnd) : List LinkAnswer := past.flatMap (·.answersTo e)

/-- Histories of a link, latest first, with the events that are still to fall due and the link that results. An end calls
only if each earlier call of it has been answered. Events fall due in any order, and whatever else happens to the quantum
state in between. -/
inductive Usage (l₀ : Link) : List LinkMoment → List LinkEvent → Link → Prop where
  | new : Usage l₀ [] [] l₀
  | refused {past : List LinkMoment} {due : List LinkEvent} {l l' : Link} {e : LinkEnd} {c : LinkCall}
      {q : QuantumState} {a : LinkAnswer} (h : Usage l₀ past due l) (hc : calls past e = (answers past e).length)
      (hr : l.request e c q = .ok (.refused a l')) : Usage l₀ (⟨.call e c, [(e, a)], []⟩ :: past) due l'
  | accepted {past : List LinkMoment} {due : List LinkEvent} {l l' : Link} {e : LinkEnd} {c : LinkCall}
      {q q' : QuantumState} {es : List LinkEffect} (h : Usage l₀ past due l)
      (hc : calls past e = (answers past e).length) (hr : l.request e c q = .ok (.accepted es l' q')) :
      Usage l₀ (⟨.call e c, LinkEffect.replies es, LinkEffect.events es⟩ :: past) (LinkEffect.events es ++ due) l'
  | abort {past : List LinkMoment} {due : List LinkEvent} {l : Link} (h : Usage l₀ past due l) (e : LinkEnd) :
      Usage l₀ (⟨.abort e, LinkEffect.replies (l.abort e).1, []⟩ :: past) due (l.abort e).2
  | fire {past : List LinkMoment} {due : List LinkEvent} {l : Link} {event : LinkEvent} (h : Usage l₀ past due l)
      (hd : event ∈ due) (q : QuantumState) :
      Usage l₀ (⟨.fire event, LinkEffect.replies (l.fire event q).1.1, []⟩ :: past) (due.erase event)
        (l.fire event q).1.2

/-- The latest call of an end. -/
def lastCall (e : LinkEnd) : List LinkMoment → Option LinkCall
  | [] => none
  | x :: past =>
    match x.act with
    | .call o c => if o = e then some c else lastCall e past
    | _ => lastCall e past

/-- Since an event was scheduled nobody has called, given up or been answered. -/
def Fresh (past : List LinkMoment) (event : LinkEvent) : Prop :=
  ∃ since x before, past = since ++ x :: before ∧ event ∈ x.events ∧ ∀ y ∈ since, y.Silent

/-- An event that brings answers answers the calls for which it was scheduled. Pairs come in twos, one for each end, for
the latest calls of the ends, of which one creates and the other receives. -/
structure Proper (x : LinkMoment) (before : List LinkMoment) : Prop where
  own : ∀ event, x.act = .fire event → x.replies ≠ [] → Fresh before event
  paired : ∀ e p, (e, LinkAnswer.pair p) ∈ x.replies → ∃ creator c c' p', lastCall creator before = some c ∧
    c.role = .create ∧ lastCall creator.opposite before = some c' ∧ c'.role = .receive ∧ p.kind = c.request.kind ∧
    x.replies.Perm [(e, .pair p), (e.opposite, .pair p')] ∧ ({ p with reading := none } : Pair) = { p' with reading := none }

/-- What holds along a history. -/
structure Usage.Sound (past : List LinkMoment) (due : List LinkEvent) (l : Link) : Prop where
  matched : l.Matched
  outstanding : ∀ e, calls past e = (answers past e).length + (l.waiting e).toList.length
  latest : ∀ e c, l.waiting e = some c → lastCall e past = some c
  nodup : (due.map LinkEvent.ticket).Nodup
  tickets : ∀ event ∈ due, event.ticket ≤ l.ticket
  live : l.generating = true → ∃ event ∈ due, event.ticket = l.ticket ∧ Fresh past event
  sequences : ∀ e, (answers past e).filterMap (fun a => a.pair?.map Pair.sequence) = (List.range l.generated).reverse
  proper : ∀ x before, x :: before <:+ past → Proper x before

section

variable {due due' : List LinkEvent} {x : LinkMoment}

theorem answers_cons (x : LinkMoment) (past : List LinkMoment) (e : LinkEnd) :
    answers (x :: past) e = x.answersTo e ++ answers past e := rfl

theorem calls_cons (x : LinkMoment) (past : List LinkMoment) (e : LinkEnd) :
    calls (x :: past) e = calls past e + if x.isCall e then 1 else 0 := List.countP_cons

/-- An end that is answered is answered once; it has waited and waits no longer. -/
theorem Replies.length_answersTo {es : List LinkEffect} (h : Replies l l' es) (hx : x.replies = LinkEffect.replies es)
    (e : LinkEnd) : (x.answersTo e).length + (l'.waiting e).toList.length = (l.waiting e).toList.length := by
  have hcount : (x.answersTo e).length = ((LinkEffect.replies es).map Prod.fst).count e := by
    unfold LinkMoment.answersTo
    rw [List.length_map, ← List.countP_eq_length_filter, hx, List.count, List.countP_map]
    exact List.countP_congr fun r _ => by simp
  by_cases hmem : ∃ a, (e, a) ∈ LinkEffect.replies es
  · obtain ⟨a, ha⟩ := hmem
    obtain ⟨hw, hw'⟩ := h.answered e a ha
    obtain ⟨c, hc⟩ := Option.isSome_iff_exists.1 hw
    rw [hcount, List.count_eq_one_of_mem h.nodup (List.mem_map.2 ⟨_, ha, rfl⟩), hw', hc]
    rfl
  · have hnone : ∀ a, (e, a) ∉ LinkEffect.replies es := fun a ha => hmem ⟨a, ha⟩
    have hzero : ((LinkEffect.replies es).map Prod.fst).count e = 0 := by
      refine List.count_eq_zero.2 fun he => ?_
      obtain ⟨⟨o, a⟩, ha, rfl⟩ := List.mem_map.1 he
      exact hnone a ha
    rw [hcount, hzero, h.unanswered e hnone, Nat.zero_add]

/-- A moment without pairs adds nothing to the pairs that an end has got. -/
theorem sequences_of_none (h : ∀ r ∈ x.replies, r.2.pair? = none) (e : LinkEnd) :
    (answers (x :: past) e).filterMap (fun a => a.pair?.map Pair.sequence) =
      (answers past e).filterMap fun a => a.pair?.map Pair.sequence := by
  rw [answers_cons, List.filterMap_append]
  have hnil : (x.answersTo e).filterMap (fun a => a.pair?.map Pair.sequence) = [] := by
    refine List.filterMap_eq_nil_iff.2 fun a ha => ?_
    obtain ⟨r, hr, rfl⟩ := List.mem_map.1 ha
    rw [h r (List.mem_filter.1 hr).1]
    rfl
  rw [hnil, List.nil_append]

theorem Proper.of_none {before : List LinkMoment} (h : ∀ r ∈ x.replies, r.2.pair? = none)
    (ho : ∀ event, x.act = .fire event → x.replies ≠ [] → Fresh before event) : Proper x before :=
  ⟨ho, fun _ _ hp => nomatch (h _ hp)⟩

theorem Fresh.cons {event : LinkEvent} (h : Fresh past event) (hx : x.Silent) : Fresh (x :: past) event := by
  obtain ⟨since, y, before, rfl, hy, hs⟩ := h
  refine ⟨x :: since, y, before, rfl, hy, fun z hz => ?_⟩
  rcases List.mem_cons.1 hz with rfl | hz
  · exact hx
  · exact hs z hz

theorem proper_cons (hx : Proper x past) (h : ∀ y before, y :: before <:+ past → Proper y before) :
    ∀ y before, y :: before <:+ x :: past → Proper y before := by
  intro y before hy
  rcases List.suffix_cons_iff.1 hy with heq | hs
  · obtain ⟨rfl, rfl⟩ := List.cons.inj heq
    exact hx
  · exact h y before hs

/-- An end that waits has not been answered, so it does not call in turn. -/
theorem Usage.Sound.waiting_of_turn (h : Sound past due l) (hc : calls past e = (answers past e).length) :
    l.waiting e = none := by
  have := h.outstanding e
  cases hw : l.waiting e with
  | none => rfl
  | some c =>
    rw [hw] at this
    change _ = _ + 1 at this
    omega

theorem Usage.Sound.refused (h : Sound past due l) {c : LinkCall} {q : QuantumState} {a : LinkAnswer}
    (hr : l.request e c q = .ok (.refused a l')) : Sound (⟨.call e c, [(e, a)], []⟩ :: past) due l' := by
  obtain ⟨hw, -, rfl, rfl⟩ := request_cases h.matched hr
  have hwait : ∀ o, (l.setSide e { l.side e with abortPending := false }).waiting o = l.waiting o := fun o =>
    waiting_flag ..
  have hidle : (l.setSide e { l.side e with abortPending := false }).generating = false :=
    (generating_setSide ..).trans (h.matched.idle hw)
  refine ⟨fun hg => (nomatch hidle.symm.trans hg), fun o => ?_, fun o c' hc' => ?_, h.nodup, fun event hd => ?_,
    fun hg => (nomatch hidle.symm.trans hg), fun o => ?_, proper_cons (.of_none (fun r hr => ?_) nofun) h.proper⟩
  · rw [calls_cons, answers_cons, List.length_append, hwait, h.outstanding]
    by_cases ho : e = o
    · subst ho
      simp [LinkMoment.isCall, LinkMoment.answersTo]
      omega
    · simp [LinkMoment.isCall, LinkMoment.answersTo, ho]
  · rw [hwait] at hc'
    have hne : e ≠ o := fun he => by
      subst he
      exact nomatch hw.symm.trans hc'
    exact (if_neg hne).trans (h.latest o c' hc')
  · rw [ticket_setSide]
    exact h.tickets event hd
  · rw [sequences_of_none, h.sequences, generated_setSide]
    intro r hr
    rw [List.mem_singleton.1 hr]
    rfl
  · rw [List.mem_singleton.1 hr]
    rfl

theorem Usage.Sound.accepted (h : Sound past due l) {c : LinkCall} {q q' : QuantumState} {es : List LinkEffect}
    (hr : l.request e c q = .ok (.accepted es l' q')) :
    Sound (⟨.call e c, LinkEffect.replies es, LinkEffect.events es⟩ :: past) (LinkEffect.events es ++ due) l' := by
  obtain ⟨hw, -, ha⟩ := request_cases h.matched hr
  obtain ⟨hp, hn⟩ := request_paces hr
  have hidle : l.generating = false := h.matched.idle hw
  have hcalls : ∀ o, calls (⟨.call e c, LinkEffect.replies es, LinkEffect.events es⟩ :: past) o =
      (answers past o).length + ((l.await e c).waiting o).toList.length := by
    intro o
    rw [calls_cons, h.outstanding, waiting_await]
    by_cases ho : e = o
    · subst ho
      simp [LinkMoment.isCall, hw]
    · simp [LinkMoment.isCall, ho, Ne.symm ho]
  have hlatest : ∀ o c', (l.await e c).waiting o = some c' →
      lastCall o (⟨.call e c, LinkEffect.replies es, LinkEffect.events es⟩ :: past) = some c' := by
    intro o c' hc'
    rw [waiting_await] at hc'
    by_cases ho : e = o
    · subst ho
      rw [if_pos rfl] at hc'
      exact (if_pos rfl).trans hc'
    · rw [if_neg (Ne.symm ho)] at hc'
      exact (if_neg ho).trans (h.latest o c' hc')
  -- The call is answered together with that of the other end, if at all, and then without a pair.
  have hanswer : l'.Matched ∧ (∀ r ∈ LinkEffect.replies es, r.2.pair? = none) ∧ Replies (l.await e c) l' es := by
    cases ha with
    | waits hes hnode hw' hf hm =>
      refine ⟨hm, fun r hr => ?_, .of_same (fun o => (hnode o).trans (nodeAt_setSide ..).symm) hw' hes⟩
      rw [hes] at hr
      exact nomatch hr
    | turned hother hj =>
      refine ⟨fun hg => (nomatch hj.idle.symm.trans hg), fun r hr => ?_, hj.toReplies⟩
      rcases hj.eq_of_mem hr with rfl | rfl
      · rfl
      · rfl
  obtain ⟨hm, hnone, hreplies⟩ := hanswer
  refine ⟨hm, fun o => ?_, fun o c' hc' => ?_, ?_, ?_, fun hg => ?_, fun o => ?_,
    proper_cons (.of_none hnone nofun) h.proper⟩
  · have hlength := hreplies.length_answersTo (x := ⟨.call e c, LinkEffect.replies es, LinkEffect.events es⟩) rfl o
    rw [hcalls, answers_cons, List.length_append]
    omega
  · refine hlatest o c' ?_
    by_cases hmem : ∃ a, (o, a) ∈ LinkEffect.replies es
    · obtain ⟨a, ha⟩ := hmem
      exact nomatch (hreplies.answered o a ha).2.symm.trans hc'
    · rw [← hreplies.unanswered o fun a ha => hmem ⟨a, ha⟩]
      exact hc'
  · cases hp with
    | stays hg ht he =>
      rw [he]
      exact h.nodup
    | halts hg ht he =>
      rw [he]
      exact h.nodup
    | begins event hg ht he hev =>
      rw [he]
      refine List.nodup_cons.2 ⟨fun hmem => ?_, h.nodup⟩
      obtain ⟨event', hd, heq⟩ := List.mem_map.1 hmem
      have := h.tickets event' hd
      omega
  · cases hp with
    | stays hg ht he =>
      rw [he, ht]
      exact h.tickets
    | halts hg ht he =>
      rw [he]
      exact fun event hd => Nat.le_trans (h.tickets event hd) ht
    | begins event hg ht he hev =>
      rw [he]
      intro event' hd
      rcases List.mem_cons.1 hd with rfl | hd
      · exact Nat.le_of_eq hev
      · rw [ht]
        exact Nat.le_trans (h.tickets event' hd) (Nat.le_succ _)
  · cases hp with
    | stays hg' ht he => exact nomatch (hg'.trans hidle).symm.trans hg
    | halts hg' ht he => exact nomatch hg'.symm.trans hg
    | begins event hg' ht he hev =>
      rw [he]
      exact ⟨event, List.mem_cons_self, hev, [], _, past, rfl, List.mem_cons_self, fun y hy => nomatch hy⟩
  · rw [sequences_of_none hnone, h.sequences, hn]

theorem Usage.Sound.abort (h : Sound past due l) (e : LinkEnd) :
    Sound (⟨.abort e, LinkEffect.replies (l.abort e).1, []⟩ :: past) due (l.abort e).2 := by
  have ha := l.abort_aborts e
  obtain ⟨hp, hn⟩ := l.abort_paces e
  have hnone : ∀ r ∈ LinkEffect.replies (l.abort e).1, r.2.pair? = none := by
    rintro ⟨o, a⟩ hr
    rw [ha.aborted o a hr]
    rfl
  refine ⟨fun hg => (nomatch ha.idle.symm.trans hg), fun o => ?_, fun o c hc => (nomatch (ha.ended o).symm.trans hc),
    h.nodup, fun event hd => Nat.le_trans (h.tickets event hd) hp.ticket_le, fun hg => (nomatch ha.idle.symm.trans hg),
    fun o => ?_, proper_cons (.of_none hnone nofun) h.proper⟩
  · have hlength := ha.toReplies.length_answersTo (x := ⟨.abort e, LinkEffect.replies (l.abort e).1, []⟩) rfl o
    have hcalls : calls (⟨.abort e, LinkEffect.replies (l.abort e).1, []⟩ :: past) o = calls past o := by
      rw [calls_cons]
      rfl
    rw [hcalls, h.outstanding, answers_cons, List.length_append]
    omega
  · rw [sequences_of_none hnone, h.sequences, hn]

/-- A create and a receive wait while a pair is made. -/
theorem Matched.partner (h : l.Matched) (hg : l.generating = true) {c : LinkCall} (hc : l.waiting e = some c)
    (hr : c.role = .create) : ∃ c', l.waiting e.opposite = some c' ∧ c'.role = .receive := by
  obtain ⟨a, b, ha, hb, hne⟩ := h hg
  have hreceive : ∀ role : PairRole, role ≠ .create → role = .receive := fun role h => by
    cases role with
    | create => exact absurd rfl h
    | receive => rfl
  cases e with
  | left =>
    obtain rfl : a = c := Option.some.inj (ha.symm.trans hc)
    exact ⟨b, hb, hreceive _ fun hb => hne (hr.trans hb.symm)⟩
  | right =>
    obtain rfl : b = c := Option.some.inj (hb.symm.trans hc)
    exact ⟨a, ha, hreceive _ fun ha => hne (ha.trans hr.symm)⟩

/-- Pairs are made for the calls that wait. -/
theorem Makes.paired (h : Usage.Sound past due l) (hg : l.generating = true) {es : List LinkEffect} (hm : Makes l l' es)
    (hx : x.replies = LinkEffect.replies es) {p : Pair} (hp : (e, LinkAnswer.pair p) ∈ x.replies) :
    ∃ creator c c' p', lastCall creator past = some c ∧ c.role = .create ∧ lastCall creator.opposite past = some c' ∧
      c'.role = .receive ∧ p.kind = c.request.kind ∧ x.replies.Perm [(e, .pair p), (e.opposite, .pair p')] ∧
      ({ p with reading := none } : Pair) = { p' with reading := none } := by
  obtain ⟨creator, p₁, p₂, c, hw, hr, hes, hsame, hkind, -⟩ := hm.replies
  obtain ⟨c', hw', hr'⟩ := h.matched.partner hg hw hr
  rw [hx, hes] at hp ⊢
  rcases List.mem_cons.1 hp with heq | hp
  · obtain ⟨rfl, hpair⟩ := Prod.mk.inj heq
    obtain rfl := LinkAnswer.pair.inj hpair
    exact ⟨_, c, c', p₂, h.latest _ c hw, hr, h.latest _ c' hw', hr', hkind, .refl _, hsame⟩
  · obtain ⟨rfl, hpair⟩ := Prod.mk.inj (List.mem_singleton.1 hp)
    obtain rfl := LinkAnswer.pair.inj hpair
    have hkinds : p.kind = p₁.kind := (congrArg Pair.kind hsame).symm
    refine ⟨creator, c, c', p₁, h.latest _ c hw, hr, h.latest _ c' hw', hr', hkinds.trans hkind, ?_, hsame.symm⟩
    rw [LinkEnd.opposite_opposite]
    exact .swap ..

/-- A pair adds its number to what each end has got. -/
theorem Makes.sequences {es : List LinkEffect} (hm : Makes l l' es) (hx : x.replies = LinkEffect.replies es) (e : LinkEnd) :
    (x.answersTo e).filterMap (fun a => a.pair?.map Pair.sequence) = [l.generated] := by
  obtain ⟨creator, p, p', c, -, -, hes, hsame, -, -, hseq⟩ := hm.replies
  have hseq' : p'.sequence = l.generated := (congrArg Pair.sequence hsame).symm.trans hseq
  unfold LinkMoment.answersTo
  rw [hx, hes]
  rcases LinkEnd.eq_or_opposite creator e with rfl | rfl
  · simp [LinkEnd.opposite_ne, LinkAnswer.pair?, hseq]
  · simp [Ne.symm (LinkEnd.opposite_ne creator), LinkAnswer.pair?, hseq']

theorem Usage.Sound.fire (h : Sound past due l) {event : LinkEvent} (hd : event ∈ due) (q : QuantumState) :
    Sound (⟨.fire event, LinkEffect.replies (l.fire event q).1.1, []⟩ :: past) (due.erase event) (l.fire event q).1.2 := by
  have hnodup : ((due.erase event).map LinkEvent.ticket).Nodup :=
    h.nodup.sublist ((List.erase_sublist).map _)
  have hcalls : ∀ replies o, calls (⟨.fire event, replies, []⟩ :: past) o = calls past o := by
    intro replies o
    rw [calls_cons]
    rfl
  by_cases hlive : l.generating = true ∧ event.ticket = l.ticket
  · obtain ⟨hg, ht⟩ := hlive
    -- Of the events that are still to come only this one counts.
    have hfresh : Fresh past event := by
      obtain ⟨event', hd', ht', hf⟩ := h.live hg
      exact List.inj_on_of_nodup_map h.nodup hd hd' (ht.trans ht'.symm) ▸ hf
    have hown : ∀ event', LinkAct.fire event = .fire event' → Fresh past event' := by
      rintro event' ⟨⟩
      exact hfresh
    have hfire := fire_of_live h.matched hg ht q
    have hidle : (l.fire event q).1.2.generating = false := by
      rcases hfire with hm | ⟨-, -, hg', -⟩
      · exact hm.idle
      · exact hg'
    obtain ⟨first, second, hj⟩ : ∃ first second, Joins l (l.fire event q).1.2 (l.fire event q).1.1 first second := by
      rcases fire_cases h.matched event q with ⟨-, hsame⟩ | ⟨-, hj⟩
      · rw [hsame, hg] at hidle
        exact nomatch hidle
      · exact hj
    have hle : l.ticket ≤ (l.fire event q).1.2.ticket := by
      rcases hfire with hm | ⟨hp, -⟩
      · exact Nat.le_of_eq hm.ticket.symm
      · exact hp.ticket_le
    refine ⟨fun hg => (nomatch hidle.symm.trans hg), fun o => ?_, fun o c hc => (nomatch (hj.ended o).symm.trans hc),
      hnodup, fun event' hd' => ?_, fun hg => (nomatch hidle.symm.trans hg), fun o => ?_, proper_cons ?_ h.proper⟩
    · have hlength := hj.toReplies.length_answersTo
        (x := ⟨.fire event, LinkEffect.replies (l.fire event q).1.1, []⟩) rfl o
      rw [hcalls, h.outstanding, answers_cons, List.length_append]
      omega
    · exact Nat.le_trans (h.tickets event' (List.mem_of_mem_erase hd')) hle
    · rcases hfire with hm | ⟨-, hn, -, hnone⟩
      · rw [answers_cons, List.filterMap_append, hm.sequences rfl, h.sequences, hm.generated, List.range_succ,
          List.reverse_concat]
        rfl
      · rw [sequences_of_none hnone, h.sequences, hn]
    · rcases hfire with hm | ⟨-, -, -, hnone⟩
      · exact ⟨fun event' he _ => hown event' he, fun o p hp => hm.paired h hg rfl hp⟩
      · exact .of_none hnone fun event' he _ => hown event' he
  · rw [fire_of_stale hlive]
    refine ⟨h.matched, fun o => ?_, fun o c hc => h.latest o c hc, hnodup, fun event' hd' => ?_, fun hg => ?_, fun o => ?_,
      proper_cons (.of_none (fun r hr => nomatch hr) fun _ _ hne => absurd rfl hne) h.proper⟩
    · rw [hcalls]
      exact h.outstanding o
    · exact h.tickets event' (List.mem_of_mem_erase hd')
    · obtain ⟨event', hd', ht', hf⟩ := h.live hg
      have hne : event' ≠ event := fun he => hlive ⟨hg, he ▸ ht'⟩
      exact ⟨event', (List.mem_erase_of_ne hne).2 hd', ht', hf.cons ⟨rfl, event, rfl⟩⟩
    · exact h.sequences o

end

section

variable {config : LinkConfig} {a b : Nat} {due : List LinkEvent}

/-- What holds along a history holds of every history of a link that has been unused. -/
theorem Usage.sound (h : Usage (.new config a b) past due l) : Sound past due l := by
  induction h with
  | new =>
    refine ⟨nofun, fun e => ?_, fun e c hc => ?_, List.nodup_nil, nofun, nofun, fun e => rfl, fun x before hx => ?_⟩
    · cases e with
      | left => rfl
      | right => rfl
    · cases e with
      | left => exact nomatch hc
      | right => exact nomatch hc
    · exact nomatch List.suffix_nil.1 hx
  | refused h hc hr ih => exact ih.refused hr
  | accepted h hc hr ih => exact ih.accepted hr
  | abort h e ih => exact ih.abort e
  | fire h hd q ih => exact ih.fire hd q

/-- What has come before in a history is a history. -/
theorem Usage.of_suffix {l₀ : Link} (h : Usage l₀ past due l) {before : List LinkMoment} (hs : before <:+ past) :
    ∃ due' l', Usage l₀ before due' l' := by
  have hcons : ∀ {x : LinkMoment} {past : List LinkMoment} {due : List LinkEvent} {l : Link}, Usage l₀ (x :: past) due l →
      (before <:+ past → ∃ due' l', Usage l₀ before due' l') → before <:+ x :: past →
      ∃ due' l', Usage l₀ before due' l' := by
    intro x past due l h ih hs
    rcases List.suffix_cons_iff.1 hs with rfl | hs
    · exact ⟨due, l, h⟩
    · exact ih hs
  induction h with
  | new => exact ⟨[], l₀, List.suffix_nil.1 hs ▸ .new⟩
  | refused h hc hr ih => exact hcons (.refused h hc hr) ih hs
  | accepted h hc hr ih => exact hcons (.accepted h hc hr) ih hs
  | abort h e ih => exact hcons (.abort h e) ih hs
  | fire h hd q ih => exact hcons (.fire h hd q) ih hs

/-- The safety of a link, along every history of it. A pair is under way only while both ends wait, one with a create and
the other with a receive, and then exactly one of the events that are still to fall due counts. A call that is made in turn
is taken, and at each moment an end has got as many answers as it has made calls, or one fewer. Answers go to the calls
for which they are meant, pairs come in twos that agree, and each end gets pairs number 0, 1, 2 and so on. An event with
any other ticket than that of the generation under way changes nothing. -/
theorem every_call_gets_its_answer (h : Usage (.new config a b) past due l) :
    (l.generating = true → (∃ x y, l.waiting .left = some x ∧ l.waiting .right = some y ∧
        (x.role = .create ∧ y.role = .receive ∨ x.role = .receive ∧ y.role = .create)) ∧
      ∃ event ∈ due, event.ticket = l.ticket ∧ ∀ event' ∈ due, event'.ticket = l.ticket → event' = event) ∧
      (∀ e, calls past e = (answers past e).length → ∀ c q, ∃ r, l.request e c q = .ok r) ∧
      (∀ before, before <:+ past → ∀ e,
        (answers before e).length ≤ calls before e ∧ calls before e ≤ (answers before e).length + 1) ∧
      (∀ x before, x :: before <:+ past → Proper x before) ∧
      (∀ e, (answers past e).filterMap (fun a => a.pair?.map Pair.sequence) = (List.range l.generated).reverse) ∧
      ∀ event q, ¬ (l.generating = true ∧ event.ticket = l.ticket) → l.fire event q = (([], l), q) := by
  have hs := h.sound
  refine ⟨fun hg => ⟨?_, ?_⟩, fun e hc c q => ?_, fun before hb e => ?_, hs.proper, hs.sequences,
    fun event q hstale => fire_of_stale hstale q⟩
  · obtain ⟨x, y, hx, hy, hne⟩ := hs.matched hg
    refine ⟨x, y, hx, hy, ?_⟩
    cases hrx : x.role with
    | create =>
      obtain ⟨y', hy', hry⟩ := hs.matched.partner hg hx hrx
      obtain rfl : y = y' := Option.some.inj (hy.symm.trans hy')
      exact .inl ⟨rfl, hry⟩
    | receive =>
      cases hry : y.role with
      | create => exact .inr ⟨rfl, rfl⟩
      | receive => exact absurd (hrx.trans hry.symm) hne
  · obtain ⟨event, hd, ht, -⟩ := hs.live hg
    exact ⟨event, hd, ht, fun event' hd' ht' => List.inj_on_of_nodup_map hs.nodup hd' hd (ht'.trans ht.symm)⟩
  · exact request_ok (hs.waiting_of_turn hc) c q
  · obtain ⟨due', l', h'⟩ := h.of_suffix hb
    have hcount := h'.sound.outstanding e
    have hle : (l'.waiting e).toList.length ≤ 1 := Option.length_toList_le
    omega

end

/-- A first generation is given up, a second is begun, and only then the event of the first falls due. -/
theorem every_call_gets_its_answer_after_abort : ∃ past due l, Usage (.new (.standard "a" "b") 0 1) past due l ∧
    past.length = 7 ∧ l.generated = 1 ∧ ∀ e, (answers past e).filterMap (fun a => a.pair?.map Pair.sequence) = [0] := by
  obtain ⟨q⟩ : Nonempty QuantumState := ⟨⟨.zero 2, .ofSeed 42⟩⟩
  have unused : Usage (.new (.standard "a" "b") 0 1) [] [] (.new (.standard "a" "b") 0 1) := .new
  have create := unused.accepted (e := .left) (c := .create .standard 0) (q := q) rfl rfl
  have receive := create.accepted (e := .right) (c := .receive 1) (q := q) rfl rfl
  -- How long a generation takes is of no account.
  obtain ⟨time, abort⟩ : ∃ time, Usage (.new (.standard "a" "b") 0 1) _ [.complete 1]
      { Link.new (.standard "a" "b") 0 1 with ticket := 2, generationTime := time } := ⟨_, receive.abort .left⟩
  have again := abort.accepted (e := .left) (c := .create .standard 0) (q := q) rfl rfl
  obtain ⟨time', matched⟩ : ∃ time, Usage (.new (.standard "a" "b") 0 1) _ [.complete 3, .complete 1]
      { Link.new (.standard "a" "b") 0 1 with
        left := ⟨some (.create .standard 0), false⟩
        right := ⟨some (.receive 1), false⟩
        generating := true
        ticket := 3
        generationTime := time } := ⟨_, again.accepted (e := .right) (c := .receive 1) (q := q) rfl rfl⟩
  have stale := matched.fire (show LinkEvent.complete 1 ∈ _ by decide) q
  rw [fire_of_stale (by simp [LinkEvent.ticket])] at stale
  have made := stale.fire (show LinkEvent.complete 3 ∈ _ by decide) q
  exact ⟨_, _, _, made, rfl, rfl, (every_call_gets_its_answer made).2.2.2.2.1⟩

end Link

end QuantumNode
