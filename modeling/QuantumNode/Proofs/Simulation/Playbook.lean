import Mathlib.Data.List.Range
import Mathlib.Tactic.Common
import QuantumNode.Proofs.Simulation.Agenda
import QuantumNode.Simulation.World

/-! Programs of events: an event changes a state and schedules further events, and nothing goes on between events. A
record of what has been scheduled and of what has run is kept beside the state, and no event sees it. -/
namespace QuantumNode

variable {τ ε : Type}

/-- An event, with the circumstances in which it was scheduled. -/
structure Errand (ε : Type) where
  number : Nat
  since : Nat
  delay : Nat
  event : ε

def Errand.due (x : Errand ε) : Nat := x.since + x.delay

inductive Occurrence (ε : Type) where
  | scheduled (x : Errand ε)
  | ran (time : Nat) (x : Errand ε)

def Occurrence.scheduled? : Occurrence ε → Option (Errand ε)
  | scheduled x => some x
  | ran .. => none

def Occurrence.ran? : Occurrence ε → Option (Nat × Errand ε)
  | scheduled _ => none
  | ran t x => some (t, x)

structure Playbook (τ ε : Type) where
  /-- What an event does in a state and at a time: the state after it, and the events it schedules, with their delays. -/
  react : ε → τ → Nat → τ × List (Nat × ε)
  state : τ
  agenda : Agenda (Errand ε)
  past : List (Occurrence ε)

namespace Playbook

def schedule (p : Playbook τ ε) (delay : Nat) (e : ε) : Playbook τ ε :=
  let x := ⟨p.agenda.seq, p.agenda.now, delay, e⟩
  { p with agenda := p.agenda.schedule delay x, past := p.past ++ [.scheduled x] }

/-- An event runs. -/
def perform (p : Playbook τ ε) (x : Errand ε) : Playbook τ ε :=
  let (state, further) := p.react x.event p.state p.agenda.now
  further.foldl (fun p y => p.schedule y.1 y.2) { p with state, past := p.past ++ [.ran p.agenda.now x] }

instance : World (Playbook τ ε) (Errand ε) Empty where
  agenda := Playbook.agenda
  setAgenda p a := { p with agenda := a }
  begin p x := (none, p.perform x)
  proceed _ := .settled

/-- The events that have been scheduled, in the order of scheduling. -/
def scheduled (p : Playbook τ ε) : List (Errand ε) := p.past.filterMap Occurrence.scheduled?

/-- The events that have run, each with the time at which it did, in the order in which they ran. -/
def ran (p : Playbook τ ε) : List (Nat × Errand ε) := p.past.filterMap Occurrence.ran?

def queued (p : Playbook τ ε) : List (Errand ε) := p.agenda.queue.map Scheduled.event

/-- No sum of a time and a delay is too large for a time. -/
def Fits (p : Playbook τ ε) : Prop := ∀ x ∈ p.scheduled, x.due < Word.size64

instance (p : Playbook τ ε) : Decidable p.Fits := List.decidableBAll _ _

/-- What can come of scheduling events, of touching the state from outside, and of runs whose limits do not lie in the
past. -/
inductive Reached : Playbook τ ε → Prop where
  | start (react : ε → τ → Nat → τ × List (Nat × ε)) (state : τ) : Reached ⟨react, state, .start, []⟩
  | schedule {p : Playbook τ ε} (h : Reached p) (delay : Nat) (e : ε) : Reached (p.schedule delay e)
  | change {p : Playbook τ ε} (h : Reached p) (state : τ) : Reached { p with state }
  | run {p : Playbook τ ε} (h : Reached p) {limit : Nat} (hl : p.agenda.now ≤ limit) (fuel : Nat) :
      Reached (World.run limit fuel 0 p).world

/-- The order of time, and of scheduling within one time. -/
def Earlier (a b : Nat × Errand ε) : Prop := a.1 < b.1 ∨ a.1 = b.1 ∧ a.2.number < b.2.number

/-- What the records of a program show. -/
structure Orderly (p : Playbook τ ε) : Prop where
  /-- Numbers are given in the order of scheduling. -/
  numbers : p.scheduled.map Errand.number = List.range p.scheduled.length
  /-- What has been scheduled has run or is queued. -/
  accounts : p.scheduled.Perm (p.ran.map Prod.snd ++ p.queued)
  once : (p.ran.map fun y => y.2.number).Nodup
  onTime : ∀ y ∈ p.ran, y.1 = y.2.due
  inOrder : p.ran.Pairwise Earlier

/-- What a run up to a limit comes to. -/
structure Heeds (p : Playbook τ ε) (limit fuel : Nat) (r : Run (Playbook τ ε) Empty) : Prop where
  forward : p.agenda.now ≤ r.world.agenda.now
  /-- What runs falls due by the limit, and is counted. -/
  counts : ∃ new, r.world.past = p.past ++ new ∧ r.events = (new.filterMap Occurrence.ran?).length ∧
    ∀ y ∈ new.filterMap Occurrence.ran?, y.2.due ≤ limit
  /-- Unless it is cut short, all that falls due by the limit has run, and the rest is queued. -/
  completes : r.halt = .outOfFuel ∧ r.events = fuel ∨
    (r.halt = .exhausted ∨ r.halt = .limit) ∧ ∀ x ∈ r.world.scheduled,
      (x ∈ r.world.ran.map Prod.snd ↔ x.due ≤ limit) ∧ (x ∈ r.world.queued ↔ limit < x.due)

/-! What does not depend on the sums. -/

structure Kept (p : Playbook τ ε) : Prop where
  tidy : p.agenda.Tidy
  numbers : p.scheduled.map Errand.number = List.range p.agenda.seq
  entries : ∀ s ∈ p.agenda.queue, s.seq = s.event.number ∧ s.time = s.event.due % Word.size64
  accounts : p.scheduled.Perm (p.ran.map Prod.snd ++ p.queued)

/-- Nothing is late, and what is to come comes after what has been. -/
structure Prompt (p : Playbook τ ε) : Prop where
  ahead : ∀ s ∈ p.agenda.queue, p.agenda.now ≤ s.time
  behind : ∀ y ∈ p.ran, y.1 ≤ p.agenda.now
  after : ∀ y ∈ p.ran, ∀ s ∈ p.agenda.queue, Earlier y (s.time, s.event)
  onTime : ∀ y ∈ p.ran, y.1 = y.2.due
  inOrder : p.ran.Pairwise Earlier

structure Sound (p : Playbook τ ε) : Prop extends Kept p where
  prompt : p.Fits → p.Prompt

section

variable {p : Playbook τ ε}

theorem scheduled_schedule (p : Playbook τ ε) (delay : Nat) (e : ε) :
    (p.schedule delay e).scheduled = p.scheduled ++ [⟨p.agenda.seq, p.agenda.now, delay, e⟩] := by
  simp only [scheduled, schedule, List.filterMap_append, List.filterMap_cons, List.filterMap_nil, Occurrence.scheduled?]

theorem ran_schedule (p : Playbook τ ε) (delay : Nat) (e : ε) : (p.schedule delay e).ran = p.ran := by
  simp only [ran, schedule, List.filterMap_append, List.filterMap_cons, List.filterMap_nil, Occurrence.ran?,
    List.append_nil]

theorem queued_schedule (p : Playbook τ ε) (delay : Nat) (e : ε) :
    (p.schedule delay e).queued.Perm (⟨p.agenda.seq, p.agenda.now, delay, e⟩ :: p.queued) :=
  (Agenda.enqueue_perm _ _).map Scheduled.event

theorem Fits.of_append {q : Playbook τ ε} {new : List (Occurrence ε)} (h : q.Fits) (hp : q.past = p.past ++ new) :
    p.Fits := by
  intro x hx
  refine h x ?_
  rw [scheduled, hp, List.filterMap_append]
  exact List.mem_append_left _ hx

/-- An event that has run has been scheduled, so it has a number. -/
theorem Kept.number_lt (h : p.Kept) {y : Nat × Errand ε} (hy : y ∈ p.ran) : y.2.number < p.agenda.seq := by
  have hs : y.2 ∈ p.scheduled := h.accounts.mem_iff.mpr (List.mem_append_left _ (List.mem_map_of_mem hy))
  have hn : y.2.number ∈ List.range p.agenda.seq := h.numbers ▸ List.mem_map_of_mem hs
  exact List.mem_range.mp hn

theorem start_sound (react : ε → τ → Nat → τ × List (Nat × ε)) (state : τ) :
    (⟨react, state, .start, []⟩ : Playbook τ ε).Sound :=
  ⟨⟨Agenda.start_tidy, rfl, nofun, .nil⟩, fun _ => ⟨nofun, nofun, nofun, nofun, .nil⟩⟩

theorem Kept.schedule (h : p.Kept) (delay : Nat) (e : ε) : (p.schedule delay e).Kept where
  tidy := h.tidy.schedule _ _
  numbers := by
    rw [scheduled_schedule, List.map_append, h.numbers]
    exact List.range_succ.symm
  entries := by
    intro s hs
    obtain rfl | hs := Agenda.mem_enqueue.mp hs
    · exact ⟨rfl, rfl⟩
    · exact h.entries s hs
  accounts := by
    rw [scheduled_schedule, ran_schedule]
    refine ((h.accounts.append_right _).trans ?_).trans ((queued_schedule p delay e).symm.append_left _)
    rw [List.append_assoc]
    exact (List.perm_append_singleton _ _).append_left _

theorem Sound.schedule (h : p.Sound) (delay : Nat) (e : ε) : (p.schedule delay e).Sound where
  toKept := h.toKept.schedule delay e
  prompt := by
    intro fits
    have hp := h.prompt (fits.of_append rfl)
    have hdue : p.agenda.now + delay < Word.size64 :=
      fits ⟨p.agenda.seq, p.agenda.now, delay, e⟩ (by
        rw [scheduled_schedule]
        exact List.mem_append_right _ List.mem_cons_self)
    have htime : (p.agenda.now + delay) % Word.size64 = p.agenda.now + delay := Nat.mod_eq_of_lt hdue
    refine ⟨fun s hs => ?_, ?_, ?_, ?_, ?_⟩
    · obtain rfl | hs := Agenda.mem_enqueue.mp hs
      · exact (Nat.le_add_right _ _).trans_eq htime.symm
      · exact hp.ahead s hs
    · rw [ran_schedule]
      exact hp.behind
    · rw [ran_schedule]
      intro y hy s hs
      obtain rfl | hs := Agenda.mem_enqueue.mp hs
      · have hnow := hp.behind y hy
        have hnumber := h.number_lt hy
        simp only [Earlier, htime]
        omega
      · exact hp.after y hy s hs
    · rw [ran_schedule]
      exact hp.onTime
    · rw [ran_schedule]
      exact hp.inOrder

theorem Sound.scheduleAll (h : p.Sound) (l : List (Nat × ε)) :
    (l.foldl (fun p y => p.schedule y.1 y.2) p).Sound := by
  induction l generalizing p with
  | nil => exact h
  | cons y l ih => exact ih (h.schedule y.1 y.2)

theorem past_scheduleAll (p : Playbook τ ε) (l : List (Nat × ε)) :
    ∃ new, (l.foldl (fun p y => p.schedule y.1 y.2) p).past = p.past ++ new ∧ new.filterMap Occurrence.ran? = [] := by
  induction l generalizing p with
  | nil => exact ⟨[], (List.append_nil _).symm, rfl⟩
  | cons y l ih =>
    obtain ⟨new, hnew, hran⟩ := ih (p.schedule y.1 y.2)
    exact ⟨_ :: new, hnew.trans (List.append_assoc _ _ _), hran⟩

theorem now_scheduleAll (p : Playbook τ ε) (l : List (Nat × ε)) :
    (l.foldl (fun p y => p.schedule y.1 y.2) p).agenda.now = p.agenda.now := by
  induction l generalizing p with
  | nil => rfl
  | cons y l ih => exact ih (p.schedule y.1 y.2)

theorem Sound.change (h : p.Sound) (state : τ) : ({ p with state } : Playbook τ ε).Sound :=
  ⟨⟨h.tidy, h.numbers, h.entries, h.accounts⟩,
    fun fits => let hp := h.prompt fits; ⟨hp.ahead, hp.behind, hp.after, hp.onTime, hp.inOrder⟩⟩

/-! An event leaves the queue, and runs. -/

/-- The first event of the queue has been taken from it and recorded. -/
private def took (p : Playbook τ ε) (state : τ) (s : Scheduled (Errand ε)) (r : List (Scheduled (Errand ε))) :
    Playbook τ ε :=
  { p with state, agenda := { p.agenda with now := s.time, queue := r }, past := p.past ++ [.ran s.time s.event] }

private theorem ran_took (p : Playbook τ ε) (state : τ) (s : Scheduled (Errand ε)) (r : List (Scheduled (Errand ε))) :
    (took p state s r).ran = p.ran ++ [(s.time, s.event)] := by
  simp only [ran, took, List.filterMap_append, List.filterMap_cons, List.filterMap_nil, Occurrence.ran?]

private theorem scheduled_took (p : Playbook τ ε) (state : τ) (s : Scheduled (Errand ε))
    (r : List (Scheduled (Errand ε))) : (took p state s r).scheduled = p.scheduled := by
  simp only [scheduled, took, List.filterMap_append, List.filterMap_cons, List.filterMap_nil, Occurrence.scheduled?,
    List.append_nil]

variable {s : Scheduled (Errand ε)} {r : List (Scheduled (Errand ε))}

private theorem Kept.took (h : p.Kept) (hq : p.agenda.queue = s :: r) (state : τ) : (took p state s r).Kept where
  tidy := h.tidy.event (Agenda.next_eq_event.mpr ⟨s, r, hq, le_rfl, rfl, rfl⟩)
  numbers := by
    rw [scheduled_took]
    exact h.numbers
  entries t ht := h.entries t (hq ▸ List.mem_cons_of_mem _ ht)
  accounts := by
    rw [scheduled_took, ran_took, List.map_append, List.append_assoc]
    have haccounts := h.accounts
    rw [queued, hq] at haccounts
    exact haccounts

private theorem Sound.took (h : p.Sound) (hq : p.agenda.queue = s :: r) (state : τ) : (took p state s r).Sound where
  toKept := h.toKept.took hq state
  prompt := by
    intro fits
    have hfits : p.Fits := fits.of_append rfl
    have hp := h.prompt hfits
    have hs : s ∈ p.agenda.queue := hq ▸ List.mem_cons_self
    have hrest : ∀ t ∈ r, t ∈ p.agenda.queue := fun t ht => hq ▸ List.mem_cons_of_mem _ ht
    have hfirst : ∀ t ∈ r, Earlier (s.time, s.event) (t.time, t.event) := by
      intro t ht
      have hsorted := h.tidy.sorted
      rw [hq] at hsorted
      have hbefore := Scheduled.before_iff.mp (List.rel_of_pairwise_cons hsorted ht)
      rw [(h.entries s hs).1, (h.entries t (hrest t ht)).1] at hbefore
      exact hbefore
    have hdue : s.time = s.event.due := by
      rw [(h.entries s hs).2]
      refine Nat.mod_eq_of_lt (hfits _ (h.accounts.mem_iff.mpr (List.mem_append_right _ ?_)))
      exact List.mem_map_of_mem hs
    refine ⟨fun t ht => ?_, fun y hy => ?_, fun y hy t ht => ?_, fun y hy => ?_, ?_⟩
    · exact (hfirst t ht).elim Nat.le_of_lt fun h => Nat.le_of_eq h.1
    all_goals rw [ran_took] at *
    · obtain hy | hy := List.mem_append.mp hy
      · exact (hp.behind y hy).trans (hp.ahead s hs)
      · rw [List.mem_singleton.mp hy]
        exact le_rfl
    · obtain hy | hy := List.mem_append.mp hy
      · exact hp.after y hy t (hrest t ht)
      · rw [List.mem_singleton.mp hy]
        exact hfirst t ht
    · obtain hy | hy := List.mem_append.mp hy
      · exact hp.onTime y hy
      · rw [List.mem_singleton.mp hy]
        exact hdue
    · refine List.pairwise_append.mpr ⟨hp.inOrder, List.pairwise_singleton _ _, fun y hy z hz => ?_⟩
      rw [List.mem_singleton.mp hz]
      exact hp.after y hy s hs

theorem Sound.perform (h : p.Sound) (hq : p.agenda.queue = s :: r) :
    ({ p with agenda := { p.agenda with now := s.time, queue := r } }.perform s.event).Sound :=
  (h.took hq _).scheduleAll _

/-- An event runs at the time that it was taken from the queue at, and what it does shows after that. -/
theorem past_perform (p : Playbook τ ε) (x : Errand ε) :
    ∃ new, (p.perform x).past = p.past ++ new ∧ new.filterMap Occurrence.ran? = [(p.agenda.now, x)] := by
  obtain ⟨new, hnew, hran⟩ := past_scheduleAll
    { p with state := (p.react x.event p.state p.agenda.now).1, past := p.past ++ [.ran p.agenda.now x] }
    (p.react x.event p.state p.agenda.now).2
  refine ⟨.ran p.agenda.now x :: new, hnew.trans (List.append_assoc _ _ _), ?_⟩
  rw [List.filterMap_cons, hran]
  rfl

theorem Sound.wait (h : p.Sound) {limit : Nat} {a : Agenda (Errand ε)} (hl : p.agenda.now ≤ limit)
    (hn : p.agenda.next limit = .later a) : ({ p with agenda := a } : Playbook τ ε).Sound := by
  have hlater := h.tidy.lt_of_later hn
  have htidy := h.tidy.later hn
  obtain ⟨_, _, _, _, rfl⟩ := Agenda.next_eq_later.mp hn
  refine ⟨⟨htidy, h.numbers, h.entries, h.accounts⟩, fun fits => ?_⟩
  have hp := h.prompt fits
  exact ⟨fun s hs => Nat.le_of_lt (hlater s hs), fun y hy => (hp.behind y hy).trans hl, hp.after, hp.onTime, hp.inOrder⟩

/-! A run. -/

theorem run_succ (p : Playbook τ ε) (limit fuel events : Nat) :
    World.run limit (fuel + 1) events p =
      match p.agenda.next limit with
      | .nothing => ⟨.exhausted, events, p⟩
      | .later a => ⟨.limit, events, { p with agenda := a }⟩
      | .event x a => World.run limit fuel (events + 1) ({ p with agenda := a }.perform x) := by
  rw [World.run]
  simp only [World.proceed, World.agenda]
  cases p.agenda.next limit <;> rfl

/-- What a run comes to when `events` events have run before it. -/
structure Runs (p : Playbook τ ε) (limit fuel events : Nat) (r : Run (Playbook τ ε) Empty) : Prop where
  sound : r.world.Sound
  forward : r.world.Fits → p.agenda.now ≤ r.world.agenda.now
  counts : ∃ new, r.world.past = p.past ++ new ∧ r.events = events + (new.filterMap Occurrence.ran?).length ∧
    ∀ y ∈ new.filterMap Occurrence.ran?, y.1 ≤ limit
  completes : r.halt = .outOfFuel ∧ r.events = events + fuel ∨
    (r.halt = .exhausted ∨ r.halt = .limit) ∧ ∀ s ∈ r.world.agenda.queue, limit < s.time

theorem Sound.runs (h : p.Sound) {limit : Nat} (hl : p.agenda.now ≤ limit) (fuel events : Nat) :
    p.Runs limit fuel events (World.run limit fuel events p) := by
  induction fuel generalizing p events with
  | zero => exact ⟨h, fun _ => le_rfl, ⟨[], (List.append_nil _).symm, rfl, nofun⟩, .inl ⟨rfl, rfl⟩⟩
  | succ fuel ih =>
    rw [run_succ]
    cases hn : p.agenda.next limit with
    | nothing =>
      have hq := Agenda.next_eq_nothing.mp hn
      refine ⟨h, fun _ => le_rfl, ⟨[], (List.append_nil _).symm, rfl, nofun⟩, .inr ⟨.inl rfl, ?_⟩⟩
      rw [hq]
      exact nofun
    | later a =>
      have hlater := h.tidy.lt_of_later hn
      refine ⟨h.wait hl hn, fun _ => ?_, ⟨[], (List.append_nil _).symm, rfl, nofun⟩, .inr ⟨.inr rfl, hlater⟩⟩
      obtain ⟨_, _, _, _, rfl⟩ := Agenda.next_eq_later.mp hn
      exact hl
    | event x a =>
      obtain ⟨s, r, hq, hs, rfl, rfl⟩ := Agenda.next_eq_event.mp hn
      let q : Playbook τ ε := { p with agenda := { p.agenda with now := s.time, queue := r } }
      have hnow : (q.perform s.event).agenda.now = s.time := now_scheduleAll _ _
      have hrun := ih (h.perform hq) (hnow.trans_le hs) (events + 1)
      obtain ⟨first, hfirst, hran⟩ := past_perform q s.event
      obtain ⟨later, hlater, hcount, hwithin⟩ := hrun.counts
      have hpast : (World.run limit fuel (events + 1) (q.perform s.event)).world.past = p.past ++ (first ++ later) := by
        rw [hlater, hfirst, List.append_assoc]
      refine ⟨hrun.sound, fun fits => ?_, ⟨first ++ later, hpast, ?_, ?_⟩, ?_⟩
      · have hp := h.prompt (fits.of_append hpast)
        exact (hp.ahead s (hq ▸ List.mem_cons_self)).trans (hnow.ge.trans (hrun.forward fits))
      · rw [hcount, List.filterMap_append, List.length_append, hran]
        exact Nat.add_assoc _ _ _
      · rw [List.filterMap_append, hran]
        intro y hy
        obtain rfl | hy := List.mem_cons.mp hy
        · exact hs
        · exact hwithin y hy
      · exact hrun.completes.imp (fun h => ⟨h.1, h.2.trans (by omega)⟩) id

theorem Reached.sound (h : p.Reached) : p.Sound := by
  induction h with
  | start react state => exact start_sound react state
  | schedule _ delay e ih => exact ih.schedule delay e
  | change _ state ih => exact ih.change state
  | run _ hl fuel ih => exact (ih.runs hl fuel 0).sound

theorem Sound.orderly (h : p.Sound) (fits : p.Fits) : p.Orderly := by
  have hlength : p.scheduled.length = p.agenda.seq := by
    rw [← List.length_map (f := Errand.number), h.numbers, List.length_range]
  have hnodup : (p.scheduled.map Errand.number).Nodup := h.numbers ▸ List.nodup_range
  have hnumbers := h.accounts.map Errand.number
  rw [List.map_append, List.map_map] at hnumbers
  exact ⟨hlength ▸ h.numbers, h.accounts, (List.nodup_append.mp (hnumbers.nodup_iff.mp hnodup)).1,
    (h.prompt fits).onTime, (h.prompt fits).inOrder⟩

theorem Sound.due_of_queued (h : p.Sound) (fits : p.Fits) {limit : Nat} (hl : ∀ s ∈ p.agenda.queue, limit < s.time)
    {x : Errand ε} (hx : x ∈ p.queued) : limit < x.due := by
  obtain ⟨s, hs, rfl⟩ := List.mem_map.mp hx
  have htime := (h.entries s hs).2
  rw [Nat.mod_eq_of_lt (fits _ (h.accounts.mem_iff.mpr (List.mem_append_right _ hx)))] at htime
  exact htime ▸ hl s hs

theorem Sound.heeds (h : p.Sound) {limit : Nat} (hl : p.agenda.now ≤ limit) (fuel : Nat)
    (fits : (World.run limit fuel 0 p).world.Fits) : p.Heeds limit fuel (World.run limit fuel 0 p) := by
  obtain ⟨hsound, hforward, ⟨new, hnew, hcount, hwithin⟩, hcompletes⟩ := h.runs hl fuel 0
  generalize World.run limit fuel 0 p = r at *
  have hprompt := hsound.prompt fits
  have hran : r.world.ran = p.ran ++ new.filterMap Occurrence.ran? := by
    rw [Playbook.ran, hnew, List.filterMap_append]
    rfl
  have hlate : ∀ y ∈ r.world.ran, y.2.due ≤ limit := by
    intro y hy
    rw [← hprompt.onTime y hy]
    obtain hy | hy := List.mem_append.mp (hran ▸ hy)
    · exact ((h.prompt (fits.of_append hnew)).behind y hy).trans hl
    · exact hwithin y hy
  refine ⟨hforward fits, ⟨new, hnew, by omega, fun y hy => hlate y (hran ▸ List.mem_append_right _ hy)⟩, ?_⟩
  refine hcompletes.imp (fun hc => ⟨hc.1, by omega⟩) fun hc => ⟨hc.1, fun x hx => ?_⟩
  have hdue : x ∈ r.world.ran.map Prod.snd → x.due ≤ limit := by
    intro hx
    obtain ⟨y, hy, rfl⟩ := List.mem_map.mp hx
    exact hlate y hy
  have hwait : x ∈ r.world.queued → limit < x.due := hsound.due_of_queued fits hc.2
  have heither := List.mem_append.mp (hsound.accounts.mem_iff.mp hx)
  exact ⟨⟨hdue, fun hle => heither.resolve_right fun hq => (hwait hq).not_ge hle⟩,
    ⟨hwait, fun hlt => heither.resolve_left fun hr => (hdue hr).not_gt hlt⟩⟩

/-- Whatever events do, each runs at most once and when it falls due, in the order of time and of scheduling within one
time. A run whose limit does not lie in the past runs all that falls due by it, also what is scheduled meanwhile, counts
it, and leaves the rest queued. -/
theorem Reached.keeps_order (h : p.Reached) :
    (p.Fits → p.Orderly) ∧ ∀ limit fuel, p.agenda.now ≤ limit → (World.run limit fuel 0 p).world.Fits →
      p.Heeds limit fuel (World.run limit fuel 0 p) :=
  ⟨h.sound.orderly, fun _ fuel hl fits => h.sound.heeds hl fuel fits⟩

end

/-- Two events at one time, the first of which schedules a third for that time and a fourth for a later one. -/
def relay : Playbook (List Nat) Nat :=
  ((⟨fun e l _ => (l ++ [e], if e = 0 then [(0, 2), (5, 3)] else []), [], .start, []⟩ : Playbook (List Nat) Nat).schedule
    10 0).schedule 10 1

theorem relay_keeps_order :
    relay.Reached ∧ relay.Fits ∧ relay.Orderly ∧ relay.agenda.now ≤ 10 ∧ (World.run 10 8 0 relay).world.Fits ∧
      relay.Heeds 10 8 (World.run 10 8 0 relay) ∧ (World.run 10 8 0 relay).world.state = [0, 1, 2] :=
  have hreached : relay.Reached := ((Reached.start _ _).schedule 10 0).schedule 10 1
  have hfits : relay.Fits := by decide
  have hlater : (World.run 10 8 0 relay).world.Fits := by decide
  ⟨hreached, hfits, hreached.keeps_order.1 hfits, by decide, hlater, hreached.keeps_order.2 10 8 (by decide) hlater,
    by decide⟩

end Playbook

end QuantumNode
