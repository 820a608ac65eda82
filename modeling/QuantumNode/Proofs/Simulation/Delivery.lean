import QuantumNode.Proofs.Simulation.Channel
import QuantumNode.Proofs.Simulation.Routines

/-! Values on their way through channels. A record is kept of what is sent, arrives, is handed out and is received; what
a step does to channels and to the agenda is one of a few things, and each keeps the books. -/
namespace QuantumNode

/-- What happens to the values of channels and to their receivers. -/
inductive ChannelDeed where
  | sent (channel time : Nat) (text : String)
  /-- A value becomes available; if a receiver waits, it is handed to that. -/
  | arrived (channel time : Nat) (text : String) (taker : Option Nat)
  /-- A value that was kept is handed out. -/
  | taken (channel : Nat) (text : String)
  | waited (channel routine : Nat)
  /-- A receiver goes on with the value for which it waited. -/
  | resumed (time routine : Nat) (text : String)
  deriving DecidableEq

namespace ChannelDeed

def channel? : ChannelDeed → Option Nat
  | sent i .. | arrived i .. | taken i _ | waited i _ => some i
  | resumed .. => none

/-- A value that is handed to a receiver which waited, and when. -/
def given? : ChannelDeed → Option (Nat × Nat × String)
  | arrived _ t v p => p.map fun p => (t, p, v)
  | _ => none

def resumed? : ChannelDeed → Option (Nat × Nat × String)
  | resumed t p v => some (t, p, v)
  | _ => none

end ChannelDeed

/-- What the records say of one channel, each list in the order of events. -/
structure ChannelAccount where
  /-- The values sent, and when. -/
  sent : List (Nat × String) := []
  /-- The values that have become available, and when. -/
  arrived : List (Nat × String) := []
  handed : List String := []
  /-- The receivers that began to wait. -/
  waited : List Nat := []
  /-- The receivers that have been handed a value they waited for. -/
  served : List Nat := []

namespace ChannelAccount

def note (i : Nat) (k : ChannelAccount) : ChannelDeed → ChannelAccount
  | .sent j t v => if j = i then { k with sent := k.sent ++ [(t, v)] } else k
  | .arrived j t v p =>
    if j = i then
      { k with
        arrived := k.arrived ++ [(t, v)]
        handed := k.handed ++ (p.map fun _ => v).toList
        served := k.served ++ p.toList }
    else k
  | .taken j v => if j = i then { k with handed := k.handed ++ [v] } else k
  | .waited j p => if j = i then { k with waited := k.waited ++ [p] } else k
  | .resumed .. => k

def ofDeeds (i : Nat) (past : List ChannelDeed) : ChannelAccount := past.foldl (note i) {}

theorem ofDeeds_append (i : Nat) (past deeds : List ChannelDeed) :
    ofDeeds i (past ++ deeds) = deeds.foldl (note i) (ofDeeds i past) := List.foldl_append

theorem note_of_ne {i : Nat} (k : ChannelAccount) {x : ChannelDeed} (h : x.channel? ≠ some i) : k.note i x = k := by
  cases x with
  | sent j | arrived j | taken j | waited j => exact if_neg fun hj => h (congrArg some hj)
  | resumed => rfl

/-- What does not concern a channel. -/
theorem ofDeeds_append_of_ne {i : Nat} (past : List ChannelDeed) {deeds : List ChannelDeed}
    (h : ∀ x ∈ deeds, x.channel? ≠ some i) : ofDeeds i (past ++ deeds) = ofDeeds i past := by
  induction deeds generalizing past with
  | nil => rw [List.append_nil]
  | cons x deeds ih =>
    have hx : ofDeeds i (past ++ [x]) = ofDeeds i past := by
      rw [ofDeeds_append]
      exact note_of_ne _ (h x List.mem_cons_self)
    rw [List.append_cons, ih _ fun y hy => h y (List.mem_cons_of_mem _ hy), hx]

end ChannelAccount

/-- A value that is under way to a channel, and when it is due. -/
def Scheduled.underway? (i : Nat) (s : Scheduled WorkbenchEvent) : Option (Nat × String) :=
  match s.event with
  | .arrive j v => if j = i then some (s.time, v) else none
  | _ => none

/-- A value with which a receiver is to be resumed, and when. -/
def Scheduled.receipt? (s : Scheduled WorkbenchEvent) : Option (Nat × Nat × String) :=
  match s.event with
  | .resume p (.received v) => some (s.time, p, v)
  | _ => none

/-- Events that carry no value. -/
def WorkbenchEvent.Plain : WorkbenchEvent → Prop
  | .arrive .. | .resume _ (.received _) => False
  | _ => True

theorem WorkbenchEvent.Plain.underway?_eq {e : WorkbenchEvent} (h : e.Plain) (t n i : Nat) :
    Scheduled.underway? i ⟨t, n, e⟩ = none := by
  cases e with
  | arrive => exact absurd h id
  | _ => rfl

theorem WorkbenchEvent.Plain.receipt?_eq {e : WorkbenchEvent} (h : e.Plain) (t n : Nat) :
    Scheduled.receipt? ⟨t, n, e⟩ = none := by
  cases e with
  | resume p why =>
    cases why with
    | received v => exact absurd h id
    | _ => rfl
  | _ => rfl

namespace Agenda

/-- The values under way to a channel, in the order in which they are due. -/
def underway (a : Agenda WorkbenchEvent) (i : Nat) : List (Nat × String) := a.queue.filterMap (Scheduled.underway? i)

def receipts (a : Agenda WorkbenchEvent) : List (Nat × Nat × String) := a.queue.filterMap Scheduled.receipt?

/-- The receiver of a value is resumed at once. -/
def serve (a : Agenda WorkbenchEvent) (v : String) : Option Nat → Agenda WorkbenchEvent
  | some p => a.schedule 0 (.resume p (.received v))
  | none => a

end Agenda

/-- What a step does to channels and to the agenda, and what is recorded of it. -/
inductive Traffic (cs : Array (Channel String Nat)) (a : Agenda WorkbenchEvent) :
    List ChannelDeed → Array (Channel String Nat) → Agenda WorkbenchEvent → Prop where
  | quiet {b : Agenda WorkbenchEvent} (h : a.Grows WorkbenchEvent.Plain b) : Traffic cs a [] cs b
  | waits {limit : Nat} {b : Agenda WorkbenchEvent} (hl : limit ≤ forever) (h : a.next limit = .later b) : Traffic cs a [] cs b
  | begins {limit : Nat} {e : WorkbenchEvent} {b : Agenda WorkbenchEvent} (h : a.next limit = .event e b)
      (he : e.Plain) : Traffic cs a [] cs b
  | resumes {limit p : Nat} {v : String} {b : Agenda WorkbenchEvent}
      (h : a.next limit = .event (.resume p (.received v)) b) : Traffic cs a [.resumed b.now p v] cs b
  | posts {i : Nat} {c : Channel String Nat} (v : String) (hc : cs[i]? = some c) (hl : c.latency ≠ 0) :
      Traffic cs a [.sent i a.now v] (cs.setIfInBounds i c.countSent) (a.schedule c.latency (.arrive i v))
  | passes {i : Nat} {c : Channel String Nat} (v : String) (hc : cs[i]? = some c) (hl : c.latency = 0) :
      Traffic cs a [.sent i a.now v, .arrived i a.now v (c.countSent.arrive v).1]
        (cs.setIfInBounds i (c.countSent.arrive v).2) (a.serve v (c.countSent.arrive v).1)
  | arrives {limit i : Nat} {c : Channel String Nat} {v : String} {b : Agenda WorkbenchEvent}
      (h : a.next limit = .event (.arrive i v) b) (hc : cs[i]? = some c) :
      Traffic cs a [.arrived i b.now v (c.arrive v).1] (cs.setIfInBounds i (c.arrive v).2) (b.serve v (c.arrive v).1)
  | takes {i : Nat} {c : Channel String Nat} {v : String} (hc : cs[i]? = some c) (hv : c.tryReceive.1 = some v) :
      Traffic cs a [.taken i v] (cs.setIfInBounds i c.tryReceive.2) a
  | enlists {i p : Nat} {c : Channel String Nat} (hc : cs[i]? = some c) (hp : (c.receive p).1 = none) :
      Traffic cs a [.waited i p] (cs.setIfInBounds i (c.receive p).2) a

/-! The books of one channel. -/

/-- What an account says about a channel: values arrive when they are due, and, if the clock does not go back between them
and no sum of a time and the latency is too large for a time, in the order in which they were sent. -/
structure Books (k : ChannelAccount) (a : Agenda WorkbenchEvent) (i : Nat) (c : Channel String Nat) : Prop where
  counted : c.sent = k.sent.length
  onTime : (k.sent.map fun x => ((x.1 + c.latency) % Word.size64, x.2)).Perm (k.arrived ++ a.underway i)
  inOrder : k.sent.Pairwise (fun x y => x.1 ≤ y.1) → (∀ x ∈ k.sent, x.1 + c.latency < Word.size64) →
    k.sent.map (fun x => (x.1 + c.latency, x.2)) = k.arrived ++ a.underway i
  shelf : c.Shelf (k.arrived.map Prod.snd) k.handed k.waited k.served

section Books

variable {k : ChannelAccount} {a b : Agenda WorkbenchEvent} {i : Nat} {c : Channel String Nat}

theorem books_new (i latency : Nat) : Books {} .start i (.new latency) :=
  ⟨rfl, .nil, fun _ _ => rfl, Channel.shelf_new latency⟩

theorem Books.aside (h : Books k a i c) (hu : b.underway i = a.underway i) : Books k b i c :=
  ⟨h.counted, hu ▸ h.onTime, hu ▸ h.inOrder, h.shelf⟩

theorem of_underway? {s : Scheduled WorkbenchEvent} {y : Nat × String} (h : s.underway? i = some y) :
    s.event = .arrive i y.2 ∧ s.time = y.1 := by
  unfold Scheduled.underway? at h
  split at h
  · rename_i j v he
    split at h
    · rename_i hj
      cases h
      exact ⟨hj ▸ he, rfl⟩
    · exact nomatch h
  · exact nomatch h

theorem underway?_arrive (t n i : Nat) (v : String) : Scheduled.underway? i ⟨t, n, .arrive i v⟩ = some (t, v) :=
  if_pos rfl

theorem time_of_receipt? {s : Scheduled WorkbenchEvent} {x : Nat × Nat × String} (h : s.receipt? = some x) :
    s.time = x.1 := by
  unfold Scheduled.receipt? at h
  split at h
  · cases h
    rfl
  · exact nomatch h

theorem underway_serve (a : Agenda WorkbenchEvent) (v : String) (p : Option Nat) (i : Nat) :
    (a.serve v p).underway i = a.underway i := by
  cases p with
  | none => rfl
  | some p => exact Agenda.filterMap_enqueue_of_none rfl _

theorem Books.post (h : Books k a i c) (ha : a.Tidy) (v : String) :
    Books { k with sent := k.sent ++ [(a.now, v)] } (a.schedule c.latency (.arrive i v)) i c.countSent where
  counted := by
    rw [List.length_append]
    exact congrArg (· + 1) h.counted
  onTime := by
    have hunder : ((a.schedule c.latency (.arrive i v)).underway i).Perm
        (((a.now + c.latency) % Word.size64, v) :: a.underway i) := by
      have hperm := (Agenda.enqueue_perm ⟨(a.now + c.latency) % Word.size64, a.seq, .arrive i v⟩ a.queue).filterMap
        (Scheduled.underway? i)
      rwa [List.filterMap_cons_some (underway?_arrive _ _ _ _)] at hperm
    rw [List.map_append]
    refine ((h.onTime.append_right _).trans ?_).trans (hunder.symm.append_left _)
    rw [List.append_assoc]
    exact (List.perm_append_singleton _ _).append_left _
  inOrder := by
    intro hmono hfit
    obtain ⟨hmono, -, hlast⟩ := List.pairwise_append.mp hmono
    have hbefore := h.inOrder hmono fun x hx => hfit x (List.mem_append_left _ hx)
    have hnow : (a.now + c.latency) % Word.size64 = a.now + c.latency :=
      Nat.mod_eq_of_lt (hfit (a.now, v) (List.mem_append_right _ List.mem_cons_self))
    -- What is under way was sent earlier, so the new value is due after it.
    have hunder : (a.schedule c.latency (.arrive i v)).underway i = a.underway i ++ [(a.now + c.latency, v)] := by
      refine Agenda.filterMap_enqueue ha.sorted (by rw [hnow]; exact underway?_arrive _ _ _ _) fun t ht hs => ?_
      obtain ⟨y, hy⟩ := Option.isSome_iff_exists.mp hs
      have hmem : y ∈ k.arrived ++ a.underway i := List.mem_append_right _ (List.mem_filterMap.mpr ⟨t, ht, hy⟩)
      rw [← hbefore] at hmem
      obtain ⟨x, hx, rfl⟩ := List.mem_map.mp hmem
      have htime := (of_underway? hy).2
      have hle := hlast x hx (a.now, v) List.mem_cons_self
      have hseq := ha.numbered t ht
      rw [Scheduled.before_iff]
      dsimp only at *
      omega
    rw [hunder, List.map_append, ← List.append_assoc, ← hbefore]
    rfl
  shelf := h.shelf.countSent

/-- The account after a value has arrived. -/
def ChannelAccount.arrive (k : ChannelAccount) (t : Nat) (v : String) (p : Option Nat) : ChannelAccount :=
  { k with
    arrived := k.arrived ++ [(t, v)]
    handed := k.handed ++ (p.map fun _ => v).toList
    served := k.served ++ p.toList }

theorem Books.arrive (h : Books k a i c) {t : Nat} {v : String} (hu : a.underway i = (t, v) :: b.underway i) :
    Books (k.arrive t v (c.arrive v).1) (b.serve v (c.arrive v).1) i (c.arrive v).2 := by
  have hmove : k.arrived ++ a.underway i = k.arrived ++ [(t, v)] ++ (b.serve v (c.arrive v).1).underway i := by
    rw [underway_serve, hu, List.append_assoc, List.singleton_append]
  constructor
  · rw [Channel.sent_arrive]
    exact h.counted
  · rw [Channel.latency_arrive]
    exact hmove ▸ h.onTime
  · rw [Channel.latency_arrive]
    exact hmove ▸ h.inOrder
  · have hshelf := h.shelf.arrive v
    rwa [← List.map_singleton (f := Prod.snd) (a := (t, v)), ← List.map_append] at hshelf

/-- Without latency a value is under way for no time. -/
theorem Books.pass (h : Books k a i c) (hl : c.latency = 0) (hnow : a.now < Word.size64) (hu : a.underway i = [])
    (v : String) :
    Books ({ k with sent := k.sent ++ [(a.now, v)] }.arrive a.now v (c.countSent.arrive v).1)
      (a.serve v (c.countSent.arrive v).1) i (c.countSent.arrive v).2 := by
  have hdue : (a.now + c.latency) % Word.size64 = a.now := by rw [hl, Nat.add_zero, Nat.mod_eq_of_lt hnow]
  have hlatency : (c.countSent.arrive v).2.latency = c.latency := Channel.latency_arrive _ _
  have honTime := h.onTime
  have hinOrder := h.inOrder
  rw [hu, List.append_nil] at honTime hinOrder
  constructor
  · rw [Channel.sent_arrive, ChannelAccount.arrive, List.length_append]
    exact congrArg (· + 1) h.counted
  · rw [hlatency, underway_serve, hu, List.append_nil, ChannelAccount.arrive, List.map_append]
    exact honTime.append (.of_eq (congrArg (fun t => [(t, v)]) hdue))
  · rw [hlatency, underway_serve, hu, List.append_nil]
    intro hmono hfit
    have hbefore := hinOrder (List.pairwise_append.mp hmono).1 fun x hx => hfit x (List.mem_append_left _ hx)
    change (k.sent ++ [(a.now, v)]).map _ = k.arrived ++ [(a.now, v)]
    rw [List.map_append, hbefore, hl]
    rfl
  · have hshelf := h.shelf.countSent.arrive v
    rwa [← List.map_singleton (f := Prod.snd) (a := (a.now, v)), ← List.map_append] at hshelf

theorem Books.take (h : Books k a i c) {v : String} (hv : c.tryReceive.1 = some v) :
    Books { k with handed := k.handed ++ [v] } a i c.tryReceive.2 := by
  have hshelf := h.shelf.tryReceive
  rw [hv] at hshelf
  exact ⟨by rw [Channel.sent_tryReceive]; exact h.counted, by rw [Channel.latency_tryReceive]; exact h.onTime,
    by rw [Channel.latency_tryReceive]; exact h.inOrder, hshelf⟩

theorem Books.enlist (h : Books k a i c) {p : Nat} (hp : (c.receive p).1 = none) :
    Books { k with waited := k.waited ++ [p] } a i (c.receive p).2 :=
  ⟨by rw [Channel.sent_receive]; exact h.counted, by rw [Channel.latency_receive]; exact h.onTime,
    by rw [Channel.latency_receive]; exact h.inOrder, h.shelf.wait hp⟩

end Books

/-! The agenda. -/

/-- Times are words, and only channels with a latency have values under way. -/
structure Agenda.Regular (latencies : List Nat) (a : Agenda WorkbenchEvent) : Prop extends a.Tidy where
  now_lt : a.now < Word.size64
  time_lt : ∀ s ∈ a.queue, s.time < Word.size64
  bound : ∀ s ∈ a.queue, ∀ i v, s.event = .arrive i v → ∃ d, latencies[i]? = some d ∧ d ≠ 0

section Agenda

variable {latencies : List Nat} {a b : Agenda WorkbenchEvent} {limit : Nat} {e : WorkbenchEvent}

theorem Agenda.Regular.timely (h : a.Regular latencies) : a.Timely := ⟨h.toTidy, h.now_lt, h.time_lt⟩

/-- Times stay words; what is bound to channels is to be seen to. -/
theorem Agenda.Timely.regular (h : b.Timely)
    (hb : ∀ s ∈ b.queue, ∀ i v, s.event = .arrive i v → ∃ d, latencies[i]? = some d ∧ d ≠ 0) : b.Regular latencies :=
  ⟨h.toTidy, h.now_lt, h.time_lt, hb⟩

theorem start_regular (latencies : List Nat) : (.start : Agenda WorkbenchEvent).Regular latencies :=
  Agenda.start_timely.regular nofun

theorem Agenda.Regular.schedule (h : a.Regular latencies) (delay : Nat)
    (he : ∀ i v, e = .arrive i v → ∃ d, latencies[i]? = some d ∧ d ≠ 0) : (a.schedule delay e).Regular latencies := by
  refine (h.timely.schedule delay e).regular fun s hs => ?_
  obtain rfl | hs := Agenda.mem_enqueue.mp hs
  · exact he
  · exact h.bound s hs

theorem Agenda.Regular.grows (h : a.Regular latencies) (hg : a.Grows WorkbenchEvent.Plain b) : b.Regular latencies := by
  induction hg with
  | refl => exact h
  | schedule _ delay he ih =>
    refine ih.schedule delay fun i v hv => ?_
    subst hv
    exact absurd he id

theorem Agenda.Regular.serve (h : a.Regular latencies) (v : String) (p : Option Nat) :
    (a.serve v p).Regular latencies := by
  cases p with
  | none => exact h
  | some p => exact h.schedule 0 nofun

theorem Agenda.Regular.event (h : a.Regular latencies) (hn : a.next limit = .event e b) : b.Regular latencies := by
  refine (h.timely.event hn).regular fun t ht => h.bound t ?_
  obtain ⟨s, r, hq, -, -, rfl⟩ := Agenda.next_eq_event.mp hn
  exact hq ▸ List.mem_cons_of_mem _ ht

theorem Agenda.Regular.later (h : a.Regular latencies) (hn : a.next limit = .later b) : b.Regular latencies := by
  refine (h.timely.later hn).regular ?_
  obtain ⟨_, _, _, _, rfl⟩ := Agenda.next_eq_later.mp hn
  exact h.bound

theorem receipts_serve (hnow : a.now < Word.size64) (v : String) (p : Option Nat) :
    (a.serve v p).receipts.Perm ((p.map fun p => (a.now, p, v)).toList ++ a.receipts) := by
  cases p with
  | none => exact .refl _
  | some p =>
    change ((Agenda.enqueue ⟨(a.now + 0) % Word.size64, a.seq, .resume p (.received v)⟩ a.queue).filterMap
      Scheduled.receipt?).Perm ((a.now, p, v) :: a.queue.filterMap Scheduled.receipt?)
    rw [Nat.add_zero, Nat.mod_eq_of_lt hnow]
    exact (Agenda.enqueue_perm _ _).filterMap _

end Agenda

/-! All books. -/

structure Ledger (latencies : List Nat) (past : List ChannelDeed) (cs : Array (Channel String Nat))
    (a : Agenda WorkbenchEvent) : Prop where
  regular : a.Regular latencies
  channels : ∀ i : Nat, cs[i]?.map Channel.latency = latencies[i]?
  books : ∀ (i : Nat) c, cs[i]? = some c → Books (.ofDeeds i past) a i c
  /-- Who has been handed a value for which it waited goes on at that time. -/
  receipts : (past.filterMap ChannelDeed.given?).Perm (past.filterMap ChannelDeed.resumed? ++ a.receipts)

namespace Traffic

variable {latencies : List Nat} {past deeds : List ChannelDeed} {cs cs' : Array (Channel String Nat)}
  {a a' : Agenda WorkbenchEvent}

/-- A channel that is there has the latency it was given. -/
private theorem latency_of {i : Nat} {c : Channel String Nat} (h : ∀ i : Nat, cs[i]?.map Channel.latency = latencies[i]?)
    (hc : cs[i]? = some c) : latencies[i]? = some c.latency := by rw [← h, hc]; rfl

theorem regular (h : Traffic cs a deeds cs' a') (hr : a.Regular latencies)
    (hl : ∀ i : Nat, cs[i]?.map Channel.latency = latencies[i]?) : a'.Regular latencies := by
  cases h with
  | quiet h => exact hr.grows h
  | waits hlimit h => exact hr.later h
  | begins h | resumes h => exact hr.event h
  | posts v hc hne =>
    refine hr.schedule _ fun i w he => ?_
    cases he
    exact ⟨_, latency_of hl hc, hne⟩
  | passes v hc => exact hr.serve _ _
  | arrives h hc => exact (hr.event h).serve _ _
  | takes | enlists => exact hr

private theorem latencies_set {i : Nat} {c : Channel String Nat} (hc : cs[i]? = some c) (c' : Channel String Nat)
    (h : ∀ i : Nat, cs[i]?.map Channel.latency = latencies[i]?) (hl : c'.latency = c.latency) (j : Nat) :
    (cs.setIfInBounds i c')[j]?.map Channel.latency = latencies[j]? := by
  rw [← h j, Array.getElem?_setIfInBounds]
  split
  · rename_i hj
    subst hj
    rw [if_pos (Array.getElem?_eq_some_iff.mp hc).1, hc, Option.map_some, Option.map_some, hl]
  · rfl

theorem channels (h : Traffic cs a deeds cs' a') (hl : ∀ i : Nat, cs[i]?.map Channel.latency = latencies[i]?) (j : Nat) :
    cs'[j]?.map Channel.latency = latencies[j]? := by
  cases h with
  | quiet | waits | begins | resumes => exact hl j
  | @posts _ c v hc => exact latencies_set hc c.countSent hl rfl j
  | @passes _ c v hc => exact latencies_set hc (c.countSent.arrive v).2 hl (Channel.latency_arrive _ _) j
  | arrives _ hc => exact latencies_set hc _ hl (Channel.latency_arrive _ _) j
  | takes hc => exact latencies_set hc _ hl (Channel.latency_tryReceive _) j
  | enlists hc => exact latencies_set hc _ hl (Channel.latency_receive _ _) j

theorem receipts (h : Traffic cs a deeds cs' a') (hr : a.Regular latencies)
    (hp : (past.filterMap ChannelDeed.given?).Perm (past.filterMap ChannelDeed.resumed? ++ a.receipts)) :
    ((past ++ deeds).filterMap ChannelDeed.given?).Perm
      ((past ++ deeds).filterMap ChannelDeed.resumed? ++ a'.receipts) := by
  have hkeep : ∀ {deeds : List ChannelDeed} {b : Agenda WorkbenchEvent}, deeds.filterMap ChannelDeed.given? = [] →
      deeds.filterMap ChannelDeed.resumed? = [] → b.receipts = a.receipts →
      ((past ++ deeds).filterMap ChannelDeed.given?).Perm
        ((past ++ deeds).filterMap ChannelDeed.resumed? ++ b.receipts) := by
    intro deeds b hgiven hresumed hb
    rw [List.filterMap_append, List.filterMap_append, hgiven, hresumed, List.append_nil, List.append_nil, hb]
    exact hp
  -- What is handed over is to be received, and at once.
  have hserve : ∀ {deeds : List ChannelDeed} {b : Agenda WorkbenchEvent} {v : String} {p : Option Nat},
      deeds.filterMap ChannelDeed.given? = (p.map fun p => (b.now, p, v)).toList →
      deeds.filterMap ChannelDeed.resumed? = [] → b.now < Word.size64 → b.receipts = a.receipts →
      ((past ++ deeds).filterMap ChannelDeed.given?).Perm
        ((past ++ deeds).filterMap ChannelDeed.resumed? ++ (b.serve v p).receipts) := by
    intro deeds b v p hgiven hresumed hnow hb
    rw [List.filterMap_append, List.filterMap_append, hgiven, hresumed, List.append_nil]
    refine ((hp.append_right _).trans ?_).trans ((receipts_serve hnow v p).symm.append_left _)
    rw [List.append_assoc, hb]
    exact List.perm_append_comm.append_left _
  have hgiven : ∀ (i t : Nat) (v : String) (p : Option Nat),
      [ChannelDeed.arrived i t v p].filterMap ChannelDeed.given? = (p.map fun p => (t, p, v)).toList := by
    intro i t v p
    cases p <;> rfl
  cases h with
  | quiet h => exact hkeep rfl rfl (h.filterMap_queue fun t n e he => he.receipt?_eq t n)
  | waits _ h =>
    obtain ⟨_, _, _, _, rfl⟩ := Agenda.next_eq_later.mp h
    exact hkeep rfl rfl rfl
  | begins h he =>
    obtain ⟨n, hpop⟩ := Agenda.filterMap_of_next Scheduled.receipt? h
    rw [he.receipt?_eq] at hpop
    exact hkeep rfl rfl hpop.symm
  | resumes h =>
    obtain ⟨n, hpop⟩ := Agenda.filterMap_of_next Scheduled.receipt? h
    rw [List.filterMap_append, List.filterMap_append, List.append_assoc]
    rw [Agenda.receipts, hpop] at hp
    exact (List.append_nil _).symm ▸ hp
  | posts => exact hkeep rfl rfl (Agenda.filterMap_enqueue_of_none rfl _)
  | passes => exact hserve (hgiven _ _ _ _) rfl hr.now_lt rfl
  | arrives h =>
    obtain ⟨n, hpop⟩ := Agenda.filterMap_of_next Scheduled.receipt? h
    exact hserve (hgiven _ _ _ _) rfl (hr.event h).now_lt hpop.symm
  | takes | enlists => exact hkeep rfl rfl rfl

/-- One channel changes, and so does its account; the other channels keep their books. -/
private theorem books_set {i : Nat} {c c' : Channel String Nat}
    (hb : ∀ (i : Nat) c, cs[i]? = some c → Books (.ofDeeds i past) a i c) (hc : cs[i]? = some c)
    (hu : ∀ j, j ≠ i → a'.underway j = a.underway j) (hd : ∀ x ∈ deeds, x.channel? = some i)
    (hi : Books (deeds.foldl (ChannelAccount.note i) (.ofDeeds i past)) a' i c') (j : Nat) (x : Channel String Nat)
    (hx : (cs.setIfInBounds i c')[j]? = some x) : Books (.ofDeeds j (past ++ deeds)) a' j x := by
  rw [Array.getElem?_setIfInBounds] at hx
  split at hx
  · rename_i hj
    subst hj
    rw [if_pos (Array.getElem?_eq_some_iff.mp hc).1] at hx
    cases hx
    rw [ChannelAccount.ofDeeds_append]
    exact hi
  · rename_i hj
    rw [ChannelAccount.ofDeeds_append_of_ne past fun y hy heq => hj (Option.some.inj ((hd y hy).symm.trans heq))]
    exact (hb j x hx).aside (hu j (Ne.symm hj))

theorem books (h : Traffic cs a deeds cs' a') (hr : a.Regular latencies)
    (hl : ∀ i : Nat, cs[i]?.map Channel.latency = latencies[i]?)
    (hb : ∀ (i : Nat) c, cs[i]? = some c → Books (.ofDeeds i past) a i c) (i : Nat) (c : Channel String Nat)
    (hc : cs'[i]? = some c) : Books (.ofDeeds i (past ++ deeds)) a' i c := by
  have hkeep : ∀ {deeds : List ChannelDeed} {b : Agenda WorkbenchEvent} {c}, (∀ x ∈ deeds, x.channel? = none) →
      b.underway i = a.underway i → cs[i]? = some c → Books (.ofDeeds i (past ++ deeds)) b i c := by
    intro deeds b c hd hu hc
    rw [ChannelAccount.ofDeeds_append_of_ne past fun x hx heq => nomatch (hd x hx).symm.trans heq]
    exact (hb i c hc).aside hu
  -- An event is taken from the queue that is not an arrival at some channel.
  have hnext : ∀ {limit : Nat} {e : WorkbenchEvent} {b : Agenda WorkbenchEvent} (j : Nat), a.next limit = .event e b →
      (∀ t n, Scheduled.underway? j ⟨t, n, e⟩ = none) → b.underway j = a.underway j := by
    intro limit e b j hn he
    obtain ⟨n, hpop⟩ := Agenda.filterMap_of_next (Scheduled.underway? j) hn
    rw [he] at hpop
    exact hpop.symm
  cases h with
  | quiet h => exact hkeep nofun (h.filterMap_queue fun t n e he => he.underway?_eq t n i) hc
  | waits _ h =>
    obtain ⟨_, _, _, _, rfl⟩ := Agenda.next_eq_later.mp h
    exact hkeep nofun rfl hc
  | begins h he => exact hkeep nofun (hnext i h fun t n => he.underway?_eq t n i) hc
  | resumes h => exact hkeep (by simp [ChannelDeed.channel?]) (hnext i h fun _ _ => rfl) hc
  | @posts j d v hd =>
    refine books_set hb hd (fun x hx => ?_) (by simp [ChannelDeed.channel?]) ?_ i c hc
    · exact Agenda.filterMap_enqueue_of_none (if_neg (Ne.symm hx)) _
    · simp only [List.foldl_cons, List.foldl_nil, ChannelAccount.note, if_true]
      exact (hb j d hd).post hr.toTidy v
  | @passes j d v hd hlatency =>
    refine books_set hb hd (fun x _ => underway_serve _ _ _ x) (by simp [ChannelDeed.channel?]) ?_ i c hc
    have hnone : a.underway j = [] := by
      refine List.filterMap_eq_nil_iff.mpr fun s hs => Option.eq_none_iff_forall_not_mem.mpr fun y hy => ?_
      obtain ⟨l, hl', hne⟩ := hr.bound s hs j y.2 (of_underway? hy).1
      exact hne (Option.some.inj (hl'.symm.trans ((latency_of hl hd).trans (congrArg some hlatency))))
    simp only [List.foldl_cons, List.foldl_nil, ChannelAccount.note, if_true]
    exact (hb j d hd).pass hlatency hr.now_lt hnone v
  | @arrives limit j d v b h hd =>
    refine books_set hb hd (fun x hx => ?_) (by simp [ChannelDeed.channel?]) ?_ i c hc
    · exact (underway_serve _ _ _ x).trans (hnext x h fun _ _ => if_neg (Ne.symm hx))
    · obtain ⟨n, hpop⟩ := Agenda.filterMap_of_next (Scheduled.underway? j) h
      rw [underway?_arrive] at hpop
      simp only [List.foldl_cons, List.foldl_nil, ChannelAccount.note, if_true]
      exact (hb j d hd).arrive hpop
  | @takes j d v hd hv =>
    refine books_set hb hd (fun _ _ => rfl) (by simp [ChannelDeed.channel?]) ?_ i c hc
    simp only [List.foldl_cons, List.foldl_nil, ChannelAccount.note, if_true]
    exact (hb j d hd).take hv
  | @enlists j p d hd hp =>
    refine books_set hb hd (fun _ _ => rfl) (by simp [ChannelDeed.channel?]) ?_ i c hc
    simp only [List.foldl_cons, List.foldl_nil, ChannelAccount.note, if_true]
    exact (hb j d hd).enlist hp

end Traffic

theorem ledger_new (latencies : List Nat) (signals : Nat) :
    Ledger latencies [] (Workbench.new latencies signals).channels (Workbench.new latencies signals).agenda where
  regular := start_regular latencies
  channels i := by
    simp only [Workbench.new, List.getElem?_toArray, List.getElem?_map, Option.map_map]
    cases latencies[i]? <;> rfl
  books i c hc := by
    simp only [Workbench.new, List.getElem?_toArray, List.getElem?_map] at hc
    obtain ⟨d, -, rfl⟩ := Option.map_eq_some_iff.mp hc
    exact books_new i d
  receipts := .nil

variable {latencies : List Nat} {past deeds : List ChannelDeed} {cs cs' : Array (Channel String Nat)}
  {a a' : Agenda WorkbenchEvent}

theorem Ledger.traffic (h : Ledger latencies past cs a) (hf : Traffic cs a deeds cs' a') :
    Ledger latencies (past ++ deeds) cs' a' :=
  ⟨hf.regular h.regular h.channels, hf.channels h.channels, hf.books h.regular h.channels h.books,
    hf.receipts h.regular h.receipts⟩

end QuantumNode
