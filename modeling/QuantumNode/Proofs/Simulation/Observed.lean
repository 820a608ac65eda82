import QuantumNode.Proofs.Simulation.Delivery

/-! Channels of a workbench under whatever routines, clients and runs do. What happens to values is recorded beside the
workbench; the record is never looked at. -/
namespace QuantumNode

def Progress.map {σ τ φ : Type} (f : σ → τ) : Progress σ φ → Progress τ φ
  | settled => settled
  | went s => went (f s)
  | failed x s => failed x (f s)

theorem Progress.eq_settled_of_map {σ τ φ : Type} {f : σ → τ} {x : Progress σ φ} (h : x.map f = .settled) :
    x = .settled := by
  cases x with
  | settled => rfl
  | went s | failed y s => exact nomatch h

namespace Workbench

/-! What there is to record of an operation, in the state before it. -/

def arrivalDeeds (w : Workbench) (i : Nat) (v : String) : List ChannelDeed :=
  match w.channels[i]? with
  | none => []
  | some c => [.arrived i w.agenda.now v (c.arrive v).1]

def sendDeeds (w : Workbench) (i : Nat) (v : String) : List ChannelDeed :=
  match w.channels[i]? with
  | none => []
  | some c =>
    .sent i w.agenda.now v :: if c.latency = 0 then (w.setChannel i c.countSent).arrivalDeeds i v else []

def tryReceiveDeeds (w : Workbench) (i : Nat) : List ChannelDeed :=
  match w.channels[i]? with
  | none => []
  | some c =>
    match c.tryReceive.1 with
    | none => []
    | some v => [.taken i v]

def receiveDeeds (w : Workbench) (id i : Nat) : List ChannelDeed :=
  match w.channels[i]? with
  | none => []
  | some c =>
    match (c.receive id).1 with
    | none => [.waited i id]
    | some v => [.taken i v]

def actDeeds (w : Workbench) (id : Nat) : Action → List ChannelDeed
  | .send i v => w.sendDeeds i v
  | .receive i => w.receiveDeeds id i
  | .tryReceive i => w.tryReceiveDeeds i
  | _ => []

def stepDeeds (w : Workbench) (id : Nat) (r : Routine) : List ChannelDeed :=
  match r.frames with
  | [] => []
  | f :: _ =>
    match f.rest with
    | [] => []
    | a :: _ => w.actDeeds id a

def proceedDeeds (w : Workbench) : List ChannelDeed :=
  match w.current with
  | none => []
  | some id =>
    match w.routines.get? id with
    | none => []
    | some r => w.stepDeeds id r

def eventDeeds (w : Workbench) : WorkbenchEvent → List ChannelDeed
  | .resume id (.received v) =>
    match w.routines.get? id with
    | none => []
    | some _ => [.resumed w.agenda.now id v]
  | .arrive i v => w.arrivalDeeds i v
  | _ => []

/-! What the operations do to channels and to the agenda. -/

variable {w : Workbench} {i : Nat}

theorem arrive_eq {c : Channel String Nat} (hc : w.channels[i]? = some c) (v : String) :
    (w.arrive i v).channels = w.channels.setIfInBounds i (c.arrive v).2 ∧
      (w.arrive i v).agenda = w.agenda.serve v (c.arrive v).1 := by
  simp only [arrive, hc]
  split <;> rename_i h <;> rw [h] <;> exact ⟨rfl, rfl⟩

theorem send_traffic (w : Workbench) (i : Nat) (v : String) :
    Traffic w.channels w.agenda (w.sendDeeds i v) (w.send i v).channels (w.send i v).agenda := by
  cases hc : w.channels[i]? with
  | none =>
    simp only [sendDeeds, send, hc]
    exact .quiet .refl
  | some c =>
    simp only [sendDeeds, send, hc]
    split
    · rename_i hl
      have hset : (w.setChannel i c.countSent).channels[i]? = some c.countSent := by
        rw [setChannel, Array.getElem?_setIfInBounds_self_of_lt (Array.getElem?_eq_some_iff.mp hc).1]
      obtain ⟨hchannels, hagenda⟩ := arrive_eq hset v
      rw [hchannels, hagenda, setChannel, Array.setIfInBounds_setIfInBounds, arrivalDeeds, ← setChannel, hset]
      exact .passes v hc hl
    · rename_i hl
      exact .posts v hc hl

private theorem setIfInBounds_self {α : Type} {xs : Array α} {x : α} (h : xs[i]? = some x) :
    xs.setIfInBounds i x = xs := by
  obtain ⟨hi, rfl⟩ := Array.getElem?_eq_some_iff.mp h
  rw [Array.setIfInBounds_def, dif_pos hi, Array.set_getElem_self]

theorem tryReceive_traffic (w : Workbench) (i : Nat) :
    Traffic w.channels w.agenda (w.tryReceiveDeeds i) (w.tryReceive i).2.channels (w.tryReceive i).2.agenda := by
  cases hc : w.channels[i]? with
  | none =>
    simp only [tryReceiveDeeds, tryReceive, hc]
    exact .quiet .refl
  | some c =>
    simp only [tryReceiveDeeds, tryReceive, hc]
    split
    · rename_i hv
      rw [Channel.tryReceive_of_none hv, setChannel, setIfInBounds_self hc]
      exact .quiet .refl
    · rename_i v hv
      exact .takes hc hv

theorem notify_traffic (w : Workbench) (i : Nat) :
    Traffic w.channels w.agenda [] (w.notify i).channels (w.notify i).agenda := by
  have hwake : ∀ (l : List Nat) (v : Workbench), w.agenda.Grows WorkbenchEvent.Plain v.agenda →
      (l.foldl (fun w p => w.resume p .signalled) v).channels = v.channels ∧
        w.agenda.Grows WorkbenchEvent.Plain (l.foldl (fun w p => w.resume p .signalled) v).agenda := by
    intro l
    induction l with
    | nil => exact fun v hg => ⟨rfl, hg⟩
    | cons p l ih => exact fun v hg => ih (v.resume p .signalled) (hg.schedule 0 trivial)
  unfold notify
  split
  · exact .quiet .refl
  · rename_i s hs
    obtain ⟨hchannels, hgrows⟩ := hwake s.notify.1 (w.setSignal i s.notify.2) .refl
    dsimp only
    rw [hchannels]
    exact .quiet hgrows

theorem throw_traffic (w : Workbench) (id : Nat) (r : Routine) (f : Fault) :
    (w.throw id r f).Yields fun w' => Traffic w.channels w.agenda [] w'.channels w'.agenda := by
  unfold Workbench.throw
  split <;> exact .quiet .refl

theorem act_traffic (w : Workbench) (id : Nat) (r : Routine) (a : Action) :
    (w.act id r a).Yields fun w' => Traffic w.channels w.agenda (w.actDeeds id a) w'.channels w'.agenda := by
  cases a with
  | sleep d => exact .quiet (.schedule .refl d trivial)
  | send i v => exact send_traffic w i v
  | receive i =>
    cases hc : w.channels[i]? with
    | none =>
      simp only [act, actDeeds, receiveDeeds, hc]
      exact .quiet .refl
    | some c =>
      cases hv : (c.receive id).1 with
      | none =>
        have hreceive : c.receive id = (none, (c.receive id).2) := by rw [← hv]
        simp only [act, actDeeds, receiveDeeds, hc, hv]
        rw [hreceive]
        exact .enlists hc hv
      | some v =>
        have htry : c.tryReceive.1 = some v := Channel.receive_of_some hv ▸ hv
        have hreceive : c.receive id = (some v, c.tryReceive.2) := by rw [Channel.receive_of_some hv, ← htry]
        simp only [act, actDeeds, receiveDeeds, hc, hv]
        rw [hreceive]
        exact .takes hc htry
  | tryReceive i =>
    have htry := tryReceive_traffic w i
    simp only [act, actDeeds]
    split <;> rename_i h <;> rw [h] at htry <;> exact htry
  | wait i =>
    simp only [act, actDeeds]
    split <;> exact .quiet .refl
  | notify i => exact notify_traffic w i
  | throw m => exact throw_traffic w id r _
  | mark _ | call _ | guarded _ => exact .quiet .refl
  | spawn name body => exact .quiet (.schedule .refl 0 trivial)
  | schedule d label => exact .quiet (.schedule .refl d trivial)

theorem actDeeds_update (w : Workbench) (id : Nat) (r : Routine) (f : List Frame) (a : Action) :
    (w.update id r f).actDeeds id a = w.actDeeds id a := by
  cases a <;> rfl

theorem stepRoutine_traffic (w : Workbench) (id : Nat) (r : Routine) :
    (w.stepRoutine id r).Yields fun w' => Traffic w.channels w.agenda (w.stepDeeds id r) w'.channels w'.agenda := by
  cases hf : r.frames with
  | nil =>
    simp only [stepRoutine, stepDeeds, hf]
    exact .quiet .refl
  | cons f below =>
    cases hrest : f.rest with
    | nil =>
      simp only [stepRoutine, stepDeeds, leave, hf, hrest]
      dsimp only [Progress.Yields]
      split <;> exact .quiet .refl
    | cons a rest =>
      simp only [stepRoutine, stepDeeds, hf, hrest]
      rw [← actDeeds_update w id]
      exact act_traffic _ id _ a

theorem proceed_traffic (w : Workbench) :
    w.proceed.Yields fun w' => Traffic w.channels w.agenda w.proceedDeeds w'.channels w'.agenda := by
  cases hc : w.current with
  | none =>
    simp only [proceed, hc]
    exact trivial
  | some id =>
    cases hr : w.routines.get? id with
    | none =>
      simp only [proceed, proceedDeeds, hc, hr]
      exact .quiet .refl
    | some r =>
      simp only [proceed, proceedDeeds, hc, hr]
      exact stepRoutine_traffic w id r

theorem begin_traffic {latencies : List Nat} (hp : w.Placed) (hr : w.agenda.Regular latencies)
    (hl : ∀ i : Nat, w.channels[i]?.map Channel.latency = latencies[i]?) {limit : Nat} {e : WorkbenchEvent}
    {a : Agenda WorkbenchEvent} (hn : w.agenda.next limit = .event e a) :
    Traffic w.channels w.agenda ({ w with agenda := a }.eventDeeds e) ({ w with agenda := a }.begin e).channels
      ({ w with agenda := a }.begin e).agenda := by
  obtain ⟨s, r, hq, -, hse, -⟩ := Agenda.next_eq_event.mp hn
  have hs : s ∈ w.agenda.queue := hq ▸ List.mem_cons_self
  cases e with
  | resume id why =>
    obtain ⟨r, hget⟩ := Option.isSome_iff_exists.mp (hp.alive_of_wakes hs (by rw [← hse]; rfl))
    simp only [begin, hget]
    cases why with
    | received v =>
      simp only [eventDeeds, hget]
      exact .resumes hn
    | _ => exact .begins hn trivial
  | arrive i v =>
    obtain ⟨d, hd, -⟩ := hr.bound s hs i v hse.symm
    obtain ⟨c, hc, -⟩ := Option.map_eq_some_iff.mp ((hl i).trans hd)
    obtain ⟨hchannels, hagenda⟩ := arrive_eq (w := { w with agenda := a }) hc v
    simp only [begin, eventDeeds, arrivalDeeds, hchannels, hagenda, hc]
    exact .arrives hn hc
  | label text => exact .begins hn trivial

end Workbench

/-! A workbench with its record. -/

structure Observed where
  bench : Workbench
  deeds : List ChannelDeed

/-- What is done to a workbench from outside, between runs. -/
inductive WorkbenchAct where
  | send (channel : Nat) (text : String)
  | tryReceive (channel : Nat)
  | notify (signal : Nat)
  | spawn (name : String) (body : List Action)
  | schedule (delay : Nat) (label : String)

namespace Observed

instance : World Observed WorkbenchEvent Fault where
  agenda o := o.bench.agenda
  setAgenda o a := { o with bench := { o.bench with agenda := a } }
  begin o e := (none, ⟨o.bench.begin e, o.deeds ++ o.bench.eventDeeds e⟩)
  proceed o := o.bench.proceed.map fun w => ⟨w, o.deeds ++ o.bench.proceedDeeds⟩

def act (o : Observed) : WorkbenchAct → Observed
  | .send i v => ⟨o.bench.send i v, o.deeds ++ o.bench.sendDeeds i v⟩
  | .tryReceive i => ⟨(o.bench.tryReceive i).2, o.deeds ++ o.bench.tryReceiveDeeds i⟩
  | .notify i => ⟨o.bench.notify i, o.deeds⟩
  | .spawn name body => ⟨o.bench.spawn name body, o.deeds⟩
  | .schedule d label => ⟨o.bench.schedule d (.label label), o.deeds⟩

/-- What can come of acts from outside and of runs, however these are cut short. -/
inductive Reached (latencies : List Nat) (signals : Nat) : Observed → Prop where
  | built : Reached latencies signals ⟨.new latencies signals, []⟩
  | act {o : Observed} (h : Reached latencies signals o) (hc : o.bench.current = none) (a : WorkbenchAct) :
      Reached latencies signals (o.act a)
  | run {o : Observed} (h : Reached latencies signals o) {limit : Nat} (hl : limit ≤ forever) (fuel : Nat) :
      Reached latencies signals (World.run limit fuel 0 o).world

/-- Nothing depends on the record. -/
theorem run_bench (limit fuel events : Nat) (o : Observed) :
    (World.run limit fuel events o.bench).world = (World.run limit fuel events o).world.bench ∧
      (World.run limit fuel events o.bench).halt = (World.run limit fuel events o).halt ∧
      (World.run limit fuel events o.bench).events = (World.run limit fuel events o).events := by
  induction fuel generalizing events o with
  | zero => exact ⟨rfl, rfl, rfl⟩
  | succ fuel ih =>
    rw [World.run, World.run]
    simp only [World.proceed, World.agenda]
    cases o.bench.proceed with
    | went w => exact ih events ⟨w, o.deeds ++ o.bench.proceedDeeds⟩
    | failed f w => exact ⟨rfl, rfl, rfl⟩
    | settled =>
      simp only [Progress.map]
      cases o.bench.agenda.next limit with
      | nothing => exact ⟨rfl, rfl, rfl⟩
      | later a => exact ⟨rfl, rfl, rfl⟩
      | event e a =>
        let w : Workbench := { o.bench with agenda := a }
        exact ih (events + 1) ⟨w.begin e, o.deeds ++ w.eventDeeds e⟩

/-! Every step keeps the books. -/

structure Sound (latencies : List Nat) (o : Observed) : Prop where
  placed : o.bench.Placed
  ledger : Ledger latencies o.deeds o.bench.channels o.bench.agenda

variable {latencies : List Nat} {signals limit : Nat} {o : Observed}

theorem built_sound (latencies : List Nat) (signals : Nat) : Sound latencies ⟨.new latencies signals, []⟩ :=
  ⟨Workbench.new_placed latencies signals, ledger_new latencies signals⟩

theorem Sound.act (h : o.Sound latencies) (a : WorkbenchAct) : (o.act a).Sound latencies := by
  have hquiet : ∀ {w : Workbench}, w.Placed → Traffic o.bench.channels o.bench.agenda [] w.channels w.agenda →
      (⟨w, o.deeds⟩ : Observed).Sound latencies := by
    intro w hw hf
    have hledger := h.ledger.traffic hf
    rw [List.append_nil] at hledger
    exact ⟨hw, hledger⟩
  cases a with
  | send i v => exact ⟨h.placed.send i v, h.ledger.traffic (o.bench.send_traffic i v)⟩
  | tryReceive i => exact ⟨h.placed.tryReceive i, h.ledger.traffic (o.bench.tryReceive_traffic i)⟩
  | notify i => exact hquiet (h.placed.notify i) (o.bench.notify_traffic i)
  | spawn name body => exact hquiet (h.placed.spawn name body) (.quiet (.schedule .refl 0 trivial))
  | schedule d label => exact hquiet (h.placed.label d label) (.quiet (.schedule .refl d trivial))

/-- A small step of a routine. -/
theorem Sound.proceed (h : o.Sound latencies) : (World.proceed o).Yields (Sound latencies) := by
  have hplaced := h.placed.proceed
  have htraffic := o.bench.proceed_traffic
  change (o.bench.proceed.map _).Yields _
  cases hp : o.bench.proceed with
  | settled => exact trivial
  | went w | failed f w =>
    rw [hp] at hplaced htraffic
    exact ⟨hplaced, h.ledger.traffic htraffic⟩

theorem Sound.begin (h : o.Sound latencies) (hc : o.bench.current = none) {e : WorkbenchEvent}
    {a : Agenda WorkbenchEvent} (hn : o.bench.agenda.next limit = .event e a) :
    (World.begin (World.setAgenda o a) e).2.Sound latencies :=
  ⟨h.placed.begin hc hn,
    h.ledger.traffic (Workbench.begin_traffic h.placed h.ledger.regular h.ledger.channels hn)⟩

theorem Sound.wait (h : o.Sound latencies) (hl : limit ≤ forever) {a : Agenda WorkbenchEvent}
    (hn : o.bench.agenda.next limit = .later a) : (World.setAgenda o a).Sound latencies := by
  have hledger := h.ledger.traffic (.waits hl hn)
  rw [List.append_nil] at hledger
  obtain ⟨_, _, _, _, rfl⟩ := Agenda.next_eq_later.mp hn
  exact ⟨⟨h.placed.once, h.placed.alive, h.placed.fresh⟩, hledger⟩

/-- A run keeps the books; if it comes to its end, nothing that is left is due by the limit. -/
theorem Sound.run (h : o.Sound latencies) (hl : limit ≤ forever) (fuel events : Nat) :
    (World.run limit fuel events o).world.Sound latencies ∧
      ((World.run limit fuel events o).halt = .exhausted ∨ (World.run limit fuel events o).halt = .limit →
        ∀ s ∈ (World.run limit fuel events o).world.bench.agenda.queue, limit < s.time) := by
  induction fuel generalizing o events with
  | zero => exact ⟨h, fun hh => hh.elim nofun nofun⟩
  | succ fuel ih =>
    have hproceed := h.proceed
    rw [World.run]
    cases hp : World.proceed o with
    | went o' =>
      rw [hp] at hproceed
      exact ih hproceed events
    | failed f o' =>
      rw [hp] at hproceed
      exact ⟨hproceed, fun hh => hh.elim nofun nofun⟩
    | settled =>
      have hc : o.bench.current = none := Workbench.current_of_settled (Progress.eq_settled_of_map hp)
      cases hn : o.bench.agenda.next limit with
      | nothing =>
        refine ⟨h, fun _ => ?_⟩
        rw [Agenda.next_eq_nothing.mp hn]
        exact nofun
      | later a =>
        exact ⟨h.wait hl hn, fun _ => h.ledger.regular.lt_of_later hn⟩
      | event e a =>
        exact ih (h.begin hc hn) (events + 1)

theorem Reached.sound (h : Reached latencies signals o) : o.Sound latencies := by
  induction h with
  | built => exact built_sound latencies signals
  | act _ _ a ih => exact ih.act a
  | run _ hl fuel ih => exact (ih.run hl fuel 0).1

/-! Channels. -/

def account (o : Observed) (i : Nat) : ChannelAccount := .ofDeeds i o.deeds

/-- What a channel with a latency has made of what was sent through it. -/
structure Carries (o : Observed) (i latency : Nat) (c : Channel String Nat) : Prop where
  latency_eq : c.latency = latency
  counted : c.sent = (o.account i).sent.length
  /-- Every value arrives when it is due, once, or is still under way. -/
  onTime : ((o.account i).sent.map fun x => ((x.1 + latency) % Word.size64, x.2)).Perm
    ((o.account i).arrived ++ o.bench.agenda.underway i)
  /-- Values are handed out in the order in which they arrive. -/
  lossless : (o.account i).arrived.map Prod.snd = (o.account i).handed ++ c.items
  apart : c.items = [] ∨ c.waiters = []
  inTurn : (o.account i).waited = (o.account i).served ++ c.waiters
  /-- Values are handed out in the order in which they are sent, if the clock does not go back between them and their
  times stay below the largest. -/
  inOrder : (o.account i).sent.Pairwise (fun x y => x.1 ≤ y.1) →
    (∀ x ∈ (o.account i).sent, x.1 + latency < Word.size64) →
    (o.account i).sent.map Prod.snd = (o.account i).handed ++ c.items ++ (o.bench.agenda.underway i).map Prod.snd

theorem Sound.carries (h : o.Sound latencies) {i d : Nat} (hd : latencies[i]? = some d) :
    ∃ c, o.bench.channels[i]? = some c ∧ o.Carries i d c := by
  obtain ⟨c, hc, rfl⟩ := Option.map_eq_some_iff.mp ((h.ledger.channels i).trans hd)
  have hbooks := h.ledger.books i c hc
  refine ⟨c, hc, rfl, hbooks.counted, hbooks.onTime, hbooks.shelf.lossless, hbooks.shelf.apart, hbooks.shelf.inTurn, ?_⟩
  intro hmono hfit
  have horder := congrArg (List.map Prod.snd) (hbooks.inOrder hmono hfit)
  rw [List.map_append, List.map_map, hbooks.shelf.lossless] at horder
  exact horder

/-- Whatever routines, clients and runs do, channels lose and double nothing, hand out what has arrived in that order and
serve those who wait in turn. A value arrives when it is due, and whoever waits for it goes on at that time; when a run
has come to its end, this has happened to all that is due by its limit. -/
theorem Reached.channels_deliver (h : Reached latencies signals o) :
    (∀ i d, latencies[i]? = some d → ∃ c, o.bench.channels[i]? = some c ∧ o.Carries i d c) ∧
      (o.deeds.filterMap ChannelDeed.given?).Perm
        (o.deeds.filterMap ChannelDeed.resumed? ++ o.bench.agenda.receipts) ∧
      ∀ limit fuel, limit ≤ forever →
        (World.run limit fuel 0 o).halt = .exhausted ∨ (World.run limit fuel 0 o).halt = .limit →
        (∀ i, ∀ x ∈ (World.run limit fuel 0 o).world.bench.agenda.underway i, limit < x.1) ∧
          ∀ x ∈ (World.run limit fuel 0 o).world.bench.agenda.receipts, limit < x.1 := by
  refine ⟨fun i d hd => h.sound.carries hd, h.sound.ledger.receipts, fun limit fuel hl hh => ⟨fun i x hx => ?_,
    fun x hx => ?_⟩⟩
  · obtain ⟨s, hs, hx⟩ := List.mem_filterMap.mp hx
    rw [← (of_underway? hx).2]
    exact (h.sound.run hl fuel 0).2 hh s hs
  · obtain ⟨s, hs, hx⟩ := List.mem_filterMap.mp hx
    rw [← time_of_receipt? hx]
    exact (h.sound.run hl fuel 0).2 hh s hs

/-- Two routines wait at a channel, and two values are sent to them. -/
def awaited : Observed :=
  let o : Observed := ⟨.new [5] 0, []⟩
  let o := (World.run 0 12 0 ((o.act (.spawn "p" [.receive 0])).act (.spawn "q" [.receive 0]))).world
  (World.run 5 12 0 ((o.act (.send 0 "x")).act (.send 0 "y"))).world

theorem awaited_delivered :
    Reached [5] 0 awaited ∧ (∃ c, awaited.bench.channels[0]? = some c ∧ awaited.Carries 0 5 c) ∧
      (awaited.deeds.filterMap ChannelDeed.given?).Perm
        (awaited.deeds.filterMap ChannelDeed.resumed? ++ awaited.bench.agenda.receipts) ∧
      awaited.deeds.filterMap ChannelDeed.resumed? = [(5, 0, "x"), (5, 1, "y")] := by
  have hwait := (((@Reached.built [5] 0).act rfl (.spawn "p" [.receive 0])).act rfl (.spawn "q" [.receive 0])).run
    (show 0 ≤ forever by decide) 12
  have hreached : Reached [5] 0 awaited :=
    ((hwait.act (by decide) (.send 0 "x")).act (by decide) (.send 0 "y")).run (show 5 ≤ forever by decide) 12
  exact ⟨hreached, hreached.channels_deliver.1 0 5 rfl, hreached.channels_deliver.2.1, by decide⟩

/-- A latency of almost the whole range of times, and a second value that is sent after the clock has moved on. -/
def overtaken : Observed :=
  let o : Observed := ⟨.new [18446744073709551610] 0, []⟩
  let o := (World.run 10 4 0 ((o.act (.send 0 "a")).act (.schedule 10 "tick"))).world
  let o := (World.run forever 4 0 (o.act (.send 0 "b"))).world
  (o.act (.tryReceive 0)).act (.tryReceive 0)

/-- A sum of a time and a latency that is too large for a time brings a value forward, past one that was sent earlier. -/
theorem later_value_first :
    Reached [18446744073709551610] 0 overtaken ∧ (overtaken.account 0).sent = [(0, "a"), (10, "b")] ∧
      (overtaken.account 0).arrived = [(4, "b"), (18446744073709551610, "a")] ∧
      (overtaken.account 0).handed = ["b", "a"] ∧
      (overtaken.account 0).handed ≠ (overtaken.account 0).sent.map Prod.snd := by
  refine ⟨?_, by decide, by decide, by decide, by decide⟩
  have hfirst := (((@Reached.built [18446744073709551610] 0).act rfl (.send 0 "a")).act rfl (.schedule 10 "tick")).run
    (show 10 ≤ forever by decide) 4
  have hsecond := (hfirst.act (by decide) (.send 0 "b")).run (le_refl forever) 4
  exact (hsecond.act (by decide) (.tryReceive 0)).act (by decide) (.tryReceive 0)

end Observed

end QuantumNode
