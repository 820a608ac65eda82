import Mathlib.Algebra.Order.Ring.Nat
import Mathlib.Data.List.Count
import QuantumNode.Proofs.Simulation.Agenda
import QuantumNode.Simulation.Workbench

/-! Where the routines of a workbench are. A routine that is to go on is going on, waits at a channel, waits at a
signal, or is to be resumed by an event; it is in one of these places only, and it has not ended. -/
namespace QuantumNode

/-- Whatever state a small step comes to has a property. -/
def Progress.Yields {σ φ : Type} (P : σ → Prop) : Progress σ φ → Prop
  | settled => True
  | went s => P s
  | failed _ s => P s

def WorkbenchEvent.wakes? : WorkbenchEvent → Option Nat
  | resume p _ => some p
  | _ => none

/-- Replacing one element of a list changes a sum over it by what the two elements differ in. -/
private theorem sum_map_set {α : Type} {l : List α} {i : Nat} {x : α} (h : l[i]? = some x) (y : α) (f : α → Nat) :
    ((l.set i y).map f).sum + f x = (l.map f).sum + f y := by
  induction l generalizing i with
  | nil => exact nomatch h
  | cons z l ih =>
    cases i with
    | zero =>
      cases h
      simp only [List.set_cons_zero, List.map_cons, List.sum_cons]
      omega
    | succ i =>
      have hrest := ih h
      simp only [List.set_cons_succ, List.map_cons, List.sum_cons]
      omega

namespace Workbench

/-- In how many places a routine is. -/
def places (w : Workbench) (p : Nat) : Nat :=
  w.current.toList.count p + (w.channels.toList.map fun c => c.waiters.count p).sum +
    (w.signals.toList.map fun s => s.waiters.count p).sum + (w.agenda.queue.filterMap (·.event.wakes?)).count p

structure Placed (w : Workbench) : Prop where
  once : ∀ p, w.places p ≤ 1
  alive : ∀ p, 0 < w.places p → (w.routines.get? p).isSome
  fresh : ∀ p, (w.routines.get? p).isSome → p < w.fresh

variable {w w' : Workbench} {i id : Nat}

/-! How many places the operations give a routine. -/

theorem places_setChannel {c : Channel String Nat} (hc : w.channels[i]? = some c) (c' : Channel String Nat) (p : Nat) :
    (w.setChannel i c').places p + c.waiters.count p = w.places p + c'.waiters.count p := by
  have hsum := sum_map_set (l := w.channels.toList) (by rw [← hc, Array.getElem?_toList]) c' fun c => c.waiters.count p
  simp only [places, setChannel, Array.toList_setIfInBounds]
  omega

theorem places_setSignal {s : Signal Nat} (hs : w.signals[i]? = some s) (s' : Signal Nat) (p : Nat) :
    (w.setSignal i s').places p + s.waiters.count p = w.places p + s'.waiters.count p := by
  have hsum := sum_map_set (l := w.signals.toList) (by rw [← hs, Array.getElem?_toList]) s' fun s => s.waiters.count p
  simp only [places, setSignal, Array.toList_setIfInBounds]
  omega

theorem places_schedule (w : Workbench) (d : Nat) (e : WorkbenchEvent) (p : Nat) :
    (w.schedule d e).places p = w.places p + e.wakes?.toList.count p := by
  have hqueue := ((Agenda.enqueue_perm ⟨(w.agenda.now + d) % Word.size64, w.agenda.seq, e⟩ w.agenda.queue).filterMap
    (·.event.wakes?)).count_eq p
  simp only [places, schedule, Agenda.schedule, hqueue, List.filterMap_cons]
  cases e.wakes? with
  | none => rfl
  | some q =>
    simp only [Option.toList_some, List.count_cons, List.count_nil]
    omega

theorem places_resume (w : Workbench) (q : Nat) (why : RoutineWake) (p : Nat) :
    (w.resume q why).places p = w.places p + [q].count p :=
  places_schedule w 0 (.resume q why) p

theorem places_rest (hc : w.current = some id) (p : Nat) : w.rest.places p + [id].count p = w.places p := by
  simp only [places, rest, hc, Option.toList_none, Option.toList_some, List.count_nil]
  omega

theorem places_arrive (w : Workbench) (i : Nat) (text : String) (p : Nat) : (w.arrive i text).places p = w.places p := by
  unfold arrive
  split
  · rfl
  · rename_i c hc
    cases hw : c.waiters with
    | nil =>
      have h := places_setChannel hc { c with items := c.items ++ [text] } p
      simp only [Channel.arrive, hw]
      simp only [hw] at h
      omega
    | cons q ps =>
      have h := places_setChannel hc { c with waiters := ps } p
      simp only [Channel.arrive, hw, places_resume, List.count_singleton]
      simp only [hw, List.count_cons] at h
      omega

theorem places_send (w : Workbench) (i : Nat) (text : String) (p : Nat) : (w.send i text).places p = w.places p := by
  unfold send
  split
  · rfl
  · rename_i c hc
    have h := places_setChannel hc c.countSent p
    simp only [Channel.countSent] at h
    dsimp only
    split
    · rw [places_arrive]
      exact Nat.add_right_cancel h
    · rw [places_schedule]
      exact Nat.add_right_cancel h

theorem places_tryReceive (w : Workbench) (i p : Nat) : (w.tryReceive i).2.places p = w.places p := by
  unfold tryReceive
  split
  · rfl
  · rename_i c hc
    have h := places_setChannel hc c.tryReceive.2 p
    have hsame : c.tryReceive.2.waiters = c.waiters := by
      unfold Channel.tryReceive
      split <;> rfl
    rw [hsame] at h
    exact Nat.add_right_cancel h

theorem places_wake (w : Workbench) (l : List Nat) (p : Nat) :
    (l.foldl (fun w q => w.resume q .signalled) w).places p = w.places p + l.count p := by
  induction l generalizing w with
  | nil => rfl
  | cons q l ih =>
    rw [List.foldl_cons, ih, places_resume, List.count_singleton, List.count_cons]
    omega

theorem places_notify (w : Workbench) (i p : Nat) : (w.notify i).places p = w.places p := by
  unfold notify
  split
  · rfl
  · rename_i s hs
    have h := places_setSignal hs s.notify.2 p
    simp only [Signal.notify, List.count_nil] at h
    simp only [Signal.notify, places_wake]
    omega

/-! What the operations do to the routines that there are. -/

theorem routines_arrive (w : Workbench) (i : Nat) (text : String) :
    (w.arrive i text).routines = w.routines ∧ (w.arrive i text).fresh = w.fresh := by
  unfold arrive
  split
  · exact ⟨rfl, rfl⟩
  · rename_i c hc
    cases hw : c.waiters <;> simp only [Channel.arrive, hw] <;> exact ⟨rfl, rfl⟩

theorem routines_send (w : Workbench) (i : Nat) (text : String) :
    (w.send i text).routines = w.routines ∧ (w.send i text).fresh = w.fresh := by
  unfold send
  split
  · exact ⟨rfl, rfl⟩
  · dsimp only
    split
    · exact routines_arrive _ _ _
    · exact ⟨rfl, rfl⟩

theorem routines_tryReceive (w : Workbench) (i : Nat) :
    (w.tryReceive i).2.routines = w.routines ∧ (w.tryReceive i).2.fresh = w.fresh := by
  unfold tryReceive
  split <;> exact ⟨rfl, rfl⟩

theorem routines_notify (w : Workbench) (i : Nat) :
    (w.notify i).routines = w.routines ∧ (w.notify i).fresh = w.fresh := by
  unfold notify
  split
  · exact ⟨rfl, rfl⟩
  · rename_i s hs
    have hwake : ∀ (l : List Nat) (w : Workbench),
        (l.foldl (fun w q => w.resume q .signalled) w).routines = w.routines ∧
          (l.foldl (fun w q => w.resume q .signalled) w).fresh = w.fresh := by
      intro l
      induction l with
      | nil => exact fun _ => ⟨rfl, rfl⟩
      | cons q l ih => exact fun w => ih (w.resume q .signalled)
    exact hwake _ _

/-! Steps. -/

theorem new_placed (latencies : List Nat) (signals : Nat) : (new latencies signals).Placed := by
  have hnone : ∀ p, (new latencies signals).places p = 0 := by
    intro p
    simp [places, new, Channel.new, Signal.new, Agenda.start, Function.comp_def]
  exact ⟨fun p => (hnone p).trans_le (Nat.zero_le 1), fun p hp => absurd (hnone p) (Nat.ne_of_gt hp), nofun⟩

/-- Nothing begins or ends, and no routine is in more places than before. -/
theorem Placed.rearrange (h : w.Placed) (hp : ∀ p, w'.places p ≤ w.places p)
    (hr : ∀ p, (w'.routines.get? p).isSome = (w.routines.get? p).isSome) (hf : w'.fresh = w.fresh) : w'.Placed where
  once p := (hp p).trans (h.once p)
  alive p hpos := (hr p).trans (h.alive p (hpos.trans_le (hp p)))
  fresh p hsome := hf ▸ h.fresh p ((hr p).symm.trans hsome)

theorem Placed.arrive (h : w.Placed) (i : Nat) (text : String) : (w.arrive i text).Placed :=
  have hroutines := routines_arrive w i text
  h.rearrange (fun p => (places_arrive w i text p).le) (fun p => by rw [hroutines.1]) hroutines.2

theorem Placed.send (h : w.Placed) (i : Nat) (text : String) : (w.send i text).Placed :=
  have hroutines := routines_send w i text
  h.rearrange (fun p => (places_send w i text p).le) (fun p => by rw [hroutines.1]) hroutines.2

theorem Placed.tryReceive (h : w.Placed) (i : Nat) : (w.tryReceive i).2.Placed :=
  have hroutines := routines_tryReceive w i
  h.rearrange (fun p => (places_tryReceive w i p).le) (fun p => by rw [hroutines.1]) hroutines.2

theorem Placed.notify (h : w.Placed) (i : Nat) : (w.notify i).Placed :=
  have hroutines := routines_notify w i
  h.rearrange (fun p => (places_notify w i p).le) (fun p => by rw [hroutines.1]) hroutines.2

theorem Placed.label (h : w.Placed) (d : Nat) (text : String) : (w.schedule d (.label text)).Placed :=
  h.rearrange (fun p => (places_schedule w d (.label text) p).le) (fun _ => rfl) rfl

/-- The routine that goes on ends. -/
theorem Placed.finish (h : w.Placed) (hc : w.current = some id) :
    ({ w with routines := w.routines.erase id }.rest).Placed := by
  have hplaces : ∀ p, ({ w with routines := w.routines.erase id }.rest).places p + [id].count p = w.places p :=
    fun p => places_rest hc p
  refine ⟨fun p => ?_, fun p hpos => ?_, fun p hsome => ?_⟩
  · have := hplaces p
    have := h.once p
    omega
  · have hne : p ≠ id := by
      rintro rfl
      have := hplaces p
      have := h.once p
      rw [List.count_singleton_self] at *
      omega
    have hsome := h.alive p (by have := hplaces p; omega)
    exact (congrArg Option.isSome (SortedMap.get?_erase_of_ne _ hne)).trans hsome
  · by_cases hp : p = id
    · subst hp
      exact nomatch (congrArg Option.isSome (SortedMap.get?_erase_self w.routines p)).symm.trans hsome
    · exact h.fresh p ((congrArg Option.isSome (SortedMap.get?_erase_of_ne _ hp)).symm.trans hsome)

theorem Placed.spawn (h : w.Placed) (name : String) (body : List Action) : (w.spawn name body).Placed := by
  have hnew : w.places w.fresh = 0 := by
    refine Nat.eq_zero_of_not_pos fun hpos => ?_
    exact Nat.lt_irrefl _ (h.fresh _ (h.alive _ hpos))
  have hplaces : ∀ p, (w.spawn name body).places p = w.places p + [w.fresh].count p := fun p => places_resume _ _ _ _
  have hget : ∀ p, p ≠ w.fresh → (w.spawn name body).routines.get? p = w.routines.get? p :=
    fun p hp => SortedMap.get?_insert_of_ne _ hp _
  refine ⟨fun p => ?_, fun p hpos => ?_, fun p hsome => ?_⟩
  all_goals by_cases hp : p = w.fresh
  · rw [hp, hplaces, hnew, List.count_singleton_self, Nat.zero_add]
  · rw [hplaces, List.count_singleton, beq_false_of_ne (Ne.symm hp)]
    exact h.once p
  · rw [hp]
    exact congrArg Option.isSome (SortedMap.get?_insert_self _ _ _)
  · rw [hget p hp]
    rw [hplaces, List.count_singleton, beq_false_of_ne (Ne.symm hp)] at hpos
    exact h.alive p hpos
  · exact hp ▸ Nat.lt_succ_self _
  · exact Nat.lt_succ_of_lt (h.fresh p (hget p hp ▸ hsome))

theorem isSome_update {r₀ : Routine} (hr : w.routines.get? id = some r₀) (r : Routine) (f : List Frame) (p : Nat) :
    ((w.update id r f).routines.get? p).isSome = (w.routines.get? p).isSome := by
  by_cases hp : p = id
  · subst hp
    exact (congrArg Option.isSome (SortedMap.get?_insert_self _ _ _)).trans (congrArg Option.isSome hr).symm
  · exact congrArg Option.isSome (SortedMap.get?_insert_of_ne _ hp _)

theorem Placed.update (h : w.Placed) {r₀ : Routine} (hr : w.routines.get? id = some r₀) (r : Routine) (f : List Frame) :
    (w.update id r f).Placed :=
  h.rearrange (fun _ => le_rfl) (isSome_update hr r f) rfl

theorem Placed.note (h : w.Placed) (who what : String) : (w.note who what).Placed := ⟨h.once, h.alive, h.fresh⟩

theorem Placed.throw (h : w.Placed) (hc : w.current = some id) {r₀ : Routine} (hr : w.routines.get? id = some r₀)
    (r : Routine) (f : Fault) : (w.throw id r f).Yields Placed := by
  unfold Workbench.throw
  split
  · exact (h.update hr r _).note _ _
  · exact h.finish hc

theorem Placed.act (h : w.Placed) (hc : w.current = some id) {r₀ : Routine} (hr : w.routines.get? id = some r₀)
    (r : Routine) (a : Action) : (w.act id r a).Yields Placed := by
  have hrest := places_rest hc
  cases a with
  | sleep d =>
    refine h.rearrange (fun p => Nat.le_of_eq ?_) (fun _ => rfl) rfl
    have hgo := places_rest (w := w.schedule d (.resume id .slept)) hc p
    rw [places_schedule] at hgo
    exact Nat.add_right_cancel hgo
  | send i text => exact h.send i text
  | receive i =>
    unfold Workbench.act
    dsimp only
    split
    · exact h.rearrange (fun p => by have := hrest p; omega) (fun _ => rfl) rfl
    · rename_i c hch
      cases hi : c.items with
      | nil =>
        simp only [Channel.receive, hi]
        refine h.rearrange (fun p => ?_) (fun _ => rfl) rfl
        have hset := places_setChannel hch { c with waiters := c.waiters ++ [id] } p
        have hgo := places_rest (w := w.setChannel i { c with waiters := c.waiters ++ [id] }) hc p
        rw [List.count_append] at hset
        simp only [hi] at hset hgo
        omega
      | cons v vs =>
        simp only [Channel.receive, hi]
        refine (h.rearrange (fun p => ?_) (fun _ => rfl) rfl : (w.setChannel i { c with items := vs }).Placed).note _ _
        exact (Nat.add_right_cancel (places_setChannel hch { c with items := vs } p)).le
  | tryReceive i =>
    have htry := h.tryReceive i
    unfold Workbench.act
    dsimp only
    split
    · rename_i hx
      exact (congrArg Prod.snd hx ▸ htry).note _ _
    · rename_i hx
      exact (congrArg Prod.snd hx ▸ htry).note _ _
  | wait i =>
    unfold Workbench.act
    dsimp only
    split
    · exact h.rearrange (fun p => by have := hrest p; omega) (fun _ => rfl) rfl
    · rename_i s hs
      refine h.rearrange (fun p => ?_) (fun _ => rfl) rfl
      have hset := places_setSignal hs (s.wait id) p
      have hgo := places_rest (w := w.setSignal i (s.wait id)) hc p
      simp only [Signal.wait, List.count_append] at hset hgo ⊢
      omega
  | notify i => exact h.notify i
  | mark text => exact h.note _ _
  | throw m => exact h.throw hc hr r _
  | call body | guarded body => exact h.update hr r _
  | spawn name body => exact h.spawn name body
  | schedule d label => exact h.label d label

private theorem act_ne_settled (w : Workbench) (id : Nat) (r : Routine) (a : Action) : w.act id r a ≠ .settled := by
  cases a with
  | receive i | tryReceive i | wait i =>
    unfold Workbench.act
    dsimp only
    repeat' split
    all_goals exact nofun
  | throw m =>
    unfold Workbench.act Workbench.throw
    dsimp only
    split <;> exact nofun
  | _ => exact nofun

/-- While a routine goes on, no event is looked at. -/
theorem current_of_settled (h : w.proceed = .settled) : w.current = none := by
  cases hc : w.current with
  | none => rfl
  | some id =>
    simp only [proceed, hc] at h
    split at h
    · cases h
    · unfold stepRoutine at h
      split at h
      · cases h
      · split at h
        · cases h
        · exact absurd h (act_ne_settled _ _ _ _)

theorem Placed.proceed (h : w.Placed) : w.proceed.Yields Placed := by
  unfold Workbench.proceed
  split
  · exact trivial
  · rename_i id hc
    split
    · exact h.rearrange (fun p => by have := places_rest hc p; omega) (fun _ => rfl) rfl
    · rename_i r hr
      unfold stepRoutine
      split
      · exact h.rearrange (fun p => by have := places_rest hc p; omega) (fun _ => rfl) rfl
      · rename_i f below _
        split
        · unfold leave
          dsimp only [Progress.Yields]
          split
          · exact ⟨(h.finish hc).once, (h.finish hc).alive, (h.finish hc).fresh⟩
          · exact (h.update hr r below).note _ _
        · exact (h.update hr _ _).act hc (SortedMap.get?_insert_self _ _ _) _ _

/-- A routine that an event resumes has not ended. -/
theorem Placed.alive_of_wakes (h : w.Placed) {s : Scheduled WorkbenchEvent} (hs : s ∈ w.agenda.queue)
    (hw : s.event.wakes? = some id) : (w.routines.get? id).isSome := by
  refine h.alive id (Nat.lt_of_lt_of_le ?_ (Nat.le_add_left _ _))
  exact List.count_pos_iff.mpr (List.mem_filterMap.mpr ⟨s, hs, hw⟩)

theorem Placed.begin (h : w.Placed) (hc : w.current = none) {limit : Nat} {e : WorkbenchEvent}
    {a : Agenda WorkbenchEvent} (hn : w.agenda.next limit = .event e a) : ({ w with agenda := a }.begin e).Placed := by
  obtain ⟨s, r, hq, -, rfl, rfl⟩ := Agenda.next_eq_event.mp hn
  let v : Workbench := { w with agenda := { w.agenda with now := s.time, queue := r } }
  have hpop : ∀ p, v.places p + s.event.wakes?.toList.count p = w.places p := by
    intro p
    simp only [places, hq, List.filterMap_cons, v]
    cases s.event.wakes? with
    | none => rfl
    | some q =>
      simp only [Option.toList_some, List.count_cons, List.count_nil]
      omega
  have hv : v.Placed := h.rearrange (fun p => Nat.le_of_add_right_le (hpop p).le) (fun _ => rfl) rfl
  change (v.begin s.event).Placed
  cases he : s.event with
  | resume id why =>
    have halive := h.alive_of_wakes (s := s) (by rw [hq]; exact List.mem_cons_self) (by rw [he]; rfl)
    unfold Workbench.begin
    dsimp only
    split
    · rename_i hnone
      exact nomatch (congrArg Option.isSome hnone).symm.trans halive
    · have hgo : ({ v with current := some id } : Workbench).Placed := by
        refine h.rearrange (fun p => Nat.le_of_eq ?_) (fun _ => rfl) rfl
        have := hpop p
        simp only [places, he, hc, WorkbenchEvent.wakes?, Option.toList_none, Option.toList_some, List.count_nil, v] at *
        omega
      exact hgo.note _ _
  | arrive i text => exact hv.arrive i text
  | label text => exact hv.note _ _

end Workbench

end QuantumNode
