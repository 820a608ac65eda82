import Mathlib.Data.List.Perm.Basic
import QuantumNode.Simulation.Agenda

/-! What an agenda keeps: its queue stays in the order in which the events fall due, so what it gives next falls due
first. -/
namespace QuantumNode

variable {ε : Type}

namespace Scheduled

theorem before_iff {a b : Scheduled ε} : a.before b = true ↔ a.time < b.time ∨ a.time = b.time ∧ a.seq < b.seq := by
  simp only [before, Bool.or_eq_true, Bool.and_eq_true, decide_eq_true_eq, beq_iff_eq]

theorem before_trans {a b c : Scheduled ε} (hab : a.before b = true) (hbc : b.before c = true) : a.before c = true := by
  rw [before_iff] at *
  omega

/-- Of two events with different numbers one falls due before the other. -/
theorem before_of_not {a b : Scheduled ε} (h : ¬ a.before b = true) (hne : a.seq ≠ b.seq) : b.before a = true := by
  rw [before_iff] at *
  omega

end Scheduled

namespace Agenda

theorem enqueue_perm (e : Scheduled ε) (q : List (Scheduled ε)) : (enqueue e q).Perm (e :: q) := by
  induction q with
  | nil => exact .refl _
  | cons t q ih =>
    rw [enqueue]
    split
    · exact .refl _
    · exact (ih.cons t).trans (.swap e t q)

theorem mem_enqueue {e t : Scheduled ε} {q : List (Scheduled ε)} : t ∈ enqueue e q ↔ t = e ∨ t ∈ q :=
  (enqueue_perm e q).mem_iff.trans List.mem_cons

/-- A queue in the order in which its events fall due. -/
abbrev Sorted (q : List (Scheduled ε)) : Prop := q.Pairwise fun s t => s.before t = true

theorem sorted_enqueue {e : Scheduled ε} {q : List (Scheduled ε)} (hq : Sorted q) (hne : ∀ t ∈ q, e.seq ≠ t.seq) :
    Sorted (enqueue e q) := by
  induction hq with
  | nil => exact List.pairwise_singleton _ _
  | @cons t q ht hq ih =>
    rw [enqueue]
    split
    · rename_i he
      refine .cons (fun u hu => ?_) (.cons ht hq)
      obtain rfl | hu := List.mem_cons.mp hu
      · exact he
      · exact Scheduled.before_trans he (ht u hu)
    · rename_i he
      refine .cons (fun u hu => ?_) (ih fun u hu => hne u (List.mem_cons_of_mem _ hu))
      obtain rfl | hu := mem_enqueue.mp hu
      · exact Scheduled.before_of_not he (hne t List.mem_cons_self)
      · exact ht u hu

/-- An event that falls due before none of its kind is the last of its kind. -/
theorem filterMap_enqueue {τ : Type} {f : Scheduled ε → Option τ} {e : Scheduled ε} {v : τ} {q : List (Scheduled ε)}
    (hq : Sorted q) (he : f e = some v) (hlast : ∀ t ∈ q, (f t).isSome → ¬ e.before t = true) :
    (enqueue e q).filterMap f = q.filterMap f ++ [v] := by
  induction hq with
  | nil => rw [enqueue, List.filterMap_cons_some he, List.filterMap_nil, List.nil_append]
  | @cons t q ht hq ih =>
    have htail := ih fun u hu => hlast u (List.mem_cons_of_mem _ hu)
    rw [enqueue]
    split
    · rename_i hb
      -- Nothing of the kind is behind the place of insertion.
      have hnone : (t :: q).filterMap f = [] := by
        refine List.filterMap_eq_nil_iff.mpr fun u hu => ?_
        have hbu : e.before u = true := by
          obtain rfl | hu := List.mem_cons.mp hu
          · exact hb
          · exact Scheduled.before_trans hb (ht u hu)
        exact Option.not_isSome_iff_eq_none.mp fun hs => hlast u hu hs hbu
      rw [List.filterMap_cons_some he, hnone, List.nil_append]
    · cases hft : f t with
      | none => rw [List.filterMap_cons_none hft, List.filterMap_cons_none hft, htail]
      | some x => rw [List.filterMap_cons_some hft, List.filterMap_cons_some hft, htail, List.cons_append]

/-- A kind of events to which the new one does not belong. -/
theorem filterMap_enqueue_of_none {τ : Type} {f : Scheduled ε → Option τ} {e : Scheduled ε} (he : f e = none)
    (q : List (Scheduled ε)) : (enqueue e q).filterMap f = q.filterMap f := by
  induction q with
  | nil => rw [enqueue, List.filterMap_cons_none he]
  | cons t q ih =>
    rw [enqueue]
    split
    · rw [List.filterMap_cons_none he]
    · rw [List.filterMap_cons, List.filterMap_cons, ih]

/-! What comes next. -/

variable {a a' : Agenda ε} {limit : Nat} {e : ε}

theorem next_eq_nothing : a.next limit = .nothing ↔ a.queue = [] := by
  unfold next
  split
  · exact iff_of_true rfl ‹_›
  · rename_i s r hq
    refine iff_of_false ?_ (by rw [hq]; exact List.cons_ne_nil _ _)
    split <;> exact nofun

theorem next_eq_later :
    a.next limit = .later a' ↔ ∃ s r, a.queue = s :: r ∧ limit < s.time ∧ a' = { a with now := limit } := by
  unfold next
  split
  · rename_i hq
    exact iff_of_false nofun fun ⟨_, _, h, _⟩ => nomatch hq.symm.trans h
  · rename_i s r hq
    split
    · rename_i hl
      refine ⟨fun h => ⟨s, r, hq, hl, (Due.later.inj h).symm⟩, ?_⟩
      rintro ⟨_, _, _, _, rfl⟩
      rfl
    · rename_i hl
      refine iff_of_false nofun ?_
      rintro ⟨_, _, h, hl', -⟩
      cases hq.symm.trans h
      exact hl hl'

theorem next_eq_event :
    a.next limit = .event e a' ↔
      ∃ s r, a.queue = s :: r ∧ s.time ≤ limit ∧ e = s.event ∧ a' = { a with now := s.time, queue := r } := by
  unfold next
  split
  · rename_i hq
    exact iff_of_false nofun fun ⟨_, _, h, _⟩ => nomatch hq.symm.trans h
  · rename_i s r hq
    split
    · rename_i hl
      refine iff_of_false nofun ?_
      rintro ⟨_, _, h, hl', -⟩
      cases hq.symm.trans h
      omega
    · rename_i hl
      refine ⟨fun h => ?_, ?_⟩
      · cases h
        exact ⟨s, r, hq, Nat.le_of_not_lt hl, rfl, rfl⟩
      · rintro ⟨_, _, h, _, rfl, rfl⟩
        cases hq.symm.trans h
        rfl

/-- What an event of one kind takes from a view of the queue. -/
theorem filterMap_of_next {τ : Type} (f : Scheduled ε → Option τ) (hn : a.next limit = .event e a') :
    ∃ n, a.queue.filterMap f = (f ⟨a'.now, n, e⟩).toList ++ a'.queue.filterMap f := by
  obtain ⟨s, r, hq, -, rfl, rfl⟩ := next_eq_event.mp hn
  refine ⟨s.seq, ?_⟩
  rw [hq, List.filterMap_cons]
  cases f s <;> rfl

/-- The queue is in order, and numbers are handed out as events are scheduled. -/
structure Tidy (a : Agenda ε) : Prop where
  sorted : Sorted a.queue
  numbered : ∀ s ∈ a.queue, s.seq < a.seq

theorem start_tidy : (start : Agenda ε).Tidy := ⟨.nil, nofun⟩

theorem Tidy.schedule (h : a.Tidy) (delay : Nat) (e : ε) : (a.schedule delay e).Tidy where
  sorted := sorted_enqueue h.sorted fun t ht => Nat.ne_of_gt (h.numbered t ht)
  numbered := by
    intro t ht
    obtain rfl | ht := mem_enqueue.mp ht
    · exact Nat.lt_succ_self _
    · exact Nat.lt_succ_of_lt (h.numbered t ht)

theorem Tidy.event (h : a.Tidy) (hn : a.next limit = .event e a') : a'.Tidy := by
  obtain ⟨s, r, hq, -, -, rfl⟩ := next_eq_event.mp hn
  have hs := h.sorted
  have hm := h.numbered
  rw [hq] at hs hm
  exact ⟨hs.of_cons, fun t ht => hm t (List.mem_cons_of_mem _ ht)⟩

theorem Tidy.later (h : a.Tidy) (hn : a.next limit = .later a') : a'.Tidy := by
  obtain ⟨_, _, _, _, rfl⟩ := next_eq_later.mp hn
  exact ⟨h.sorted, h.numbered⟩

/-- When the next event falls due after the limit, so do all. -/
theorem Tidy.lt_of_later (h : a.Tidy) (hn : a.next limit = .later a') : ∀ s ∈ a'.queue, limit < s.time := by
  obtain ⟨s, r, hq, hl, rfl⟩ := next_eq_later.mp hn
  intro t ht
  have hs := h.sorted
  rw [hq] at hs
  obtain rfl | ht := List.mem_cons.mp (hq ▸ ht)
  · exact hl
  · have := Scheduled.before_iff.mp (List.rel_of_pairwise_cons hs ht)
    omega

/-- Times are words, also the current one. -/
structure Timely (a : Agenda ε) : Prop extends a.Tidy where
  now_lt : a.now < Word.size64
  time_lt : ∀ s ∈ a.queue, s.time < Word.size64

theorem start_timely : (start : Agenda ε).Timely := ⟨start_tidy, Nat.two_pow_pos 64, nofun⟩

theorem Timely.schedule (h : a.Timely) (delay : Nat) (e : ε) : (a.schedule delay e).Timely where
  toTidy := h.toTidy.schedule delay e
  now_lt := h.now_lt
  time_lt := by
    intro t ht
    obtain rfl | ht := mem_enqueue.mp ht
    · exact Nat.mod_lt _ (by decide)
    · exact h.time_lt t ht

theorem Timely.event (h : a.Timely) (hn : a.next limit = .event e a') : a'.Timely := by
  have htidy := h.toTidy.event hn
  obtain ⟨s, r, hq, -, -, rfl⟩ := next_eq_event.mp hn
  have hlt := h.time_lt
  rw [hq] at hlt
  obtain ⟨hs, hr⟩ := List.forall_mem_cons.mp hlt
  exact ⟨htidy, hs, hr⟩

theorem Timely.later (h : a.Timely) (hn : a.next limit = .later a') : a'.Timely := by
  have htidy := h.toTidy.later hn
  obtain ⟨s, r, hq, hl, rfl⟩ := next_eq_later.mp hn
  refine ⟨htidy, ?_, h.time_lt⟩
  exact Nat.lt_trans hl (h.time_lt s (hq ▸ List.mem_cons_self))

/-- An agenda after further events of some kind have been scheduled. -/
inductive Grows (kind : ε → Prop) (a : Agenda ε) : Agenda ε → Prop where
  | refl : Grows kind a a
  | schedule {b : Agenda ε} (h : Grows kind a b) (delay : Nat) {e : ε} (he : kind e) :
      Grows kind a (b.schedule delay e)

section Grows

variable {kind : ε → Prop} {b : Agenda ε}

theorem Grows.tidy (h : a.Grows kind b) (ha : a.Tidy) : b.Tidy := by
  induction h with
  | refl => exact ha
  | schedule _ delay _ ih => exact ih.schedule delay _

theorem Grows.timely (h : a.Grows kind b) (ha : a.Timely) : b.Timely := by
  induction h with
  | refl => exact ha
  | schedule _ delay _ ih => exact ih.schedule delay _

theorem Grows.mem (h : a.Grows kind b) {t : Scheduled ε} (ht : t ∈ a.queue) : t ∈ b.queue := by
  induction h with
  | refl => exact ht
  | schedule _ _ _ ih => exact mem_enqueue.mpr (.inr ih)

theorem Grows.mono {kind' : ε → Prop} (hk : ∀ e, kind e → kind' e) (h : a.Grows kind b) : a.Grows kind' b := by
  induction h with
  | refl => exact .refl
  | schedule _ delay he ih => exact ih.schedule delay (hk _ he)

theorem Grows.trans {c : Agenda ε} (h : a.Grows kind b) (h' : b.Grows kind c) : a.Grows kind c := by
  induction h' with
  | refl => exact h
  | schedule _ delay he ih => exact ih.schedule delay he

theorem Grows.now_eq (h : a.Grows kind b) : b.now = a.now := by
  induction h with
  | refl => rfl
  | schedule _ _ _ ih => exact ih

/-- Events of another kind stay as they are. -/
theorem Grows.filterMap_queue {τ : Type} {f : Scheduled ε → Option τ} (hf : ∀ t n e, kind e → f ⟨t, n, e⟩ = none)
    (h : a.Grows kind b) : b.queue.filterMap f = a.queue.filterMap f := by
  induction h with
  | refl => rfl
  | schedule _ _ he ih => exact (filterMap_enqueue_of_none (hf _ _ _ he) _).trans ih

end Grows

end Agenda

end QuantumNode
