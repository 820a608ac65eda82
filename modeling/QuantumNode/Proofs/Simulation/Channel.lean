import QuantumNode.Simulation.Channel

/-! What a channel does with what it is given: what has arrived is handed out in that order, and those who wait are
served in turn. -/
namespace QuantumNode.Channel

variable {τ π : Type}

/-- The books of a channel: what has arrived, what has been handed out, who has begun to wait and who has been served. -/
structure Shelf (arrived handed : List τ) (waited served : List π) (c : Channel τ π) : Prop where
  lossless : arrived = handed ++ c.items
  inTurn : waited = served ++ c.waiters
  apart : c.items = [] ∨ c.waiters = []

variable {arrived handed : List τ} {waited served : List π} {c : Channel τ π}

theorem shelf_new (latency : Nat) : (new latency : Channel τ π).Shelf [] [] [] [] := ⟨rfl, rfl, .inl rfl⟩

theorem Shelf.countSent (h : c.Shelf arrived handed waited served) : c.countSent.Shelf arrived handed waited served :=
  ⟨h.lossless, h.inTurn, h.apart⟩

/-- Whoever gets a value that arrives gets it before any that arrives later, for nothing is kept while somebody waits. -/
theorem Shelf.arrive (h : c.Shelf arrived handed waited served) (v : τ) :
    (c.arrive v).2.Shelf (arrived ++ [v]) (handed ++ ((c.arrive v).1.map fun _ => v).toList) waited
      (served ++ (c.arrive v).1.toList) := by
  cases hw : c.waiters with
  | nil =>
    simp only [Channel.arrive, hw, Option.map_none, Option.toList_none, List.append_nil]
    exact ⟨by rw [h.lossless, List.append_assoc], h.inTurn.trans (by rw [hw]), .inr rfl⟩
  | cons p ps =>
    have hitems : c.items = [] := h.apart.resolve_right (by rw [hw]; exact List.cons_ne_nil _ _)
    simp only [Channel.arrive, hw, Option.map_some, Option.toList_some]
    refine ⟨?_, ?_, .inl hitems⟩
    · rw [h.lossless, hitems, List.append_nil, List.append_nil]
    · rw [h.inTurn, hw, List.append_assoc, List.singleton_append]

theorem Shelf.tryReceive (h : c.Shelf arrived handed waited served) :
    c.tryReceive.2.Shelf arrived (handed ++ c.tryReceive.1.toList) waited served := by
  cases hi : c.items with
  | nil =>
    simp only [Channel.tryReceive, hi, Option.toList_none, List.append_nil]
    exact h
  | cons v vs =>
    have hwaiters : c.waiters = [] := h.apart.resolve_left (by rw [hi]; exact List.cons_ne_nil _ _)
    simp only [Channel.tryReceive, hi, Option.toList_some]
    exact ⟨by rw [h.lossless, hi, List.append_assoc, List.singleton_append], h.inTurn, .inr hwaiters⟩

theorem tryReceive_of_none (h : c.tryReceive.1 = none) : c.tryReceive.2 = c := by
  unfold tryReceive at *
  split at h
  · exact nomatch h
  · rfl

theorem head?_receive (c : Channel τ π) (p : π) : c.items.head? = (c.receive p).1 := by
  unfold receive
  split
  · rename_i hitems
    rw [hitems]
    rfl
  · rename_i hitems
    rw [hitems]
    rfl

/-- A receiver that finds a value takes it as if it did not want to wait. -/
theorem receive_of_some {p : π} {v : τ} (h : (c.receive p).1 = some v) : c.receive p = c.tryReceive := by
  unfold receive tryReceive at *
  split at h
  · rfl
  · exact nomatch h

theorem Shelf.wait (h : c.Shelf arrived handed waited served) {p : π} (hp : (c.receive p).1 = none) :
    (c.receive p).2.Shelf arrived handed (waited ++ [p]) served := by
  cases hi : c.items with
  | nil =>
    simp only [receive, hi]
    exact ⟨h.lossless.trans (by rw [hi]), by rw [h.inTurn, List.append_assoc], .inl rfl⟩
  | cons v vs =>
    simp only [receive, hi] at hp
    exact nomatch hp

@[simp] theorem latency_arrive (c : Channel τ π) (v : τ) : (c.arrive v).2.latency = c.latency := by
  unfold arrive
  split <;> rfl

@[simp] theorem latency_tryReceive (c : Channel τ π) : c.tryReceive.2.latency = c.latency := by
  unfold tryReceive
  split <;> rfl

@[simp] theorem latency_receive (c : Channel τ π) (p : π) : (c.receive p).2.latency = c.latency := by
  unfold receive
  split <;> rfl

@[simp] theorem sent_arrive (c : Channel τ π) (v : τ) : (c.arrive v).2.sent = c.sent := by
  unfold arrive
  split <;> rfl

@[simp] theorem sent_tryReceive (c : Channel τ π) : c.tryReceive.2.sent = c.sent := by
  unfold tryReceive
  split <;> rfl

@[simp] theorem sent_receive (c : Channel τ π) (p : π) : (c.receive p).2.sent = c.sent := by
  unfold receive
  split <;> rfl

end QuantumNode.Channel
