import QuantumNode.Simulation.Agenda

/-! Worlds driven by an agenda. An event sets an activity going; the activity proceeds in small steps until it
rests, fails or hands control to whoever runs the world, and only then is the next event looked at. -/
namespace QuantumNode

/-- What a small step of the current activity comes to. -/
inductive Progress (σ φ : Type) where
  /-- Nothing is going on. -/
  | settled
  | went (s : σ)
  | failed (f : φ) (s : σ)

class World (σ : Type) (ε φ : outParam Type) where
  agenda : σ → Agenda ε
  setAgenda : σ → Agenda ε → σ
  /-- Begins an event; an alarm is for whoever runs the world. -/
  begin : σ → ε → Option Nat × σ
  proceed : σ → Progress σ φ

/-- How a run ends. -/
inductive Halt (φ : Type) where
  /-- No event is left. -/
  | exhausted
  /-- The events left fall due after the time limit. -/
  | limit
  | failed (f : φ)
  /-- An alarm of the client went off; the run can be taken up again. -/
  | alarm (k : Nat)
  | outOfFuel

structure Run (σ φ : Type) where
  halt : Halt φ
  events : Nat
  world : σ

namespace World

variable {σ ε φ : Type} [World σ ε φ]

/-- Runs the events up to and including `limit`, `events` of them having run before. A small step and an event
each take one unit of fuel. -/
def run (limit : Nat) : (fuel events : Nat) → σ → Run σ φ
  | 0, events, s => ⟨.outOfFuel, events, s⟩
  | fuel + 1, events, s =>
    match proceed s with
    | .went s => run limit fuel events s
    | .failed f s => ⟨.failed f, events, s⟩
    | .settled =>
      match (agenda s).next limit with
      | .nothing => ⟨.exhausted, events, s⟩
      | .later a => ⟨.limit, events, setAgenda s a⟩
      | .event e a =>
        match begin (setAgenda s a) e with
        | (none, s) => run limit fuel (events + 1) s
        | (some k, s) => ⟨.alarm k, events + 1, s⟩

end World

end QuantumNode
