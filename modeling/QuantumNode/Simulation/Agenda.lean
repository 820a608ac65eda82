import QuantumNode.Number.Word

/-! Events in the order in which they fall due: by time, and by the order of scheduling within one time. Times
are 64-bit words in nanoseconds, so a delay is added modulo 2^64. -/
namespace QuantumNode

/-- The latest time. -/
def forever : Nat := Word.size64 - 1

structure Scheduled (ε : Type) where
  time : Nat
  seq : Nat
  event : ε

/-- Whether the first event falls due before the second. -/
def Scheduled.before {ε : Type} (a b : Scheduled ε) : Bool :=
  a.time < b.time || (a.time == b.time && a.seq < b.seq)

structure Agenda (ε : Type) where
  now : Nat
  /-- How many events have been scheduled. -/
  seq : Nat
  /-- What is still to happen, first event first. -/
  queue : List (Scheduled ε)

/-- What a run up to some time finds next. -/
inductive Due (ε : Type) where
  | nothing
  /-- Only later events are left; the time limit has been reached. -/
  | later (a : Agenda ε)
  | event (e : ε) (a : Agenda ε)

namespace Agenda

variable {ε : Type}

def start : Agenda ε := ⟨0, 0, []⟩

/-- Puts an event in front of the first that falls due after it. -/
def enqueue (s : Scheduled ε) : List (Scheduled ε) → List (Scheduled ε)
  | [] => [s]
  | t :: r => if s.before t then s :: t :: r else t :: enqueue s r

def schedule (a : Agenda ε) (delay : Nat) (e : ε) : Agenda ε :=
  { a with
    seq := a.seq + 1
    queue := enqueue ⟨(a.now + delay) % Word.size64, a.seq, e⟩ a.queue }

/-- The first event, if it falls due by `limit`; time moves on to it, or to `limit`. -/
def next (a : Agenda ε) (limit : Nat) : Due ε :=
  match a.queue with
  | [] => .nothing
  | s :: r => if limit < s.time then .later { a with now := limit } else .event s.event { a with now := s.time, queue := r }

def pending (a : Agenda ε) : Nat := a.queue.length

def clear (a : Agenda ε) : Agenda ε := { a with queue := [] }

end Agenda

end QuantumNode
