/-! Point-to-point queues with a one-way latency, and signals. Both only keep who waits; waking a receiver is
left to the world they are part of, which schedules it at the current time. -/
namespace QuantumNode

/-- Values of type `τ` for receivers named by `π`. -/
structure Channel (τ π : Type) where
  latency : Nat
  /-- Values that have arrived, oldest first. -/
  items : List τ
  /-- Receivers that wait, the one that has waited longest first. -/
  waiters : List π
  sent : Nat

namespace Channel

variable {τ π : Type}

def new (latency : Nat) : Channel τ π := ⟨latency, [], [], 0⟩

def countSent (c : Channel τ π) : Channel τ π := { c with sent := c.sent + 1 }

/-- A value arrives: the first waiting receiver gets it, without one it is kept. -/
def arrive (c : Channel τ π) (v : τ) : Option π × Channel τ π :=
  match c.waiters with
  | p :: ps => (some p, { c with waiters := ps })
  | [] => (none, { c with items := c.items ++ [v] })

/-- Takes the oldest value. -/
def tryReceive (c : Channel τ π) : Option τ × Channel τ π :=
  match c.items with
  | v :: vs => (some v, { c with items := vs })
  | [] => (none, c)

/-- Takes the oldest value, or begins to wait. -/
def receive (c : Channel τ π) (p : π) : Option τ × Channel τ π :=
  match c.items with
  | v :: vs => (some v, { c with items := vs })
  | [] => (none, { c with waiters := c.waiters ++ [p] })

def queued (c : Channel τ π) : Nat := c.items.length

end Channel

/-- Wakes whoever waits when it is notified, and remembers nothing else. -/
structure Signal (π : Type) where
  waiters : List π
  notified : Nat

namespace Signal

variable {π : Type}

def new : Signal π := ⟨[], 0⟩

def wait (s : Signal π) (p : π) : Signal π := { s with waiters := s.waiters ++ [p] }

/-- The receivers to wake, in the order in which they began to wait. -/
def notify (s : Signal π) : List π × Signal π := (s.waiters, ⟨[], s.notified + 1⟩)

def waiting (s : Signal π) : Nat := s.waiters.length

end Signal

end QuantumNode
