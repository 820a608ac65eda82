import QuantumNode.Entanglement.Link
import QuantumNode.Simulation.Channel

/-! How a part of a network, a node or a host, works. A step of work changes the part's own state and the
quantum state, which all parts share; whatever else it brings about is a list of effects, in order. What was done
before a fault stays done. -/
namespace QuantumNode

abbrev ProcessId := Nat

/-- Why a process goes on. -/
inductive Wake where
  | go
  | text (t : String)
  | request (r : EntanglementRequest)
  | answer (a : LinkAnswer)

/-- The text channels of a network of `n` nodes, by where they lead. -/
inductive Line (n : Nat) where
  | toNode (node : Fin n)
  | toHost (host : Fin n)
  | between (source target : Fin n)
  deriving DecidableEq, Repr

/-- What work brings about in a network of `n` nodes and `m` links. -/
inductive Effect (n m : Nat) where
  | log (level : LogLevel) (name text : String)
  | resume (delay : Nat) (process : ProcessId) (wake : Wake)
  | send (line : Line n) (text : String)
  /-- A message from one pair service to another. -/
  | tell (source target : Fin n) (message : PeerMessage)
  | abortLink (link : Fin m) (e : LinkEnd)
  /-- A node has asked a link for a pair with a remote node. -/
  | observed (remote : Int) (request : PairRequest)

/-- A part of a network at work. -/
structure Working (σ : Type) (n m : Nat) where
  part : σ
  quantum : QuantumState
  now : Nat
  effects : Array (Effect n m)

abbrev Work (σ : Type) (n m : Nat) := ExceptT Fault (StateM (Working σ n m))

/-- What a process does after a small step. -/
inductive Flow (m : Nat) (α β : Type) where
  | go (a : α)
  /-- Waits until it is woken. -/
  | rest (a : α)
  /-- Asks a link for a pair, and goes on with its answer. -/
  | call (a : α) (link : Fin m) (e : LinkEnd) (c : LinkCall)
  | finished (b : β)

namespace Flow

variable {m : Nat} {α β γ δ : Type}

def map (f : α → γ) (g : β → δ) : Flow m α β → Flow m γ δ
  | go a => .go (f a)
  | rest a => .rest (f a)
  | call a l e c => .call (f a) l e c
  | finished b => .finished (g b)

end Flow

namespace Work

variable {σ α : Type} {n m : Nat}

def part : Work σ n m σ := do return (← get).part

def setPart (s : σ) : Work σ n m Unit := modify fun w => { w with part := s }

def modifyPart (f : σ → σ) : Work σ n m Unit := modify fun w => { w with part := f w.part }

def now : Work σ n m Nat := do return (← get).now

def emit (e : Effect n m) : Work σ n m Unit := modify fun w => { w with effects := w.effects.push e }

def log (level : LogLevel) (name text : String) : Work σ n m Unit := emit (.log level name text)

def resume (process : ProcessId) (wake : Wake) : Work σ n m Unit := emit (.resume 0 process wake)

/-- Goes on after a time. -/
def sleep (process : ProcessId) (delay : Nat) : Work σ n m Unit := emit (.resume delay process .go)

def ofExcept (r : Except Fault α) : Work σ n m α := ExceptT.mk (pure r)

def fail (f : Fault) : Work σ n m α := throw f

/-- The value of some work, or its fault. -/
def attempt (x : Work σ n m α) : Work σ n m (Except Fault α) := ExceptT.mk (Except.ok <$> x.run)

/-- Wakes processes, in order. -/
def wakeAll (ps : List ProcessId) : Work σ n m Unit := ps.forM fun p => resume p .go

/-- Changes the quantum state. -/
def withQuantum (f : QuantumState → α × QuantumState) : Work σ n m α := do
  let w ← get
  let (a, q) := f w.quantum
  set { w with quantum := q }
  return a

end Work

end QuantumNode
