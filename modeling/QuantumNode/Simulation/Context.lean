import QuantumNode.Quantum.State

/-! The set-up of a simulation: nodes get ids in order of registration and reserve qubits; then the quantum
state of all reserved qubits is built. -/
namespace QuantumNode

structure SimulationContext where
  seed : Nat
  source : RandomSource
  /-- Node names by id. -/
  names : List String
  reserved : Nat
  vector : Option (StateVector Float)

namespace SimulationContext

def new (seed : Nat) : SimulationContext := ⟨seed, .ofSeed seed, [], 0, none⟩

def nodeId (c : SimulationContext) (name : String) : Option Nat := c.names.idxOf? name

def register (c : SimulationContext) (name : String) : Except Fault (Nat × SimulationContext) :=
  if name ∈ c.names then .error (.nodeRegisteredTwice name)
  else .ok (c.names.length, { c with names := c.names ++ [name] })

def nodeName (c : SimulationContext) (id : Int) : Except Fault String :=
  match if 0 ≤ id then c.names[id.toNat]? else none with
  | some name => .ok name
  | none => .error (.unknownNodeId id)

/-- Reserves consecutive qubits and gives the first. -/
def reserve (c : SimulationContext) (n : Nat) : Except Fault (Nat × SimulationContext) :=
  match c.vector with
  | some _ => .error .lateReservation
  | none => .ok (c.reserved, { c with reserved := (c.reserved + n) % Word.size64 })

def build (c : SimulationContext) : Except Fault SimulationContext := do
  let s ← QuantumState.new c.reserved c.source
  return { c with vector := some s.vector }

def quantumState (c : SimulationContext) : Except Fault QuantumState :=
  match c.vector with
  | some v => .ok ⟨v, c.source⟩
  | none => .error .stateNotBuilt

def uniform (c : SimulationContext) : Float × SimulationContext :=
  let (x, source) := c.source.uniform
  (x, { c with source := source })

end SimulationContext

end QuantumNode
