import QuantumNode.Fault
import QuantumNode.Quantum.StateVector
import QuantumNode.Random.Source

/-! The quantum state of a simulation: the qubits of every node in one vector, and the source of the random
choices of measurements and noise. -/
namespace QuantumNode

structure QuantumState where
  vector : StateVector Float
  source : RandomSource

namespace QuantumState

def new (n : Nat) (source : RandomSource) : Except Fault QuantumState :=
  if Fault.qubitLimit < n then .error (.tooManyQubits n) else .ok ⟨.zero n, source⟩

def qubits (s : QuantumState) : Nat := s.vector.qubits

def apply (s : QuantumState) (u : Gate (Amplitude Float)) (q : Nat) : QuantumState :=
  { s with vector := s.vector.apply u q }

def cnot (s : QuantumState) (control target : Nat) : QuantumState :=
  { s with vector := s.vector.cnot control target }

def cz (s : QuantumState) (control target : Nat) : QuantumState :=
  { s with vector := s.vector.cz control target }

def directedX (s : QuantumState) (control target : Nat) (angle : Float) : QuantumState :=
  { s with vector := s.vector.directed Gate.rotX control target angle }

def directedY (s : QuantumState) (control target : Nat) (angle : Float) : QuantumState :=
  { s with vector := s.vector.directed Gate.rotY control target angle }

def probabilityOne (s : QuantumState) (q : Nat) : Float := s.vector.probabilityOne q

def uniform (s : QuantumState) : Float × QuantumState :=
  let (x, source) := s.source.uniform
  (x, { s with source := source })

def bernoulli (s : QuantumState) (p : Float) : Bool × QuantumState :=
  let (b, source) := s.source.bernoulli p
  (b, { s with source := source })

def below (s : QuantumState) (n : Nat) : Nat × QuantumState :=
  let (k, source) := s.source.below n
  (k, { s with source := source })

/-- Keeps a number between zero and one. -/
def clamp (p : Float) : Float := if p < 0.0 then 0.0 else if 1.0 < p then 1.0 else p

/-- Measures a qubit; an outcome whose probability vanishes is never reported. -/
def measure (s : QuantumState) (q : Nat) : Nat × QuantumState :=
  let p := clamp (s.probabilityOne q)
  let (x, s) := s.uniform
  let one := x < p
  let one := one || p > 1.0 - 1e-12
  let one := one && !(p < 1e-12)
  (one.toNat, { s with vector := s.vector.collapse q one })

/-- Brings a qubit to zero: a measurement, and a flip if it gave one. -/
def reset (s : QuantumState) (q : Nat) : QuantumState :=
  let (bit, s) := s.measure q
  if bit = 1 then s.apply Gate.x q else s

/-- Whether noise of probability `p` strikes; none is drawn for where it cannot. -/
private def strikes (s : QuantumState) (p : Float) : Bool × QuantumState :=
  if p ≤ 0.0 then (false, s) else s.bernoulli p

/-- With probability `p`, one of X, Y and Z, each with a third of it. -/
def depolarize (s : QuantumState) (q : Nat) (p : Float) : QuantumState :=
  match s.strikes p with
  | (false, s) => s
  | (true, s) =>
    let (x, s) := s.uniform
    if x < 1.0 / 3.0 then s.apply Gate.x q
    else if x < 2.0 / 3.0 then s.apply Gate.y q
    else s.apply Gate.z q

/-- With probability `p`, one of the identity, X, Y and Z, each with a quarter of it. -/
def werner (s : QuantumState) (q : Nat) (p : Float) : QuantumState :=
  match s.strikes p with
  | (false, s) => s
  | (true, s) =>
    match s.below 4 with
    | (1, s) => s.apply Gate.x q
    | (2, s) => s.apply Gate.y q
    | (3, s) => s.apply Gate.z q
    | (_, s) => s

/-- A readout error: zero is reported as one with probability `p01`, one as zero with `p10`. What is no outcome
is reported as it is. -/
def flip (s : QuantumState) (outcome : Int) (p01 p10 : Float) : Int × QuantumState :=
  match outcome with
  | 0 =>
    match (if p01 > 0.0 then s.bernoulli p01 else (false, s)) with
    | (true, s) => (1, s)
    | (false, s) => (0, s)
  | 1 =>
    match (if p10 > 0.0 then s.bernoulli p10 else (false, s)) with
    | (true, s) => (0, s)
    | (false, s) => (1, s)
  | o => (o, s)

end QuantumState

end QuantumNode
