import QuantumNode.Config.Basic
import QuantumNode.Quantum.State

/-! The quantum device of a node: which operations it can do on which positions, how long they take, and what
they do to the quantum state. The effect of an operation lands at the end of its time. -/
namespace QuantumNode

/-- An operation on positions of a device. -/
structure DeviceCall where
  op : Operation
  positions : List Nat
  /-- Only rotations have one that matters. -/
  angle : Float

namespace DeviceCall

def init (position : Nat) : DeviceCall := ⟨.init, [position], 0.0⟩

def measure (position : Nat) : DeviceCall := ⟨.measure, [position], 0.0⟩

end DeviceCall

structure Device where
  config : DeviceConfig
  /-- Where its positions begin among the qubits of the simulation. -/
  base : Nat
  recording : Bool
  /-- Operations that have been done while recording. -/
  history : Array DeviceCall

namespace Device

def new (config : DeviceConfig) (base : Nat) : Device := ⟨config, base, false, #[]⟩

def size (d : Device) : Nat := d.config.numQubits

/-- Whether a position can take part in entanglement generation. -/
def isCommunication (d : Device) (position : Nat) : Bool :=
  position < d.size &&
    match d.config with
    | .nv _ => position = 0
    | .generic g => g.numCommQubits = 0 || position < g.numCommQubits

/-- The place of a position among the qubits of the simulation. -/
def globalIndex (d : Device) (position : Nat) : Except Fault Nat :=
  if position < d.size then .ok (d.base + position) else .error (.positionOutOfRange position)

/-- Operations of an NV device, by whether they begin at the electron. -/
def nvCan : Operation → (electron : Bool) → Bool
  | .init, _ | .rotZ, _ => true
  | .rotX, electron | .rotY, electron | .directedX, electron | .directedY, electron
  | .measure, electron => electron
  | _, _ => false

def samePair : List Nat → Bool
  | [a, b] => a = b
  | _ => false

/-- Why a call cannot be done, if it cannot. -/
def refusal (d : Device) (c : DeviceCall) : Option Fault :=
  if c.positions.length ≠ c.op.arity then some (.positionCount c.op)
  else
    match c.positions.find? (d.size ≤ ·) with
    | some p => some (.operandPosition c.op p)
    | none =>
      if samePair c.positions then some (.samePosition c.op)
      else
        match d.config with
        | .generic _ =>
          if c.op = .directedX ∨ c.op = .directedY then some (.unavailableGeneric c.op) else none
        | .nv _ =>
          let first := c.positions.headD 0
          if nvCan c.op (first = 0) then none else some (.unavailableNV c.op first)

def genericTime (g : GenericDevice) : Operation → Nat
  | .init => g.init
  | .rotX => g.rotX
  | .rotY => g.rotY
  | .cnot => g.cnot
  | .cz => g.cphase
  | .measure => g.measure
  | .x | .y | .z | .h | .s | .k | .t | .rotZ | .directedX | .directedY => g.rotZ

def nvTime (v : NVDevice) (electron : Bool) : Operation → Nat
  | .init => if electron then v.electronInit else v.carbonInit
  | .rotX => v.electronRotX
  | .rotY => v.electronRotY
  | .rotZ => if electron then v.electronRotZ else v.carbonRotZ
  | .directedX => v.directedX
  | .directedY => v.directedY
  | .measure => v.measure
  | .x | .y | .z | .h | .s | .k | .t | .cnot | .cz => 0

/-- How long a call takes, if the device can do it. -/
def duration (d : Device) (c : DeviceCall) : Except Fault Nat :=
  match d.refusal c with
  | some f => .error f
  | none =>
    match d.config with
    | .generic g => .ok (genericTime g c.op)
    | .nv v => .ok (nvTime v (c.positions.headD 0 = 0) c.op)

/-- Gates are calls that neither initialise nor measure. -/
def gateDuration (d : Device) (c : DeviceCall) : Except Fault Nat :=
  if c.op = .init ∨ c.op = .measure then .error (.notAGate c.op) else d.duration c

/-- A gate without its noise, on qubit `a` and for pairs also `b`. -/
def applyGate (op : Operation) (a b : Nat) (angle : Float) (s : QuantumState) : QuantumState :=
  match op with
  | .x => s.apply .x a
  | .y => s.apply .y a
  | .z => s.apply .z a
  | .h => s.apply .h a
  | .s => s.apply .s a
  | .k => s.apply .k a
  | .t => s.apply .t a
  | .rotX => s.apply (.rotX angle) a
  | .rotY => s.apply (.rotY angle) a
  | .rotZ => s.apply (.rotZ angle) a
  | .cnot => s.cnot a b
  | .cz => s.cz a b
  | .directedX => s.directedX a b angle
  | .directedY => s.directedY a b angle
  | .init | .measure => s

/-- The noise of a gate, given its qubits and its first position. -/
def gateNoise (config : DeviceConfig) (op : Operation) (a b first : Nat) (s : QuantumState) : QuantumState :=
  match config with
  | .generic g =>
    if op.arity = 2 then (s.depolarize a g.pairGateNoise).depolarize b g.pairGateNoise
    else s.depolarize a g.singleGateNoise
  | .nv v =>
    if op.arity = 2 then (s.depolarize a v.pairGateNoise).depolarize b v.pairGateNoise
    else if first = 0 then s.depolarize a v.electronGateNoise
    else if op = .rotZ then s.depolarize a v.carbonRotZNoise
    else s

def initNoise (config : DeviceConfig) (a position : Nat) (s : QuantumState) : QuantumState :=
  match config with
  | .generic _ => s
  | .nv v => s.depolarize a (if position = 0 then v.electronInitNoise else v.carbonInitNoise)

def readoutNoise (config : DeviceConfig) (outcome : Nat) (s : QuantumState) : Nat × QuantumState :=
  match config with
  | .generic _ => (outcome, s)
  | .nv v =>
    let (bit, s) := s.flip outcome v.readoutError0 v.readoutError1
    (bit.toNat, s)

/-- What a call does to the quantum state, with the outcome of a measurement. -/
def effect (d : Device) (c : DeviceCall) (s : QuantumState) : Option Nat × QuantumState :=
  let first := c.positions.headD 0
  let a := d.base + first
  let b := d.base + c.positions.getLastD 0
  match c.op with
  | .init => (none, initNoise d.config a first (s.reset a))
  | .measure =>
    let (outcome, s) := s.measure a
    let (outcome, s) := readoutNoise d.config outcome s
    (some outcome, s)
  | op => (none, gateNoise d.config op a b first (applyGate op a b c.angle s))

/-- Notes a call in the history while recording. -/
def record (d : Device) (c : DeviceCall) : Device :=
  if d.recording then { d with history := d.history.push c } else d

end Device

end QuantumNode
