import QuantumNode.Log
import QuantumNode.Number.Binary64
import QuantumNode.Number.Word

/-! Descriptions of networks: node stacks with their devices, entangling links and classical links. Times are in
nanoseconds, lengths in kilometres. -/
namespace QuantumNode

/-- A device whose positions can all do the same. -/
structure GenericDevice where
  numQubits : Nat
  /-- The communication-capable qubits come first; zero stands for all qubits. -/
  numCommQubits : Nat
  init : Nat
  rotX : Nat
  rotY : Nat
  rotZ : Nat
  cnot : Nat
  cphase : Nat
  measure : Nat
  singleGateNoise : Float
  pairGateNoise : Float

def GenericDevice.standard : GenericDevice where
  numQubits := 2
  numCommQubits := 0
  init := 310000
  rotX := 500000
  rotY := 500000
  rotZ := 500000
  cnot := 500000
  cphase := 500000
  measure := 3700
  singleGateNoise := 0.0
  pairGateNoise := 0.0

/-- A device with one electron, which communicates and is read out, and carbons that store qubits. -/
structure NVDevice where
  numQubits : Nat
  electronInitNoise : Float
  electronGateNoise : Float
  /-- The probability that an outcome zero is reported as one. -/
  readoutError0 : Float
  readoutError1 : Float
  carbonInitNoise : Float
  carbonRotZNoise : Float
  pairGateNoise : Float
  carbonInit : Nat
  carbonRotX : Nat
  carbonRotY : Nat
  carbonRotZ : Nat
  electronInit : Nat
  electronRotX : Nat
  electronRotY : Nat
  electronRotZ : Nat
  directedX : Nat
  directedY : Nat
  measure : Nat

namespace NVDevice

def standard : NVDevice where
  numQubits := 2
  electronInitNoise := 0.05
  electronGateNoise := 0.0
  readoutError0 := 0.05
  readoutError1 := 0.005
  carbonInitNoise := 0.05
  carbonRotZNoise := 0.001
  pairGateNoise := 0.008
  carbonInit := 310000
  carbonRotX := 500000
  carbonRotY := 500000
  carbonRotZ := 500000
  electronInit := 2000
  electronRotX := 5
  electronRotY := 5
  electronRotZ := 5
  directedX := 500000
  directedY := 500000
  measure := 3700

/-- The same device without noise and readout errors. -/
def noiseless (d : NVDevice) : NVDevice :=
  { d with
    electronInitNoise := 0.0
    electronGateNoise := 0.0
    readoutError0 := 0.0
    readoutError1 := 0.0
    carbonInitNoise := 0.0
    carbonRotZNoise := 0.0
    pairGateNoise := 0.0 }

end NVDevice

inductive DeviceConfig where
  | generic (d : GenericDevice)
  | nv (d : NVDevice)

namespace DeviceConfig

def numQubits : DeviceConfig → Nat
  | generic d => d.numQubits
  | nv d => d.numQubits

def isNV : DeviceConfig → Bool
  | generic _ => false
  | nv _ => true

end DeviceConfig

structure StackConfig where
  name : String
  device : DeviceConfig

inductive LinkKind where
  | perfect | depolarise | heralded
  deriving DecidableEq, Repr

def LinkKind.name : LinkKind → String
  | perfect => "perfect"
  | depolarise => "depolarise"
  | heralded => "heralded"

structure LinkConfig where
  stack1 : String
  stack2 : String
  kind : LinkKind
  stateDelay : Float
  fidelity : Float
  probSuccess : Float
  cycleTime : Float
  length : Float
  lossInit : Float
  lossLength : Float
  speedOfLight : Float
  detectorEfficiency : Float
  visibility : Float

namespace LinkConfig

def standard (stack1 stack2 : String) : LinkConfig where
  stack1 := stack1
  stack2 := stack2
  kind := .perfect
  stateDelay := 1000.0
  fidelity := 1.0
  probSuccess := 1.0
  cycleTime := 1000.0
  length := 0.0
  lossInit := 0.0
  lossLength := 0.25
  speedOfLight := 200000.0
  detectorEfficiency := 1.0
  visibility := 1.0

def effectiveFidelity (l : LinkConfig) : Float :=
  match l.kind with
  | .perfect => 1.0
  | .depolarise => l.fidelity
  | .heralded => (1.0 + l.visibility) / 2.0

/-- On a heralded link each photon crosses half of the length, and both have to be detected. -/
def effectiveProbSuccess (l : LinkConfig) : Float :=
  match l.kind with
  | .perfect => 1.0
  | .depolarise => l.probSuccess
  | .heralded =>
    let eta := (1.0 - l.lossInit) * Float.pow 10.0 (-l.lossLength * l.length / 20.0) * l.detectorEfficiency
    0.5 * eta * eta

def effectiveCycleTime (l : LinkConfig) : Float :=
  match l.kind with
  | .perfect => l.stateDelay
  | .depolarise => l.cycleTime
  | .heralded => if l.speedOfLight > 0.0 then l.length / l.speedOfLight * 1e9 else 0.0

def joins (l : LinkConfig) (a b : String) : Bool :=
  (l.stack1 == a && l.stack2 == b) || (l.stack1 == b && l.stack2 == a)

end LinkConfig

/-- A whole number of nanoseconds. A time that is infinite or not below 2^63 counts as 2^63. -/
def nanoseconds (t : Float) : Nat :=
  let n := Number.roundToInt t
  if t.isFinite && Word.fitsSigned64 n then Word.unsigned64 n else 0x8000000000000000

structure ClassicalLinkConfig where
  stack1 : String
  stack2 : String
  delay : Option Float
  distance : Option Float
  speedOfLight : Float

namespace ClassicalLinkConfig

def standard (stack1 stack2 : String) : ClassicalLinkConfig := ⟨stack1, stack2, none, none, 200000.0⟩

def delayTime (c : ClassicalLinkConfig) : Nat :=
  match c.delay, c.distance with
  | some d, _ => nanoseconds d
  | none, some x => if c.speedOfLight > 0.0 then nanoseconds (x / c.speedOfLight * 1e9) else 0
  | none, none => 0

def joins (c : ClassicalLinkConfig) (a b : String) : Bool :=
  (c.stack1 == a && c.stack2 == b) || (c.stack1 == b && c.stack2 == a)

end ClassicalLinkConfig

structure NetworkConfig where
  nodes : List StackConfig
  links : List LinkConfig
  classicalLinks : List ClassicalLinkConfig
  seed : Nat
  logLevel : LogLevel
  /-- Latency of the channels between a host and its node. -/
  hostLatency : Nat
  /-- Delay between nodes without a classical link of their own. -/
  classicalDelay : Nat

namespace NetworkConfig

def standard : NetworkConfig := ⟨[], [], [], 42, .warning, 0, 0⟩

def findStack (c : NetworkConfig) (name : String) : Option StackConfig := c.nodes.find? (·.name = name)

/-- The first link between two stacks, in either direction. -/
def findLink (c : NetworkConfig) (a b : String) : Option LinkConfig := c.links.find? (·.joins a b)

def delayBetween (c : NetworkConfig) (a b : String) : Nat :=
  match c.classicalLinks.find? (·.joins a b) with
  | some l => l.delayTime
  | none => c.classicalDelay

end NetworkConfig

end QuantumNode
