import QuantumNode.Device.Operation

/-! How a qubit of an NV device is brought to the electron for readout. -/
namespace QuantumNode

inductive RelocationStep where
  | allocateElectron
  | allocateFreeCarbon
  | moveElectronToCarbon
  | moveCarbonToElectron
  | freeCarbon
  | measureElectron
  deriving DecidableEq, Repr

namespace RelocationStep

def name : RelocationStep → String
  | allocateElectron => "allocate-electron"
  | allocateFreeCarbon => "allocate-free-carbon"
  | moveElectronToCarbon => "move-electron-to-carbon"
  | moveCarbonToElectron => "move-carbon-to-electron"
  | freeCarbon => "free-carbon"
  | measureElectron => "measure-electron"

end RelocationStep

/-- The steps that measure the qubit at a position, position 0 being the electron. A qubit on the electron is
parked on a free carbon first. -/
def relocationPlan (position : Nat) (electronAllocated : Bool) : List RelocationStep :=
  if position = 0 then [.measureElectron]
  else if electronAllocated then
    [.allocateFreeCarbon, .moveElectronToCarbon, .moveCarbonToElectron, .freeCarbon, .measureElectron]
  else [.allocateElectron, .moveCarbonToElectron, .freeCarbon, .measureElectron]

/-- The angle of a move's rotation: a quarter turn, or one in the other direction. -/
inductive Turn where
  | none | quarter | back
  deriving DecidableEq, Repr

/-- The angle of a turn, given that of a quarter. -/
def Turn.angle {R : Type} [Zero R] [Neg R] (quarterAngle : R) : Turn → R
  | none => 0
  | quarter => quarterAngle
  | back => -quarterAngle

/-- An operation on positions, position 0 being the electron. -/
structure Move where
  op : Operation
  positions : List Nat
  turn : Turn
  deriving DecidableEq, Repr

namespace Relocation

/-- The four rotations that both directions share; one of the two qubits has just been initialised. -/
def transfer (carbon : Nat) : List Move :=
  [⟨.rotY, [0], .quarter⟩, ⟨.directedY, [0, carbon], .back⟩, ⟨.rotX, [0], .back⟩,
   ⟨.directedX, [0, carbon], .quarter⟩]

/-- Brings the state of the electron to a carbon. -/
def toCarbon (carbon : Nat) : List Move := ⟨.init, [carbon], .none⟩ :: transfer carbon

/-- Brings the state of a carbon to the electron. -/
def toElectron (carbon : Nat) : List Move :=
  ⟨.init, [0], .none⟩ :: transfer carbon ++ [⟨.rotY, [0], .back⟩]

end Relocation

end QuantumNode
