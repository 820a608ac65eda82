import QuantumNode.Device.State
import QuantumNode.Execution.Relocation
import QuantumNode.Subroutine.Instruction

/-! How far the execution of a subroutine has come. The program counter is kept in the application's memory. -/
namespace QuantumNode

def SingleGate.operation : SingleGate → Operation
  | x => .x | y => .y | z => .z | h => .h | s => .s | k => .k | t => .t

def PairGate.operation : PairGate → Operation
  | cnot => .cnot
  | cphase => .cz

def Axis.operation : Axis → Operation
  | x => .rotX | y => .rotY | z => .rotZ

def DirectedAxis.operation : DirectedAxis → Operation
  | x => .directedX
  | y => .directedY

inductive ExecutionStatus where
  | ok
  /-- An entanglement request of the application failed while the subroutine waited for it. -/
  | aborted
  deriving DecidableEq, Repr

/-- The measurement of a qubit of an NV device, which happens at the electron. -/
structure Readout where
  virt : Int
  dest : Register
  /-- The position of the qubit when the measurement began. -/
  target : Nat
  /-- The carbon to which the electron's qubit is moved, if it has to be. -/
  spare : Nat
  deriving DecidableEq, Repr

/-- A slice of an array, its bounds resolved. -/
structure AwaitedRange where
  address : Int
  start : Int
  stop : Int
  deriving DecidableEq, Repr

inductive ExecutionStage where
  | start
  /-- The next instruction is to be fetched. -/
  | fetch
  /-- The device is busy with a call. -/
  | operating (c : DeviceCall)
  /-- The device is busy with a measurement for a register. -/
  | reading (c : DeviceCall) (dest : Register)
  /-- The steps of a relocation that are left. -/
  | relocating (r : Readout) (steps : List RelocationStep)
  /-- The device is busy with the first call of a move; `owner` is whose qubit leaves the electron. -/
  | moving (r : Readout) (owner : Option (Int × Int)) (c : DeviceCall) (calls : List DeviceCall)
      (steps : List RelocationStep)
  | waiting (a : AwaitedRange)

structure Execution where
  subroutine : Subroutine
  stage : ExecutionStage

namespace Execution

def new (s : Subroutine) : Execution := ⟨s, .start⟩

def app (e : Execution) : Int := e.subroutine.appId

/-- A move as a call of the device. -/
def moveCall (mv : Move) : DeviceCall := ⟨mv.op, mv.positions, mv.turn.angle (pi / 2.0)⟩

end Execution

end QuantumNode
