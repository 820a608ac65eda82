import QuantumNode.Data.SortedMap
import QuantumNode.Fault

/-! The memory of one application: registers, arrays, the map from virtual to physical qubits and the program
counter. Operations that fail leave no memory behind, so a failing call changes nothing. -/
namespace QuantumNode

/-- Entries of an array, some of them unset. -/
abbrev ArrayValues := Array (Option Int)

structure AppMemory where
  appId : Int
  registers : Vector (Option Int) 64
  arrays : SortedMap Int ArrayValues
  /-- The physical qubit of each virtual id. -/
  qubits : Array (Option Nat)
  pc : Nat
  deriving DecidableEq, Repr

namespace AppMemory

def new (appId : Int) (maxQubits : Nat) : AppMemory :=
  ⟨appId, Vector.replicate 64 none, .empty, Array.replicate maxQubits none, 0⟩

def setRegister (m : AppMemory) (r : Register) (v : Option Int) : Except Fault AppMemory :=
  match r.slot? with
  | some i => .ok { m with registers := m.registers.set i v i.isLt }
  | none => .error (.registerOutOfRange r)

def register (m : AppMemory) (r : Register) : Except Fault (Option Int) :=
  match r.slot? with
  | some i => .ok (m.registers.get i)
  | none => .error (.registerOutOfRange r)

/-- An immediate, or the contents of a register that has a value. -/
def resolve (m : AppMemory) : Value → Except Fault Int
  | .literal v => .ok v
  | .register r => do
    match ← m.register r with
    | some v => .ok v
    | none => .error (.registerUnset r)

/-- Declares an array of unset entries, in the place of an array at the same address. -/
def initArray (m : AppMemory) (a : Int) (length : Nat) : AppMemory :=
  { m with arrays := m.arrays.insert a (Array.replicate length none) }

def hasArray (m : AppMemory) (a : Int) : Bool := m.arrays.contains a

def array (m : AppMemory) (a : Int) : Except Fault ArrayValues :=
  match m.arrays.get? a with
  | some vs => .ok vs
  | none => .error (.arrayUndeclared a)

def arrayLength (m : AppMemory) (a : Int) : Except Fault Nat := return (← m.array a).size

def arrayValue (m : AppMemory) (a i : Int) : Except Fault (Option Int) := do
  let vs ← m.array a
  if 0 ≤ i then
    match vs[i.toNat]? with
    | some v => .ok v
    | none => .error (.indexOutOfRange a i)
  else .error (.indexOutOfRange a i)

def setArrayValue (m : AppMemory) (a i : Int) (v : Option Int) : Except Fault AppMemory := do
  let vs ← m.array a
  if 0 ≤ i ∧ i < vs.size then .ok { m with arrays := m.arrays.insert a (vs.setIfInBounds i.toNat v) }
  else .error (.indexOutOfRange a i)

/-- The entries from `start` up to `stop`, which is not included. -/
def arrayValues (m : AppMemory) (a start stop : Int) : Except Fault ArrayValues := do
  let vs ← m.array a
  if start < 0 ∨ stop < start ∨ (vs.size : Int) < stop then .error (.sliceOutOfRange a start stop)
  else .ok (vs.extract start.toNat stop.toNat)

def entryValue (m : AppMemory) (e : ArrayEntry) : Except Fault (Option Int) := do
  let i ← m.resolve e.index
  m.arrayValue e.address i

def setEntry (m : AppMemory) (e : ArrayEntry) (v : Option Int) : Except Fault AppMemory := do
  let i ← m.resolve e.index
  m.setArrayValue e.address i v

/-- The upper bound is resolved before the lower one. -/
def slice (m : AppMemory) (s : ArraySlice) : Except Fault ArrayValues := do
  let stop ← m.resolve s.stop
  let start ← m.resolve s.start
  m.arrayValues s.address start stop

def maxQubits (m : AppMemory) : Nat := m.qubits.size

/-- Virtual ids count from zero up to the number of qubits. -/
def virtualIndex (m : AppMemory) (virt : Int) : Except Fault (Fin m.qubits.size) :=
  if h : 0 ≤ virt ∧ virt.toNat < m.qubits.size then .ok ⟨virt.toNat, h.2⟩
  else .error (.virtualOutOfRange virt m.qubits.size)

/-- The virtual id that maps to a physical qubit. -/
def virtualFor? (m : AppMemory) (phys : Nat) : Option Int :=
  (m.qubits.findIdx? (· == some phys)).map fun v => (v : Int)

def qubit (m : AppMemory) (v : Fin m.qubits.size) : Option Nat := m.qubits.toVector.get v

def setQubit (m : AppMemory) (v : Fin m.qubits.size) (phys : Option Nat) : AppMemory :=
  { m with qubits := m.qubits.set v phys v.isLt }

def physicalFor (m : AppMemory) (virt : Int) : Except Fault (Option Nat) := do
  let v ← m.virtualIndex virt
  return m.qubit v

/-- Maps a virtual id to a physical qubit; neither may be in use, unless they map to each other already. -/
def mapQubit (m : AppMemory) (virt : Int) (phys : Nat) : Except Fault AppMemory := do
  let v ← m.virtualIndex virt
  match m.qubit v with
  | some p => if p = phys then .ok m else .error (.virtualMapped virt p)
  | none =>
    match m.virtualFor? phys with
    | some other => .error (.physicalUsed phys other)
    | none => .ok (m.setQubit v (some phys))

def unmapQubit (m : AppMemory) (virt : Int) : Except Fault AppMemory := do
  let v ← m.virtualIndex virt
  return m.setQubit v none

def unmapAll (m : AppMemory) : AppMemory := { m with qubits := m.qubits.map fun _ => none }

/-- Physical qubits in use, by virtual id. -/
def mapped (m : AppMemory) : List Nat := m.qubits.toList.filterMap id

def incrementPc (m : AppMemory) : AppMemory := { m with pc := (m.pc + 1) % Word.size64 }

/-- Registers that have a value, by group and index. -/
def setRegisters (m : AppMemory) : List (Register × Int) :=
  Register.all.filterMap fun r =>
    match r.slot? with
    | some i => (m.registers.get i).map fun v => (r, v)
    | none => none

end AppMemory

end QuantumNode
