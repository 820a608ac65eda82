import QuantumNode.Fault

/-! The pool of physical qubits of a node. Some slots can take part in entanglement generation; the choice is
made once. Slots are handed out lowest first. -/
namespace QuantumNode

structure QubitSlot where
  allocated : Bool
  communication : Bool
  deriving DecidableEq, Repr

structure QubitPool where
  slots : Array QubitSlot
  deriving DecidableEq, Repr

namespace QubitPool

def build (count : Nat) (communication : Nat → Bool) : QubitPool :=
  ⟨(Array.range count).map fun i => ⟨false, communication i⟩⟩

/-- A pool with the listed communication slots, which have to lie inside. -/
def custom (count : Nat) (ids : List Nat) : Except Fault QubitPool :=
  match ids.find? (count ≤ ·) with
  | some id => .error (.communicationOutsidePool id)
  | none => .ok (build count (ids.contains ·))

/-- The first slots communicate: as many as asked for, all of them for zero or too many. -/
def generic (count communication : Nat) : QubitPool :=
  build count fun i => communication = 0 || count < communication || i < communication

/-- Only slot 0, the electron, communicates. -/
def nv (count : Nat) : Except Fault QubitPool := custom count [0]

def size (p : QubitPool) : Nat := p.slots.size

def isCommunication (p : QubitPool) (id : Nat) : Bool :=
  match p.slots[id]? with
  | some s => s.communication
  | none => false

def isAllocated (p : QubitPool) (id : Nat) : Bool :=
  match p.slots[id]? with
  | some s => s.allocated
  | none => false

def communicationCount (p : QubitPool) : Nat := p.slots.countP (·.communication)

def allocatedCount (p : QubitPool) : Nat := p.slots.countP (·.allocated)

def setAllocated (p : QubitPool) (id : Nat) (allocated : Bool) : QubitPool :=
  ⟨p.slots.modify id fun s => { s with allocated := allocated }⟩

/-- The lowest free slot. -/
def allocate (p : QubitPool) : Except Fault (Nat × QubitPool) :=
  match p.slots.findIdx? fun s => !s.allocated with
  | some id => .ok (id, p.setAllocated id true)
  | none => .error .poolExhausted

/-- The lowest free slot that communicates. -/
def allocateCommunication (p : QubitPool) : Except Fault (Nat × QubitPool) :=
  match p.slots.findIdx? fun s => !s.allocated && s.communication with
  | some id => .ok (id, p.setAllocated id true)
  | none => .error .communicationExhausted

/-- Only an allocated slot can be freed. -/
def free (p : QubitPool) (id : Nat) : Except Fault QubitPool :=
  if p.isAllocated id then .ok (p.setAllocated id false) else .error (.freedUnallocated id)

def clear (p : QubitPool) : QubitPool := ⟨p.slots.map fun s => { s with allocated := false }⟩

end QubitPool

end QuantumNode
