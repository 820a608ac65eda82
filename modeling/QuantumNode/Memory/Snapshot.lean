import QuantumNode.Memory.Application

/-! A copy of an application's memory as it is handed to the host, and its text: a line per register that has a
value, per array and per mapped qubit. -/
namespace QuantumNode

open QuantumNode.Text

structure MemorySnapshot where
  appId : Int
  registers : List (Register × Int)
  arrays : SortedMap Int ArrayValues
  qubits : Array (Option Nat)
  deriving DecidableEq, Repr

/-- Why a text is no snapshot, with the number of the line at fault. -/
inductive SnapshotError where
  | malformedRegister (line : Nat)
  | invalidRegister (name : String) (line : Nat)
  | malformedArray (line : Nat)
  | invalidEntry (word : String) (line : Nat)
  | malformedQubit (line : Nat)
  | unknownEntry (word : String) (line : Nat)
  deriving DecidableEq, Repr

namespace SnapshotError

def line : SnapshotError → Nat
  | malformedRegister l | invalidRegister _ l | malformedArray l | invalidEntry _ l | malformedQubit l
  | unknownEntry _ l => l

private def cause : SnapshotError → String
  | malformedRegister _ => "Malformed register line"
  | invalidRegister name _ => s!"Invalid register '{name}'"
  | malformedArray _ => "Malformed array line"
  | invalidEntry word _ => s!"Invalid array entry '{word}'"
  | malformedQubit _ => "Malformed qubit line"
  | unknownEntry word _ => s!"Unknown snapshot entry '{word}'"

def message (e : SnapshotError) : String := s!"{e.cause} (snapshot line {e.line})"

end SnapshotError

def AppMemory.snapshot (m : AppMemory) : MemorySnapshot := ⟨m.appId, m.setRegisters, m.arrays, m.qubits⟩

namespace MemorySnapshot

def empty (appId : Int) : MemorySnapshot := ⟨appId, [], .empty, #[]⟩

def register? (s : MemorySnapshot) (r : Register) : Option Int := s.registers.lookup r

def arrayValue (s : MemorySnapshot) (a i : Int) : Except Fault (Option Int) :=
  match s.arrays.get? a with
  | none => .error (.arrayNotReturned a)
  | some vs =>
    if 0 ≤ i then
      match vs[i.toNat]? with
      | some v => .ok v
      | none => .error (.indexOutOfRange a i)
    else .error (.indexOutOfRange a i)

/-- An unset entry is written as an underscore. -/
def entryText : Option Int → String
  | some v => toString v
  | none => "_"

def registerLine (e : Register × Int) : String := s!"REG {e.1.text} {e.2}\n"

def arrayLine (e : Int × ArrayValues) : String :=
  e.2.toList.foldl (fun line v => line ++ " " ++ entryText v) s!"ARRAY {e.1}" ++ "\n"

def qubitLine (e : Option Nat × Nat) : String :=
  match e.1 with
  | some p => s!"QUBIT {e.2} {p}\n"
  | none => ""

def text (s : MemorySnapshot) : String :=
  String.join (s.registers.map registerLine ++ s.arrays.entries.map arrayLine
    ++ s.qubits.toList.zipIdx.map qubitLine)

/-- Sets a qubit, making room for its id. -/
def setQubit (qs : Array (Option Nat)) (virt phys : Nat) : Array (Option Nat) :=
  (qs ++ Array.replicate (virt + 1 - qs.size) none).setIfInBounds virt (some phys)

def element? (word : List Char) : Option (Option Int) :=
  if word = ['_'] then some none else (leadingInt64? word).map fun p => some p.1

def entries (number : Nat) (ws : List (List Char)) : Except SnapshotError ArrayValues := do
  let vs ← ws.mapM fun w =>
    match element? w with
    | some v => .ok v
    | none => .error (.invalidEntry (String.ofList w) number)
  return vs.toArray

def addRegister (s : MemorySnapshot) (number : Nat) (rest : List Char) :
    Except SnapshotError MemorySnapshot :=
  let (name, rest) := nextWord rest
  if name.isEmpty then .error (.malformedRegister number)
  else
    match leadingInt64? rest, Register.parse? name with
    | none, _ => .error (.malformedRegister number)
    | _, none => .error (.invalidRegister (String.ofList name) number)
    | some (v, _), some r => .ok { s with registers := s.registers ++ [(r, v)] }

def addArray (s : MemorySnapshot) (number : Nat) (rest : List Char) :
    Except SnapshotError MemorySnapshot :=
  match leadingInt64? rest with
  | none => .error (.malformedArray number)
  | some (a, rest) => return { s with arrays := s.arrays.insert a (← entries number (words rest)) }

def addQubit (s : MemorySnapshot) (number : Nat) (rest : List Char) :
    Except SnapshotError MemorySnapshot :=
  match leadingNat64? rest with
  | none => .error (.malformedQubit number)
  | some (v, rest) =>
    match leadingNat64? rest with
    | none => .error (.malformedQubit number)
    | some (p, _) => .ok { s with qubits := setQubit s.qubits v p }

def addLine (s : MemorySnapshot) (number : Nat) (line : List Char) : Except SnapshotError MemorySnapshot :=
  if line.isEmpty then .ok s
  else
    let (kind, rest) := nextWord line
    if kind = "REG".toList then s.addRegister number rest
    else if kind = "ARRAY".toList then s.addArray number rest
    else if kind = "QUBIT".toList then s.addQubit number rest
    else .error (.unknownEntry (String.ofList kind) number)

def parse (appId : Int) (body : List Char) : Except SnapshotError MemorySnapshot :=
  (numberedLines body).foldlM (fun s p => s.addLine p.1 p.2) (empty appId)

end MemorySnapshot

end QuantumNode
