/-! Physical operations of quantum devices and their names. -/
namespace QuantumNode

inductive Operation where
  | init
  | x | y | z | h | s | k | t
  | rotX | rotY | rotZ
  | cnot | cz
  /-- Rotations of the second position whose direction the first position decides. -/
  | directedX | directedY
  | measure
  deriving DecidableEq, Repr

namespace Operation

def name : Operation → String
  | init => "INIT"
  | x => "X" | y => "Y" | z => "Z" | h => "H" | s => "S" | k => "K" | t => "T"
  | rotX => "ROT_X" | rotY => "ROT_Y" | rotZ => "ROT_Z"
  | cnot => "CNOT" | cz => "CZ"
  | directedX => "CXDIR" | directedY => "CYDIR"
  | measure => "MEASURE"

def all : List Operation :=
  [init, x, y, z, h, s, k, t, rotX, rotY, rotZ, cnot, cz, directedX, directedY, measure]

def ofName? (s : String) : Option Operation := all.find? fun o => o.name = s

/-- How many positions the operation acts on. -/
def arity : Operation → Nat
  | cnot | cz | directedX | directedY => 2
  | _ => 1

end Operation

end QuantumNode
