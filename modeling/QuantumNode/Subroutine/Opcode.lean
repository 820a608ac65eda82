import QuantumNode.Text.Basic

/-! Mnemonics of subroutine instructions and the kinds of operands that each takes. -/
namespace QuantumNode

/-- What may stand at an operand's place. -/
inductive OperandKind where
  | register
  | immediate
  /-- A register or an immediate. -/
  | value
  /-- A line number or a label. -/
  | target
  | entry
  | slice
  | address
  deriving DecidableEq, Repr

def OperandKind.letter : OperandKind → Char
  | register => 'r'
  | immediate => 'i'
  | value => 'v'
  | target => 't'
  | entry => 'e'
  | slice => 's'
  | address => 'a'

inductive Opcode where
  | set | qalloc | qfree | init
  | store | load | undef | lea | array
  | jmp | bez | bnz | beq | bne | blt | bge
  | add | sub | addm | subm
  | x | y | z | h | s | k | t
  | rotX | rotY | rotZ
  | cnot | cphase
  | crotX | crotY
  | meas
  | createEpr | recvEpr | waitAll
  | retReg | retArr
  | breakpoint
  deriving DecidableEq, Repr

namespace Opcode

def all : List Opcode :=
  [set, qalloc, qfree, init, store, load, undef, lea, array, jmp, bez, bnz, beq, bne, blt, bge,
   add, sub, addm, subm, x, y, z, h, s, k, t, rotX, rotY, rotZ, cnot, cphase, crotX, crotY, meas,
   createEpr, recvEpr, waitAll, retReg, retArr, breakpoint]

def name : Opcode → String
  | set => "set" | qalloc => "qalloc" | qfree => "qfree" | init => "init"
  | store => "store" | load => "load" | undef => "undef" | lea => "lea" | array => "array"
  | jmp => "jmp" | bez => "bez" | bnz => "bnz" | beq => "beq" | bne => "bne" | blt => "blt" | bge => "bge"
  | add => "add" | sub => "sub" | addm => "addm" | subm => "subm"
  | x => "x" | y => "y" | z => "z" | h => "h" | s => "s" | k => "k" | t => "t"
  | rotX => "rot_x" | rotY => "rot_y" | rotZ => "rot_z"
  | cnot => "cnot" | cphase => "cphase"
  | crotX => "crot_x" | crotY => "crot_y"
  | meas => "meas"
  | createEpr => "create_epr" | recvEpr => "recv_epr" | waitAll => "wait_all"
  | retReg => "ret_reg" | retArr => "ret_arr"
  | breakpoint => "breakpoint"

open OperandKind in
def signature : Opcode → List OperandKind
  | set => [register, immediate]
  | qalloc | qfree | init => [register]
  | store | load => [register, entry]
  | undef => [entry]
  | lea => [register, address]
  | array => [value, address]
  | jmp => [target]
  | bez | bnz => [register, target]
  | beq | bne | blt | bge => [value, value, target]
  | add | sub => [register, value, value]
  | addm | subm => [register, value, value, value]
  | x | y | z | h | s | k | t => [register]
  | rotX | rotY | rotZ => [register, immediate, immediate]
  | cnot | cphase => [register, register]
  | crotX | crotY => [register, register, immediate, immediate]
  | meas => [register, register]
  | createEpr => [value, value, value, value, value]
  | recvEpr => [value, value, value, value]
  | waitAll => [slice]
  | retReg => [register]
  | retArr => [address]
  | breakpoint => [immediate, immediate]

def signatureText (op : Opcode) : String := String.ofList (op.signature.map OperandKind.letter)

/-- Mnemonics are read in any case. -/
def ofName? (cs : List Char) : Option Opcode :=
  all.find? fun op => op.name.toList = Text.lower cs

end Opcode

end QuantumNode
