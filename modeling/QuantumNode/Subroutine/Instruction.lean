import QuantumNode.Subroutine.Opcode
import QuantumNode.Subroutine.Register

/-! Instructions of subroutines with their operands by role, and their view as an opcode with a list of
operands, which is what texts are read into and written from. -/
namespace QuantumNode

/-- An immediate or the contents of a register. -/
inductive Value where
  | literal (v : Int)
  | register (r : Register)
  deriving DecidableEq, Repr

structure ArrayEntry where
  address : Int
  index : Value
  deriving DecidableEq, Repr

structure ArraySlice where
  address : Int
  start : Value
  stop : Value
  deriving DecidableEq, Repr

inductive Operand where
  | immediate (v : Int)
  | register (r : Register)
  | address (a : Int)
  | entry (e : ArrayEntry)
  | slice (s : ArraySlice)
  deriving DecidableEq, Repr

inductive SingleGate where
  | x | y | z | h | s | k | t
  deriving DecidableEq, Repr

inductive PairGate where
  | cnot | cphase
  deriving DecidableEq, Repr

inductive Axis where
  | x | y | z
  deriving DecidableEq, Repr

/-- Axes of a rotation whose direction a control qubit decides. -/
inductive DirectedAxis where
  | x | y
  deriving DecidableEq, Repr

inductive Comparison where
  | equal | unequal | less | atLeast
  deriving DecidableEq, Repr

inductive ArithmeticOp where
  | add | sub
  deriving DecidableEq, Repr

inductive Instruction where
  | set (dest : Register) (value : Int)
  | qalloc (qubit : Register)
  | qfree (qubit : Register)
  | init (qubit : Register)
  | store (source : Register) (entry : ArrayEntry)
  | load (dest : Register) (entry : ArrayEntry)
  | undef (entry : ArrayEntry)
  | lea (dest : Register) (address : Int)
  | array (length : Value) (address : Int)
  | jump (target : Int)
  /-- Branches when the register is zero, or when it is not. -/
  | branchZero (zero : Bool) (test : Register) (target : Int)
  | branch (test : Comparison) (left right : Value) (target : Int)
  | arithmetic (op : ArithmeticOp) (dest : Register) (left right : Value)
  | modular (op : ArithmeticOp) (dest : Register) (left right modulus : Value)
  | gate (g : SingleGate) (qubit : Register)
  | rotate (axis : Axis) (qubit : Register) (n d : Int)
  | pairGate (g : PairGate) (control target : Register)
  | directed (axis : DirectedAxis) (control target : Register) (n d : Int)
  | measure (qubit dest : Register)
  | createPairs (remote socket qubits arguments results : Value)
  | receivePairs (remote socket qubits results : Value)
  | waitAll (slice : ArraySlice)
  | retReg (r : Register)
  | retArr (address : Int)
  | breakpoint (action role : Int)
  deriving DecidableEq, Repr

namespace Operand

def immediate? : Operand → Option Int
  | immediate v => some v
  | _ => none

def register? : Operand → Option Register
  | register r => some r
  | _ => none

def address? : Operand → Option Int
  | address a => some a
  | _ => none

def element? : Operand → Option ArrayEntry
  | entry e => some e
  | _ => none

def slice? : Operand → Option ArraySlice
  | slice s => some s
  | _ => none

def value? : Operand → Option Value
  | immediate v => some (.literal v)
  | register r => some (.register r)
  | _ => none

end Operand

def Value.operand : Value → Operand
  | literal v => .immediate v
  | register r => .register r

namespace SingleGate

def opcode : SingleGate → Opcode
  | x => .x | y => .y | z => .z | h => .h | s => .s | k => .k | t => .t

end SingleGate

def PairGate.opcode : PairGate → Opcode
  | cnot => .cnot
  | cphase => .cphase

def Axis.opcode : Axis → Opcode
  | x => .rotX | y => .rotY | z => .rotZ

def DirectedAxis.opcode : DirectedAxis → Opcode
  | x => .crotX
  | y => .crotY

def Comparison.opcode : Comparison → Opcode
  | equal => .beq | unequal => .bne | less => .blt | atLeast => .bge

def Comparison.holds : Comparison → Int → Int → Bool
  | equal, a, b => a = b
  | unequal, a, b => a ≠ b
  | less, a, b => a < b
  | atLeast, a, b => b ≤ a

def ArithmeticOp.apply : ArithmeticOp → Int → Int → Int
  | add, a, b => a + b
  | sub, a, b => a - b

namespace Instruction

def opcode : Instruction → Opcode
  | set .. => .set
  | qalloc .. => .qalloc
  | qfree .. => .qfree
  | init .. => .init
  | store .. => .store
  | load .. => .load
  | undef .. => .undef
  | lea .. => .lea
  | array .. => .array
  | jump .. => .jmp
  | branchZero zero .. => if zero then .bez else .bnz
  | branch test .. => test.opcode
  | arithmetic .add .. => .add
  | arithmetic .sub .. => .sub
  | modular .add .. => .addm
  | modular .sub .. => .subm
  | gate g .. => g.opcode
  | rotate axis .. => axis.opcode
  | pairGate g .. => g.opcode
  | directed axis .. => axis.opcode
  | measure .. => .meas
  | createPairs .. => .createEpr
  | receivePairs .. => .recvEpr
  | waitAll .. => .waitAll
  | retReg .. => .retReg
  | retArr .. => .retArr
  | breakpoint .. => .breakpoint

open Operand in
def operands : Instruction → List Operand
  | set dest value => [register dest, immediate value]
  | qalloc q | qfree q | init q | gate _ q => [register q]
  | store r e | load r e => [register r, entry e]
  | undef e => [entry e]
  | lea dest a => [register dest, address a]
  | array length a => [length.operand, address a]
  | jump target => [immediate target]
  | branchZero _ test target => [register test, immediate target]
  | branch _ left right target => [left.operand, right.operand, immediate target]
  | arithmetic _ dest left right => [register dest, left.operand, right.operand]
  | modular _ dest left right modulus => [register dest, left.operand, right.operand, modulus.operand]
  | rotate _ q n d => [register q, immediate n, immediate d]
  | pairGate _ c t => [register c, register t]
  | directed _ c t n d => [register c, register t, immediate n, immediate d]
  | measure q dest => [register q, register dest]
  | createPairs remote socket qubits arguments results =>
    [remote.operand, socket.operand, qubits.operand, arguments.operand, results.operand]
  | receivePairs remote socket qubits results =>
    [remote.operand, socket.operand, qubits.operand, results.operand]
  | waitAll s => [slice s]
  | retReg r => [register r]
  | retArr a => [address a]
  | breakpoint action role => [immediate action, immediate role]

section Build
variable {α β γ δ : Type}

private def of1 (f : Operand → Option α) (mk : α → Instruction) : List Operand → Option Instruction
  | [a] => return mk (← f a)
  | _ => none

private def of2 (f : Operand → Option α) (g : Operand → Option β) (mk : α → β → Instruction) :
    List Operand → Option Instruction
  | [a, b] => return mk (← f a) (← g b)
  | _ => none

private def of3 (f : Operand → Option α) (g : Operand → Option β) (h : Operand → Option γ)
    (mk : α → β → γ → Instruction) : List Operand → Option Instruction
  | [a, b, c] => return mk (← f a) (← g b) (← h c)
  | _ => none

private def of4 (f : Operand → Option α) (g : Operand → Option β) (h : Operand → Option γ)
    (i : Operand → Option δ) (mk : α → β → γ → δ → Instruction) : List Operand → Option Instruction
  | [a, b, c, d] => return mk (← f a) (← g b) (← h c) (← i d)
  | _ => none

private def ofPairs : List Operand → Option Instruction
  | [a, b, c, d, e] =>
    return createPairs (← a.value?) (← b.value?) (← c.value?) (← d.value?) (← e.value?)
  | _ => none

end Build

open Operand in
/-- The instruction with an opcode and operands, if their kinds are those that the opcode takes. -/
def ofOperands? : Opcode → List Operand → Option Instruction
  | .set => of2 register? immediate? set
  | .qalloc => of1 register? qalloc
  | .qfree => of1 register? qfree
  | .init => of1 register? init
  | .store => of2 register? element? store
  | .load => of2 register? element? load
  | .undef => of1 element? undef
  | .lea => of2 register? address? lea
  | .array => of2 value? address? array
  | .jmp => of1 immediate? jump
  | .bez => of2 register? immediate? (branchZero true)
  | .bnz => of2 register? immediate? (branchZero false)
  | .beq => of3 value? value? immediate? (branch .equal)
  | .bne => of3 value? value? immediate? (branch .unequal)
  | .blt => of3 value? value? immediate? (branch .less)
  | .bge => of3 value? value? immediate? (branch .atLeast)
  | .add => of3 register? value? value? (arithmetic .add)
  | .sub => of3 register? value? value? (arithmetic .sub)
  | .addm => of4 register? value? value? value? (modular .add)
  | .subm => of4 register? value? value? value? (modular .sub)
  | .x => of1 register? (gate .x)
  | .y => of1 register? (gate .y)
  | .z => of1 register? (gate .z)
  | .h => of1 register? (gate .h)
  | .s => of1 register? (gate .s)
  | .k => of1 register? (gate .k)
  | .t => of1 register? (gate .t)
  | .rotX => of3 register? immediate? immediate? (rotate .x)
  | .rotY => of3 register? immediate? immediate? (rotate .y)
  | .rotZ => of3 register? immediate? immediate? (rotate .z)
  | .cnot => of2 register? register? (pairGate .cnot)
  | .cphase => of2 register? register? (pairGate .cphase)
  | .crotX => of4 register? register? immediate? immediate? (directed .x)
  | .crotY => of4 register? register? immediate? immediate? (directed .y)
  | .meas => of2 register? register? measure
  | .createEpr => ofPairs
  | .recvEpr => of4 value? value? value? value? receivePairs
  | .waitAll => of1 slice? waitAll
  | .retReg => of1 register? retReg
  | .retArr => of1 address? retArr
  | .breakpoint => of2 immediate? immediate? breakpoint

private theorem value?_operand (v : Value) : v.operand.value? = some v := by cases v <;> rfl

/-- Reading an instruction's own view gives the instruction back. -/
theorem ofOperands?_operands (i : Instruction) : ofOperands? i.opcode i.operands = some i := by
  cases i
  case branchZero zero _ _ => cases zero <;> rfl
  case branch test a b _ => cases test <;> cases a <;> cases b <;> rfl
  case arithmetic op _ a b => cases op <;> cases a <;> cases b <;> rfl
  case modular op _ a b m => cases op <;> cases a <;> cases b <;> cases m <;> rfl
  case gate g _ => cases g <;> rfl
  case rotate axis _ _ _ => cases axis <;> rfl
  case pairGate g _ _ => cases g <;> rfl
  case directed axis _ _ _ _ => cases axis <;> rfl
  case array l _ => cases l <;> rfl
  case createPairs a b c d e => simp [opcode, operands, ofOperands?, ofPairs, value?_operand]
  case receivePairs a b c d => simp [opcode, operands, ofOperands?, of4, value?_operand]
  all_goals rfl

end Instruction

/-- Instructions of one application, with the version of the notation they were written in. -/
structure Subroutine where
  appId : Int
  version : String
  instructions : List Instruction
  deriving DecidableEq, Repr

namespace Subroutine

def defaultVersion : String := "1.0"

def size (s : Subroutine) : Nat := s.instructions.length

end Subroutine

end QuantumNode
