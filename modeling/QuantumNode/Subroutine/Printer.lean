import QuantumNode.Subroutine.Instruction

/-! Subroutines as text: two header lines, then a line per instruction. -/
namespace QuantumNode

def Value.text : Value → String
  | literal v => toString v
  | register r => r.text

def Operand.text : Operand → String
  | immediate v => toString v
  | register r => r.text
  | address a => "@" ++ toString a
  | entry e => "@" ++ toString e.address ++ "[" ++ e.index.text ++ "]"
  | slice s => "@" ++ toString s.address ++ "[" ++ s.start.text ++ ":" ++ s.stop.text ++ "]"

def Instruction.text (i : Instruction) : String :=
  i.operands.foldl (fun line o => line ++ " " ++ o.text) i.opcode.name

def Subroutine.text (s : Subroutine) : String :=
  s.instructions.foldl (fun text i => text ++ i.text ++ "\n")
    ("# NETQASM " ++ s.version ++ "\n# APPID " ++ toString s.appId ++ "\n")

end QuantumNode
