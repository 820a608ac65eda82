import QuantumNode.Data.SortedMap
import QuantumNode.Message.Envelope

/-! What programs return: named values, per run and per node, and their text as JSON. -/
namespace QuantumNode

inductive ProgramValue where
  | integer (v : Int)
  | real (x : Number.Binary64)
  | text (s : String)
  deriving DecidableEq, Repr

/-- The values of one run, by name. -/
abbrev ProgramResult := SortedMap String ProgramValue

/-- The runs of every node, by node name. -/
abbrev RunResults := SortedMap String (List ProgramResult)

def ProgramValue.toText : ProgramValue → String
  | integer v => toString v
  | real x => realText x
  | text s => s

namespace RunResults

/-- Quotes, backslashes, line feeds and tabs are escaped; every other octet stands for itself. -/
def escapeChar : Char → List Char
  | '\x22' => ['\\', '\x22']
  | '\\' => ['\\', '\\']
  | '\n' => ['\\', 'n']
  | '\t' => ['\\', 't']
  | c => [c]

def quoted (s : String) : String :=
  String.ofList ('\x22' :: s.toList.flatMap escapeChar ++ ['\x22'])

def valueText : ProgramValue → String
  | .text s => quoted s
  | v => v.toText

def enclosed (left right : String) (items : List String) : String :=
  left ++ String.intercalate "," items ++ right

def runText (r : ProgramResult) : String :=
  enclosed "\x7b" "\x7d" (r.entries.map fun e => quoted e.1 ++ ":" ++ valueText e.2)

def toJson (r : RunResults) : String :=
  enclosed "\x7b" "\x7d" (r.entries.map fun e => quoted e.1 ++ ":" ++ enclosed "[" "]" (e.2.map runText))

end RunResults

end QuantumNode
