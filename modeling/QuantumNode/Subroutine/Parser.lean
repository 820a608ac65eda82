import QuantumNode.Subroutine.Instruction

/-! Reading subroutines from text. A first pass over the lines takes headers and labels and splits the other
lines into words; a second pass reads the operands of each line, when every label is known. An error of the
first pass is therefore reported before any error of the second. -/
namespace QuantumNode

open QuantumNode.Text

/-- Why a text is no subroutine, with the number of the line at fault. -/
inductive SubroutineError where
  | invalidAppId (line : Nat)
  | invalidLabel (name : String) (line : Nat)
  | duplicateLabel (name : String) (line : Nat)
  | unknownInstruction (word : String) (line : Nat)
  | operandCount (opcode : Opcode) (line : Nat)
  | invalidOperand (word : String) (opcode : Opcode) (line : Nat)
  | unknownTarget (word : String) (line : Nat)
  /-- The operands have the kinds of the signature and still make no instruction. -/
  | signature (line : Nat)
  deriving DecidableEq, Repr

namespace SubroutineError

def line : SubroutineError → Nat
  | invalidAppId l | invalidLabel _ l | duplicateLabel _ l | unknownInstruction _ l | operandCount _ l
  | invalidOperand _ _ l | unknownTarget _ l | signature l => l

private def cause : SubroutineError → String
  | invalidAppId _ => "Invalid APPID"
  | invalidLabel name _ => "Invalid label '" ++ name ++ "'"
  | duplicateLabel name _ => "Duplicate label '" ++ name ++ "'"
  | unknownInstruction word _ => "Unknown instruction '" ++ word ++ "'"
  | operandCount op _ => op.name ++ " expects " ++ toString op.signature.length ++ " operands"
  | invalidOperand word op _ => "Invalid operand '" ++ word ++ "' for " ++ op.name
  | unknownTarget word _ => "Unknown branch target '" ++ word ++ "'"
  | signature _ => "Internal signature error"

def message (e : SubroutineError) : String := e.cause ++ " at line " ++ toString e.line

end SubroutineError

def Value.parse? (cs : List Char) : Option Value :=
  match Register.parse? cs with
  | some r => some (.register r)
  | none => (int64? cs).map .literal

namespace Subroutine

/-- A line with an instruction: its number, first word and other words. -/
structure CodeLine where
  number : Nat
  mnemonic : List Char
  words : List (List Char)
  deriving DecidableEq, Repr

/-- What the first pass has found so far; the code lines come latest first. -/
structure Layout where
  appId : Int
  version : String
  labels : List (List Char × Nat)
  code : List CodeLine

namespace Layout

def start : Layout := ⟨0, defaultVersion, [], []⟩

def label? (l : Layout) (name : List Char) : Option Nat := l.labels.lookup name

def isLabelName (cs : List Char) : Bool :=
  match cs with
  | c :: _ => (isLetter c || c == '_') && cs.all isWordChar
  | [] => false

/-- A header's first word says what the second one is; other headers are comments. Application ids are kept in
32 bits. -/
def header (l : Layout) (number : Nat) (body : List Char) : Except SubroutineError Layout :=
  let (key, rest) := nextWord body
  let value := (nextWord rest).1
  if key = "APPID".toList then
    match int64? value with
    | some id => .ok { l with appId := Word.signed32 id }
    | none => .error (.invalidAppId number)
  else if key = "NETQASM".toList then .ok { l with version := String.ofList value }
  else .ok l

def addLabel (l : Layout) (number : Nat) (name : List Char) : Except SubroutineError Layout :=
  if !isLabelName name then .error (.invalidLabel (String.ofList name) number)
  else if (l.label? name).isSome then .error (.duplicateLabel (String.ofList name) number)
  else .ok { l with labels := (name, l.code.length) :: l.labels }

def addLine (l : Layout) (number : Nat) (raw : List Char) : Except SubroutineError Layout :=
  match trim raw with
  | '#' :: body => l.header number body
  | line =>
    let line := trim (before '#' line)
    if line.getLast? = some ':' then l.addLabel number line.dropLast
    else
      match words line with
      | [] => .ok l
      | w :: ws => .ok { l with code := ⟨number, w, ws⟩ :: l.code }

def ofText (cs : List Char) : Except SubroutineError Layout :=
  (numberedLines cs).foldlM (fun l p => l.addLine p.1 p.2) start

end Layout

/-- An address at the front of a word, and what follows its digits. -/
def address? (cs : List Char) : Option (Int × List Char) :=
  match cs with
  | '@' :: r => (int64? (r.takeWhile Char.isDigit)).map fun a => (a, r.dropWhile Char.isDigit)
  | _ => none

/-- The text between brackets, which has to hold a character at least. -/
def bracketed? (cs : List Char) : Option (List Char) :=
  match cs with
  | '[' :: r => if r.getLast? = some ']' ∧ 2 ≤ r.length then some r.dropLast else none
  | _ => none

def element? (cs : List Char) : Option ArrayEntry := do
  let (a, rest) ← address? cs
  let inner ← bracketed? rest
  if ':' ∈ inner then none else return ⟨a, ← Value.parse? inner⟩

def slice? (cs : List Char) : Option ArraySlice := do
  let (a, rest) ← address? cs
  let inner ← bracketed? rest
  let (start, stop) ← cutAt ':' inner
  return ⟨a, ← Value.parse? start, ← Value.parse? stop⟩

/-- A branch goes to a line number, or to the instruction that follows a label. Label values are kept in 64 bits. -/
def target? (l : Layout) (cs : List Char) : Option Int :=
  match int64? cs with
  | some v => some v
  | none => (l.label? cs).map fun n : Nat => Word.signed64 n

/-- Reads a word as an operand of a kind. -/
def operand? (l : Layout) (cs : List Char) : OperandKind → Option Operand
  | .register => (Register.parse? cs).map .register
  | .immediate => (int64? cs).map .immediate
  | .value => (Value.parse? cs).map Value.operand
  | .target => (target? l cs).map .immediate
  | .address =>
    match address? cs with
    | some (a, []) => some (.address a)
    | _ => none
  | .entry => (element? cs).map .entry
  | .slice => (slice? cs).map .slice

def operand (l : Layout) (op : Opcode) (number : Nat) (kind : OperandKind) (cs : List Char) :
    Except SubroutineError Operand :=
  match operand? l cs kind with
  | some o => .ok o
  | none =>
    if kind = .target then .error (.unknownTarget (String.ofList cs) number)
    else .error (.invalidOperand (String.ofList cs) op number)

def instruction (l : Layout) (c : CodeLine) : Except SubroutineError Instruction :=
  match Opcode.ofName? c.mnemonic with
  | none => .error (.unknownInstruction (String.ofList c.mnemonic) c.number)
  | some op =>
    if c.words.length ≠ op.signature.length then .error (.operandCount op c.number)
    else do
      let operands ← (op.signature.zip c.words).mapM fun (kind, cs) => operand l op c.number kind cs
      match Instruction.ofOperands? op operands with
      | some i => .ok i
      | none => .error (.signature c.number)

def parseChars (cs : List Char) : Except SubroutineError Subroutine := do
  let l ← Layout.ofText cs
  return ⟨l.appId, l.version, ← l.code.reverse.mapM (instruction l)⟩

def parse (text : String) : Except SubroutineError Subroutine := parseChars text.toList

end Subroutine

end QuantumNode
