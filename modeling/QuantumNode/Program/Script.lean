import QuantumNode.Fault

/-! Programs as text files: directives, then the texts of subroutines in which `$app` and `$node` stand for the
application's id and for node ids. -/
namespace QuantumNode

open QuantumNode.Text

/-- What a program needs from its node: sockets to peers and virtual qubits. -/
structure ProgramMeta where
  name : String
  classicalPeers : List String
  /-- A socket's id is its place in the list. -/
  pairPeers : List String
  maxQubits : Nat
  deriving DecidableEq, Repr

structure Script where
  info : ProgramMeta
  subroutines : List String
  deriving DecidableEq, Repr

inductive ScriptError where
  | directive (line : Nat)
  | qubitCount (value : String) (line : Nat)
  | unknownDirective (key : String) (line : Nat)
  | noSubroutine
  | subroutine (index : Nat) (e : SubroutineError)
  deriving DecidableEq, Repr

def ScriptError.message : ScriptError → String
  | directive l => s!"line {l}: expected '<directive> <value>'"
  | qubitCount v l => s!"line {l}: bad qubit count '{v}'"
  | unknownDirective k l => s!"line {l}: unknown directive '{k}'"
  | noSubroutine => "program has no subroutine"
  | subroutine i e => s!"subroutine {i}: {e.message}"

namespace Script

/-- A part of a text with names to be replaced. -/
inductive Piece where
  | literal (c : Char)
  | name (word : String)

/-- The pieces of a text, where `word` is the reversed name that is being read, if one is. -/
def pieces : Option (List Char) → List Char → List Piece
  | none, [] => []
  | some word, [] => [.name (String.ofList word.reverse)]
  | none, c :: r => if c = '$' then pieces (some []) r else .literal c :: pieces none r
  | some word, c :: r =>
    if isWordChar c then pieces (some (c :: word)) r
    else if c = '$' then .name (String.ofList word.reverse) :: pieces (some []) r
    else .name (String.ofList word.reverse) :: .literal c :: pieces none r

def Piece.expand (lookup : String → Except Fault String) : Piece → Except Fault String
  | literal c => .ok (String.ofList [c])
  | name word => lookup word

/-- Replaces every `$word`; the first word that cannot be replaced is reported. -/
def substitute (lookup : String → Except Fault String) (text : String) : Except Fault String := do
  return String.join (← (pieces none text.toList).mapM (Piece.expand lookup))

/-- The text with a zero for every name. -/
def zeroed (text : String) : String :=
  String.join ((pieces none text.toList).map fun
    | .literal c => String.ofList [c]
    | .name _ => "0")

/-- Only spaces, tabs and carriage returns are dropped around a line. -/
def trimLine (cs : List Char) : List Char := trimBy (fun c => c == ' ' || c == '\t' || c == '\r') cs

/-- What has been read: the bodies come latest first, each with its last line first. -/
structure Draft where
  info : ProgramMeta
  bodies : List (List (List Char))

def directive (m : ProgramMeta) (line : Nat) (key value : List Char) : Except ScriptError ProgramMeta :=
  let text := String.ofList value
  match String.ofList key with
  | ".name" => .ok { m with name := text }
  | ".max_qubits" =>
    match leadingNat64? value with
    | some (n, _) => .ok { m with maxQubits := n }
    | none => .error (.qubitCount text line)
  | ".epr_socket" => .ok { m with pairPeers := m.pairPeers ++ [text] }
  | ".csocket" => .ok { m with classicalPeers := m.classicalPeers ++ [text] }
  | other => .error (.unknownDirective other line)

def addLine (d : Draft) (number : Nat) (raw : List Char) : Except ScriptError Draft :=
  let line := trimLine raw
  if line = ".subroutine".toList then .ok { d with bodies := [] :: d.bodies }
  else
    match d.bodies with
    | body :: rest => .ok { d with bodies := (raw :: body) :: rest }
    | [] =>
      if line.isEmpty || line.head? == some '#' then .ok d
      else
        match words line with
        | [key, value] => return { d with info := ← directive d.info number key value }
        | _ => .error (.directive number)

def bodyText (lines : List (List Char)) : String :=
  String.ofList (lines.reverse.flatMap fun l => l ++ ['\n'])

/-- Every subroutine has to be readable once its names are replaced. -/
def check (i : Nat) (body : String) : Except ScriptError Unit :=
  match Subroutine.parse (zeroed body) with
  | .ok _ => .ok ()
  | .error e => .error (.subroutine i e)

def parse (text : String) : Except ScriptError Script := do
  let d ← (numberedLines text.toList).foldlM (fun d p => addLine d p.1 p.2) ⟨⟨"script", [], [], 1⟩, []⟩
  let bodies := d.bodies.reverse.map bodyText
  if bodies.isEmpty then .error .noSubroutine
  else
    for p in bodies.zipIdx do check p.2 p.1
    return ⟨d.info, bodies⟩

/-- A subroutine for one application, with `node` giving the ids of nodes. -/
def instantiate (program : String) (app : Int) (node : String → Option Nat) (body : String) :
    Except Fault String :=
  substitute (fun word =>
    if word = "app" then .ok (toString app)
    else
      match node word with
      | some id => .ok (toString id)
      | none => .error (.unknownScriptNode program word)) body

end Script

end QuantumNode
