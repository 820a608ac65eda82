import QuantumNode.Data.SortedMap
import QuantumNode.Files
import QuantumNode.Text.Integer

/-! Flags of the command that runs programs, and the options files that may stand in for them. -/
namespace QuantumNode.CommandLine

open QuantumNode.Text

/-- What a command comes to: its exit code, and what it has written to the two outputs. -/
structure Report where
  exit : Nat
  output : String
  errors : String
  deriving DecidableEq, Repr

/-- A command that ends with a message. -/
def Report.complaint (exit : Nat) (message : String) : Report := ⟨exit, "", message ++ "\n"⟩

/-- An empty text counts as an absent flag, and so does a single run. -/
structure Flags where
  config : String
  /-- Script paths by node. -/
  programs : SortedMap String String
  times : Nat
  seed : Option Nat
  logLevel : String
  logFile : String
  out : String
  deriving DecidableEq, Repr

def Flags.none : Flags := ⟨"", .empty, 1, .none, "", "", ""⟩

/-- Flags and the entries of the options files that were named among them. -/
structure Settings where
  flags : Flags
  options : SortedMap String String
  deriving DecidableEq, Repr

def Settings.none : Settings := ⟨.none, .empty⟩

def usage : String :=
  "qnodeos [--version|--build-info]\n"
    ++ "qnodeos check <subroutine file>\n"
    ++ "qnodeos run --config <network.cfg> --program <node>=<script> [--program ...] [--times N] [--seed S]\n"
    ++ "            [--log-level debug|info|warning|error|off] [--log-file F] [--options file.kv] [--out file.json]\n"

/-- Numbers are read as far as they go; the complaint names the reader of unsigned numbers. -/
def number (v : String) : Except Report Nat :=
  match leadingNat64? v.toList with
  | some (n, _) => .ok n
  | .none => .error (.complaint 2 "bad arguments: stoull")

/-- Entries of an options file: lines `key=value`; blank lines, comments and other lines are passed over. -/
def optionsOf (text : String) : List (String × String) :=
  (lines text.toList).filterMap fun line =>
    if line.head? == some '#' then .none
    else (cutAt '=' line).map fun (k, v) => (String.ofList k, String.ofList v)

def addProgram (f : Flags) (v : String) : Except Report Flags :=
  match cutAt '=' v.toList with
  | some (node, path) => .ok { f with programs := f.programs.insert (String.ofList node) (String.ofList path) }
  | .none => .error (.complaint 2 "--program expects <node>=<script>")

/-- Flags that are followed by a value, options files apart. -/
def flag? (f : Flags) (name v : String) : Option (Except Report Flags) :=
  match name with
  | "--config" => some (.ok { f with config := v })
  | "--program" => some (addProgram f v)
  | "--times" => some ((number v).map fun n => { f with times := n })
  | "--seed" => some ((number v).map fun n => { f with seed := some n })
  | "--log-level" => some (.ok { f with logLevel := v })
  | "--log-file" => some (.ok { f with logFile := v })
  | "--out" => some (.ok { f with out := v })
  | _ => .none

def takesValue (name : String) : Bool := name = "--options" || (flag? .none name "").isSome

section Reading
variable {μ : Type → Type} [Monad μ]

def addOptions (files : FileAccess μ) (s : Settings) (path : String) : ExceptT Report μ Settings := do
  match ← files.read path with
  | some text => return { s with options := (optionsOf text).foldl (fun o (k, v) => o.insert k v) s.options }
  | .none => throw (.complaint 2 s!"cannot open {path}")

def setFlag (files : FileAccess μ) (s : Settings) (name v : String) : ExceptT Report μ Settings :=
  match flag? s.flags name v with
  | some r => ExceptT.mk (pure (r.map fun f => { s with flags := f }))
  | .none => addOptions files s v

/-- Reads flags from left to right, up to the first that ends the command. -/
def readFlags (files : FileAccess μ) : List String → Settings → ExceptT Report μ Settings
  | [], s => return s
  | name :: rest, s =>
    if takesValue name then
      match rest with
      | [] => throw (.complaint 2 s!"bad arguments: missing value for {name}")
      | v :: rest => do readFlags files rest (← setFlag files s name v)
    else if name = "--help" ∨ name = "-h" then throw ⟨0, usage, ""⟩
    else throw (.complaint 2 s!"Unknown arg: {name}")

end Reading

/-- The node of an option that names a script. -/
def programOption? (key : String) : Option String :=
  if "program.".toList.isPrefixOf key.toList then some (String.ofList (key.toList.drop 8)) else .none

def addProgramOption (f : Flags) (key v : String) : Flags :=
  match programOption? key with
  | some node => if f.programs.contains node then f else { f with programs := f.programs.insert node v }
  | .none => f

/-- An option stands in for a flag that counts as absent. -/
def addOption (f : Flags) (key v : String) : Except Report Flags :=
  match key with
  | "config" => .ok (if f.config.isEmpty then { f with config := v } else f)
  | "times" => if f.times = 1 then (number v).map fun n => { f with times := n } else .ok f
  | "seed" => if f.seed.isNone then (number v).map fun n => { f with seed := some n } else .ok f
  | "log_level" => .ok (if f.logLevel.isEmpty then { f with logLevel := v } else f)
  | "out" => .ok (if f.out.isEmpty then { f with out := v } else f)
  | _ => .ok (addProgramOption f key v)

/-- The flags, with the options in the order of their keys. -/
def Settings.resolve (s : Settings) : Except Report Flags :=
  s.options.entries.foldlM (fun f (k, v) => addOption f k v) s.flags

end QuantumNode.CommandLine
