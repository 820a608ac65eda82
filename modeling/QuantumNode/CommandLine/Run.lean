import QuantumNode.Batch
import QuantumNode.CommandLine.Flags

/-! The commands: checking a subroutine, running programs, and questions about the program itself. -/
namespace QuantumNode.CommandLine

def version : String := "0.1.0"

variable {μ : Type → Type} [Monad μ]

/-- Writes a subroutine the way it was understood. -/
def check (files : FileAccess μ) : List String → μ Report
  | [] => return ⟨1, usage, ""⟩
  | path :: _ => do
    match ← files.read path with
    | none => return .complaint 2 s!"cannot open {path}"
    | some text =>
      match Subroutine.parse text with
      | .ok s => return ⟨0, s.text, ""⟩
      | .error e => return .complaint 3 s!"{path}: {e.message}"

/-- A failure of the action ends the command. -/
def require {α : Type} (exit : Nat) (action : μ (Except String α)) : ExceptT Report μ α :=
  ExceptT.mk do return (← action).mapError (.complaint exit)

def requireThat (exit : Nat) (p : Bool) (message : String) : ExceptT Report μ Unit :=
  if p then pure () else throw (.complaint exit message)

/-- The description of the network, with what the flags say in the place of what it says. -/
def configOf (files : FileAccess μ) (f : Flags) : ExceptT Report μ NetworkConfig := do
  requireThat 2 (!f.config.isEmpty) "Missing --config"
  requireThat 2 (!f.programs.isEmpty) "Missing --program"
  let c ← require 3 (Batch.loadConfig files f.config)
  let c := { c with seed := f.seed.getD c.seed }
  if f.logLevel.isEmpty then return c
  else
    match LogLevel.parse? f.logLevel.toList with
    | some level => return { c with logLevel := level }
    | none => throw (.complaint 2 s!"unknown log level '{f.logLevel}'")

def openLog (files : FileAccess μ) (f : Flags) : ExceptT Report μ Unit := do
  if f.logFile.isEmpty then return
  else requireThat 2 (← files.create f.logFile) s!"cannot write {f.logFile}"

/-- Loads the script of every node, in the order of their names. -/
def loadPrograms (files : FileAccess μ) (f : Flags) (c : NetworkConfig) :
    ExceptT Report μ (SortedMap String Program) :=
  f.programs.entries.foldlM (fun programs (node, path) => do
    requireThat 3 (c.findStack node).isSome s!"no node named '{node}' in {f.config}"
    return programs.insert node (← require 3 (Batch.loadScript files path))) .empty

/-- Hands the results over. -/
def deliver (files : FileAccess μ) (f : Flags) (results : Except Fault RunResults) : μ Report := do
  match results with
  | .error e => return .complaint 4 s!"simulation failed: {e.message}"
  | .ok r =>
    if f.out.isEmpty then return ⟨0, r.toJson ++ "\n", ""⟩
    else if ← files.create f.out then
      files.write f.out 0 (r.toJson ++ "\n")
      return ⟨0, "", ""⟩
    else return .complaint 2 s!"cannot write {f.out}"

/-- Runs the programs; the log goes to its file if there is one. What the buffer of that file still holds then
follows after the results, which matters if both go to the same file. -/
def simulate (files : FileAccess μ) (f : Flags) (c : NetworkConfig) (programs : SortedMap String Program)
    (fuel : Nat) : μ Report := do
  let (results, log) := Batch.run c programs f.times fuel
  let text := String.join log.pieces
  if f.logFile.isEmpty then
    let r ← deliver files f results
    return { r with errors := text ++ r.errors }
  else
    let sent := sentLength log.pieces
    files.write f.logFile 0 (String.ofList (text.toList.take sent))
    let r ← deliver files f results
    files.write f.logFile sent (String.ofList (text.toList.drop sent))
    return r

def runPrograms (files : FileAccess μ) (args : List String) (fuel : Nat) : ExceptT Report μ Report := do
  let s ← readFlags files args .none
  let f ← ExceptT.mk (pure s.resolve)
  let c ← configOf files f
  openLog files f
  let programs ← loadPrograms files f c
  ExceptT.lift (simulate files f c programs fuel)

/-- Arguments end at their first NUL. -/
def command (files : FileAccess μ) (args : List String) (fuel : Nat) : μ Report := do
  match args.map Text.untilNul with
  | "--version" :: _ => return ⟨0, version ++ "\n", ""⟩
  | "--build-info" :: _ => return ⟨0, s!"version={version} openmp=off\n", ""⟩
  | "--help" :: _ | "-h" :: _ => return ⟨0, usage, ""⟩
  | "check" :: rest => check files rest
  | "run" :: rest =>
    match ← (runPrograms files rest fuel).run with
    | .ok r => return r
    | .error r => return r
  | _ => return ⟨1, usage, ""⟩

end QuantumNode.CommandLine
