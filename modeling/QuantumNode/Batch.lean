import QuantumNode.Config.Parser
import QuantumNode.Files
import QuantumNode.Network.Client

/-! Running programs on the nodes of a network and collecting their results. -/
namespace QuantumNode.Batch

/-- More small steps than a run takes. -/
def defaultFuel : Nat := 0x4000000000000000

def enqueueAll {n m : Nat} (s : Network n m) (programs : SortedMap String Program) (times : Nat) :
    Except Fault (Network n m) :=
  programs.entries.foldlM (fun s (name, p) => do return s.enqueue (← s.find name) p times) s

/-- The results of a host, which has to have completed all of its runs. -/
def completed {n m : Nat} (s : Network n m) (name : String) : Except Fault (List ProgramResult) := do
  let h := s.host (← s.find name)
  if h.results.length = h.expected then return h.results
  else .error (.runsIncomplete name h.results.length h.expected)

def collect {n m : Nat} (s : Network n m) (names : List String) : Except Fault RunResults := do
  return .ofList (← names.mapM fun name => do return (name, ← completed s name))

/-- Runs the programs of a network to the end. -/
def runNetwork {n m : Nat} (s : Network n m) (programs : SortedMap String Program) (times fuel : Nat) :
    Except Fault RunResults × Log :=
  match enqueueAll s programs times with
  | .error f => (.error f, s.log)
  | .ok s =>
    let run := s.run forever fuel
    match run.halt with
    | .failed f => (.error f, run.world.log)
    | _ => (collect run.world programs.keys, run.world.log)

/-- Runs each node's program a number of times; gives the results of every run, and what was logged. -/
def run (c : NetworkConfig) (programs : SortedMap String Program) (times fuel : Nat) :
    Except Fault RunResults × Log :=
  match Network.build c with
  | .error f => (.error f, .new c.logLevel)
  | .ok s => runNetwork s programs times fuel

variable {μ : Type → Type} [Monad μ]

def loadConfig (files : FileAccess μ) (path : String) : μ (Except String NetworkConfig) := do
  match ← files.read path with
  | none => return .error (ConfigError.unreadable path).message
  | some text => return (NetworkConfig.parse text).mapError (·.message)

def loadScript (files : FileAccess μ) (path : String) : μ (Except String Program) := do
  match ← files.read path with
  | none => return .error s!"cannot open {path}"
  | some text => return ((Script.parse text).map Script.program).mapError fun e => s!"{path}: {e.message}"

/-- What running files comes to. -/
inductive FileRun where
  | badArguments
  /-- A file cannot be opened or read. -/
  | badFile
  | failed
  | completed (json : String)
  deriving DecidableEq, Repr

def FileRun.code : FileRun → Nat
  | completed _ => 0
  | badArguments => 2
  | badFile => 3
  | failed => 4

/-- Loads programs in order; of two for one node the later counts. Names of nodes end at their first NUL. -/
def loadAll (files : FileAccess μ) :
    List (Option String × Option String) → SortedMap String Program → μ (Except FileRun (SortedMap String Program))
  | [], programs => return .ok programs
  | (some node, some path) :: rest, programs => do
    match ← loadScript files path with
    | .error _ => return .error .badFile
    | .ok p => loadAll files rest (programs.insert (Text.untilNul node) p)
  | _ :: _, _ => return .error .badArguments

/-- A network description, a script for each node named, and how often to run them. -/
structure FileJob where
  config : Option String
  /-- Nodes with the paths of their scripts; absent lists and entries are refused. -/
  nodes : Option (List (Option String))
  paths : Option (List (Option String))
  count : Int
  times : Int
  /-- Whether the results can be handed over. -/
  hasOutput : Bool

/-- The pairs of node and path that a job asks for, if its arguments are complete. -/
def FileJob.pairs? (j : FileJob) : Option (List (Option String × Option String)) :=
  if j.count < 0 || j.times < 1 || !j.hasOutput then none
  else if j.count = 0 then some []
  else
    match j.nodes, j.paths with
    | some nodes, some paths =>
      some ((List.range j.count.toNat).map fun i => (nodes.getD i none, paths.getD i none))
    | _, _ => none

def runFiles (files : FileAccess μ) (j : FileJob) (fuel : Nat) : μ FileRun := do
  match j.config, j.pairs? with
  | some path, some pairs =>
    match ← loadConfig files path with
    | .error _ => return .badFile
    | .ok c =>
      match ← loadAll files pairs .empty with
      | .error e => return e
      | .ok programs =>
        match (run c programs j.times.toNat fuel).1 with
        | .ok results => return .completed results.toJson
        | .error _ => return .failed
  | _, _ => return .badArguments

end QuantumNode.Batch
