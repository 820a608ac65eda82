import QuantumNode.Config.Basic
import QuantumNode.Number.RealReader

/-! Reading network descriptions: a `key=value` per line, comments behind `#`. Global keys are settled line by
line; the lines of each stack and link are gathered first, in order of first appearance, and applied after the
last line, when it is known which device each stack has. -/
namespace QuantumNode

open QuantumNode.Text QuantumNode.Number

inductive ConfigError where
  | noAssignment (line : Nat)
  | unknownKey (key : String) (line : Nat)
  | invalidValue (value key : String) (line : Nat)
  | unknownDevice (value : String) (line : Nat)
  | unknownGenericKey (field : String) (line : Nat)
  | unknownNVKey (field : String) (line : Nat)
  | unknownLinkKey (field : String) (line : Nat)
  | unknownClassicalKey (field : String) (line : Nat)
  | invalidLinkValue (value field : String) (line : Nat)
  | invalidClassicalValue (value field : String) (line : Nat)
  | tooManyCommQubits (stack : String)
  | noStacks
  | linkToUnknownStack (a b : String)
  | linkToItself (a b : String)
  | linkNeverSucceeds (a b : String)
  | classicalToUnknownStack (a b : String)
  | classicalBoth (a b : String)
  | classicalNeither (a b : String)
  | unreadable (path : String)
  deriving DecidableEq, Repr

def ConfigError.message : ConfigError → String
  | noAssignment l => s!"Expected key=value at line {l}"
  | unknownKey k l => s!"Unknown key '{k}' at line {l}"
  | invalidValue v k l => s!"Invalid value '{v}' for {k} at line {l}"
  | unknownDevice v l => s!"Unknown qdevice '{v}' at line {l}"
  | unknownGenericKey f l => s!"Unknown generic device key '{f}' at line {l}"
  | unknownNVKey f l => s!"Unknown nv device key '{f}' at line {l}"
  | unknownLinkKey f l => s!"Unknown link key '{f}' at line {l}"
  | unknownClassicalKey f l => s!"Unknown clink key '{f}' at line {l}"
  | invalidLinkValue v f l => s!"Invalid value '{v}' for link {f} at line {l}"
  | invalidClassicalValue v f l => s!"Invalid value '{v}' for clink {f} at line {l}"
  | tooManyCommQubits s => s!"Stack '{s}': num_comm_qubits exceeds num_qubits"
  | noStacks => "No stacks defined"
  | linkToUnknownStack a b => s!"Link {a}-{b} refers to an unknown stack"
  | linkToItself a b => s!"Link {a}-{b} connects a stack to itself"
  | linkNeverSucceeds a b => s!"Link {a}-{b} can never succeed"
  | classicalToUnknownStack a b => s!"Clink {a}-{b} refers to an unknown stack"
  | classicalBoth a b => s!"Clink {a}-{b} can only use one of delay and distance"
  | classicalNeither a b => s!"Clink {a}-{b} requires delay or distance"
  | unreadable path => s!"Cannot open config file: {path}"

namespace ConfigText

/-- A field of a stack or link with its value. -/
structure Entry where
  field : String
  value : List Char
  line : Nat

/-- What the lines say about one stack. -/
structure StackLines where
  nv : Bool
  entries : List Entry

/-- What the lines read so far say, each list in order of first appearance. -/
structure Draft where
  config : NetworkConfig
  nodes : List (String × StackLines)
  links : List ((String × String) × List Entry)
  classicalLinks : List ((String × String) × List Entry)

/-- Changes what is said about a key, which is added at the end if it is new. -/
def amend {κ α : Type} [DecidableEq κ] (k : κ) (initial : α) (f : α → α) : List (κ × α) → List (κ × α)
  | [] => [(k, f initial)]
  | (k', v) :: r => if k' = k then (k', f v) :: r else (k', v) :: amend k initial f r

/-- A finite real number; a value too small for a double stands for its rounding. -/
def real? (cs : List Char) : Option Float :=
  match RealReading.read? cs with
  | some ⟨x, _, []⟩ => if x.isFinite then some x.toFloat else none
  | _ => none

def realThat? (p : Float → Bool) (cs : List Char) : Option Float := (real? cs).filter p

def nonNegative? (cs : List Char) : Option Float := realThat? (· ≥ 0.0) cs

def positive? (cs : List Char) : Option Float := realThat? (· > 0.0) cs

def time? (cs : List Char) : Option Nat := (nonNegative? cs).map nanoseconds

def probability? (cs : List Char) : Option Float := realThat? (fun x => x ≥ 0.0 && x ≤ 1.0) cs

def count? (cs : List Char) : Option Nat := (nat64? cs).filter (0 < ·)

/-- The outcome of a field: no such field, a value that the field cannot have, or the changed description. -/
abbrev Setting (α : Type) := Option (Option α)

def genericField (g : GenericDevice) (field : String) (v : List Char) : Setting GenericDevice :=
  match field with
  | "num_qubits" => some ((count? v).map fun n => { g with numQubits := n })
  | "num_comm_qubits" => some ((nat64? v).map fun n => { g with numCommQubits := n })
  | "init" => some ((time? v).map fun t => { g with init := t })
  | "rot_x" => some ((time? v).map fun t => { g with rotX := t })
  | "rot_y" => some ((time? v).map fun t => { g with rotY := t })
  | "rot_z" => some ((time? v).map fun t => { g with rotZ := t })
  | "cnot" => some ((time? v).map fun t => { g with cnot := t })
  | "cphase" => some ((time? v).map fun t => { g with cphase := t })
  | "measure" => some ((time? v).map fun t => { g with measure := t })
  | "single_qubit_gate_depolar_prob" => some ((probability? v).map fun p => { g with singleGateNoise := p })
  | "two_qubit_gate_depolar_prob" => some ((probability? v).map fun p => { g with pairGateNoise := p })
  | _ => none

/-- A device made perfect keeps its size and its durations. -/
def perfectField (d : NVDevice) (v : List Char) : Option NVDevice :=
  let s := String.ofList v
  if s = "1" ∨ s = "true" then some d.noiseless
  else if s = "0" ∨ s = "false" then some d
  else none

def nvField (d : NVDevice) (field : String) (v : List Char) : Setting NVDevice :=
  match field with
  | "num_qubits" => some ((count? v).map fun n => { d with numQubits := n })
  | "perfect" => some (perfectField d v)
  | "electron_init_depolar_prob" => some ((probability? v).map fun p => { d with electronInitNoise := p })
  | "electron_single_qubit_depolar_prob" => some ((probability? v).map fun p => { d with electronGateNoise := p })
  | "prob_error_0" => some ((probability? v).map fun p => { d with readoutError0 := p })
  | "prob_error_1" => some ((probability? v).map fun p => { d with readoutError1 := p })
  | "carbon_init_depolar_prob" => some ((probability? v).map fun p => { d with carbonInitNoise := p })
  | "carbon_z_rot_depolar_prob" => some ((probability? v).map fun p => { d with carbonRotZNoise := p })
  | "ec_gate_depolar_prob" => some ((probability? v).map fun p => { d with pairGateNoise := p })
  | "carbon_init" => some ((time? v).map fun t => { d with carbonInit := t })
  | "carbon_rot_x" => some ((time? v).map fun t => { d with carbonRotX := t })
  | "carbon_rot_y" => some ((time? v).map fun t => { d with carbonRotY := t })
  | "carbon_rot_z" => some ((time? v).map fun t => { d with carbonRotZ := t })
  | "electron_init" => some ((time? v).map fun t => { d with electronInit := t })
  | "electron_rot_x" => some ((time? v).map fun t => { d with electronRotX := t })
  | "electron_rot_y" => some ((time? v).map fun t => { d with electronRotY := t })
  | "electron_rot_z" => some ((time? v).map fun t => { d with electronRotZ := t })
  | "ec_controlled_dir_x" => some ((time? v).map fun t => { d with directedX := t })
  | "ec_controlled_dir_y" => some ((time? v).map fun t => { d with directedY := t })
  | "measure" => some ((time? v).map fun t => { d with measure := t })
  | _ => none

def linkKind? (v : List Char) : Option LinkKind :=
  match String.ofList v with
  | "perfect" => some .perfect
  | "depolarise" | "depolarize" => some .depolarise
  | "heralded" => some .heralded
  | _ => none

def linkField (l : LinkConfig) (field : String) (v : List Char) : Setting LinkConfig :=
  match field with
  | "typ" | "type" => some ((linkKind? v).map fun k => { l with kind := k })
  | "state_delay" => some ((nonNegative? v).map fun x => { l with stateDelay := x })
  | "fidelity" => some ((probability? v).map fun p => { l with fidelity := p })
  | "prob_success" => some (((probability? v).filter (· > 0.0)).map fun p => { l with probSuccess := p })
  | "t_cycle" => some ((nonNegative? v).map fun x => { l with cycleTime := x })
  | "length" => some ((nonNegative? v).map fun x => { l with length := x })
  | "p_loss_init" => some ((probability? v).map fun p => { l with lossInit := p })
  | "p_loss_length" => some ((nonNegative? v).map fun x => { l with lossLength := x })
  | "speed_of_light" => some ((positive? v).map fun x => { l with speedOfLight := x })
  | "detector_efficiency" => some ((probability? v).map fun p => { l with detectorEfficiency := p })
  | "visibility" => some ((probability? v).map fun p => { l with visibility := p })
  | _ => none

def classicalField (c : ClassicalLinkConfig) (field : String) (v : List Char) : Setting ClassicalLinkConfig :=
  match field with
  | "delay" => some ((nonNegative? v).map fun x => { c with delay := some x })
  | "distance" => some ((nonNegative? v).map fun x => { c with distance := some x })
  | "speed_of_light" => some ((positive? v).map fun x => { c with speedOfLight := x })
  | _ => none

def globalField (c : NetworkConfig) (key : String) (v : List Char) : Setting NetworkConfig :=
  match key with
  | "seed" => some ((nat64? v).map fun n => { c with seed := n })
  | "log_level" => some ((LogLevel.parse? v).map fun l => { c with logLevel := l })
  | "host_qnos_latency" => some ((time? v).map fun t => { c with hostLatency := t })
  | "clink_delay" => some ((time? v).map fun t => { c with classicalDelay := t })
  | _ => none

/-- Settles a field, naming the error for a field that is unknown and for a value that is not allowed. -/
def settle {α : Type} (s : Setting α) (unknown invalid : ConfigError) : Except ConfigError α :=
  match s with
  | none => .error unknown
  | some none => .error invalid
  | some (some a) => .ok a

def addGlobal (d : Draft) (line : Nat) (key : String) (v : List Char) : Except ConfigError Draft := do
  let c ← settle (globalField d.config key v) (.unknownKey key line) (.invalidValue (String.ofList v) key line)
  return { d with config := c }

def addStackField (d : Draft) (line : Nat) (stack field : String) (v : List Char) : Except ConfigError Draft :=
  let change := fun f => { d with nodes := amend stack ⟨false, []⟩ f d.nodes }
  if field = "qdevice" then
    match String.ofList v with
    | "generic" => .ok (change fun s => { s with nv := false })
    | "nv" => .ok (change fun s => { s with nv := true })
    | other => .error (.unknownDevice other line)
  else .ok (change fun s => { s with entries := s.entries ++ [⟨field, v, line⟩] })

def addAssignment (d : Draft) (line : Nat) (key value : List Char) : Except ConfigError Draft :=
  let keyText := String.ofList key
  match (splitAt '.' key).map String.ofList with
  | [_] => addGlobal d line keyText value
  | ["stack", stack, field] => addStackField d line stack field value
  | ["link", a, b, field] =>
    .ok { d with links := amend (a, b) [] (· ++ [⟨field, value, line⟩]) d.links }
  | ["clink", a, b, field] =>
    .ok { d with classicalLinks := amend (a, b) [] (· ++ [⟨field, value, line⟩]) d.classicalLinks }
  | _ => .error (.unknownKey keyText line)

def addLine (d : Draft) (number : Nat) (raw : List Char) : Except ConfigError Draft :=
  let line := trim (before '#' raw)
  if line.isEmpty then .ok d
  else
    match cutAt '=' line with
    | none => .error (.noAssignment number)
    | some (key, value) => addAssignment d number (trim key) (trim value)

def draft (cs : List Char) : Except ConfigError Draft :=
  (numberedLines cs).foldlM (fun d p => addLine d p.1 p.2) ⟨.standard, [], [], []⟩

def genericEntry (g : GenericDevice) (e : Entry) : Except ConfigError GenericDevice :=
  settle (genericField g e.field e.value) (.unknownGenericKey e.field e.line)
    (.invalidValue (String.ofList e.value) e.field e.line)

def nvEntry (d : NVDevice) (e : Entry) : Except ConfigError NVDevice :=
  settle (nvField d e.field e.value) (.unknownNVKey e.field e.line)
    (.invalidValue (String.ofList e.value) e.field e.line)

def linkEntry (l : LinkConfig) (e : Entry) : Except ConfigError LinkConfig :=
  settle (linkField l e.field e.value) (.unknownLinkKey e.field e.line)
    (.invalidLinkValue (String.ofList e.value) e.field e.line)

def classicalEntry (c : ClassicalLinkConfig) (e : Entry) : Except ConfigError ClassicalLinkConfig :=
  settle (classicalField c e.field e.value) (.unknownClassicalKey e.field e.line)
    (.invalidClassicalValue (String.ofList e.value) e.field e.line)

def stack (p : String × StackLines) : Except ConfigError StackConfig := do
  if p.2.nv then return ⟨p.1, .nv (← p.2.entries.foldlM nvEntry .standard)⟩
  else
    let g ← p.2.entries.foldlM genericEntry .standard
    if g.numQubits < g.numCommQubits then .error (.tooManyCommQubits p.1)
    else return ⟨p.1, .generic g⟩

def link (known : String → Bool) (p : (String × String) × List Entry) : Except ConfigError LinkConfig := do
  let (a, b) := p.1
  let l ← p.2.foldlM linkEntry (.standard a b)
  if !known a || !known b then .error (.linkToUnknownStack a b)
  else if a = b then .error (.linkToItself a b)
  else if l.effectiveProbSuccess ≤ 0.0 then .error (.linkNeverSucceeds a b)
  else return l

def classicalLink (known : String → Bool) (p : (String × String) × List Entry) :
    Except ConfigError ClassicalLinkConfig := do
  let (a, b) := p.1
  let c ← p.2.foldlM classicalEntry (.standard a b)
  if !known a || !known b then .error (.classicalToUnknownStack a b)
  else
    match c.delay, c.distance with
    | some _, some _ => .error (.classicalBoth a b)
    | none, none => .error (.classicalNeither a b)
    | _, _ => return c

def Draft.complete (d : Draft) : Except ConfigError NetworkConfig := do
  let nodes ← d.nodes.mapM stack
  if nodes.isEmpty then .error .noStacks
  else
    let known := fun name => nodes.any (·.name = name)
    let links ← d.links.mapM (link known)
    let classicalLinks ← d.classicalLinks.mapM (classicalLink known)
    return { d.config with nodes := nodes, links := links, classicalLinks := classicalLinks }

end ConfigText

namespace NetworkConfig

def parse (text : String) : Except ConfigError NetworkConfig := do
  let d ← ConfigText.draft text.toList
  d.complete

end NetworkConfig

end QuantumNode
