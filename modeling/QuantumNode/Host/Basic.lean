import QuantumNode.Node.Work
import QuantumNode.Message.Control
import QuantumNode.Program.Plan

/-! A host: the programs that wait to be run on it, their results, and the channels that lead to it. -/
namespace QuantumNode

structure Host (n : Nat) where
  id : Fin n
  /-- The names of all nodes; a host has the name of its node. -/
  names : Vector String n
  /-- Programs still to be run, and how often. -/
  queue : List (Program × Nat)
  results : List ProgramResult
  /-- How many runs have been asked for. -/
  expected : Nat
  fromNode : Channel String ProcessId
  fromPeers : Vector (Channel String ProcessId) n

abbrev HostWork (n m : Nat) := Work (Host n) n m

namespace Host

variable {n m : Nat}

def name (h : Host n) : String := h.names.get h.id

/-- The node of a name. -/
def node? (h : Host n) (name : String) : Option (Fin n) := h.names.finIdxOf? name

/-- Another host, with which there are classical channels. -/
def peer? (h : Host n) (name : String) : Option (Fin n) := (h.node? name).filter (· ≠ h.id)

def enqueue (h : Host n) (p : Program) (times : Nat) : Host n :=
  { h with queue := h.queue ++ [(p, times)], expected := (h.expected + times) % Word.size64 }

def log (level : LogLevel) (text : String) : HostWork n m Unit := do
  Work.log level s!"Host({(← Work.part).name})" text

/-- Sends a message to the node. -/
def tellNode (message : HostMessage) : HostWork n m Unit := do
  Work.emit (.send (.toNode (← Work.part).id) message.encode)

/-- The oldest reply of the node, or a wait for one. -/
def takeReply (p : ProcessId) : HostWork n m (Option String) := do
  let h ← Work.part
  let (text, c) := h.fromNode.receive p
  Work.setPart { h with fromNode := c }
  return text

/-- The oldest message of a peer, or a wait for one. -/
def takeMessage (p : ProcessId) (source : Fin n) : HostWork n m (Option String) := do
  let h ← Work.part
  let (text, c) := (h.fromPeers.get source).receive p
  Work.setPart { h with fromPeers := h.fromPeers.set source c source.isLt }
  return text

end Host

end QuantumNode
