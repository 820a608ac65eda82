import QuantumNode.Host.Run
import QuantumNode.Node.Dispatch
import QuantumNode.Simulation.Context
import QuantumNode.Simulation.World

/-! A network of nodes with their hosts and links, everything that happens in it, and how it is built from a
description. -/
namespace QuantumNode

inductive NetworkEvent (n m : Nat) where
  | resume (p : ProcessId) (wake : Wake)
  | deliver (line : Line n) (text : String)
  | deliverPeer (source target : Fin n) (message : PeerMessage)
  /-- The pair service of a node is told that a message has been delivered. -/
  | news (node : Fin n)
  | link (l : Fin m) (e : LinkEvent)
  | alarm (k : Nat)

/-- Work on a network from outside of its nodes. -/
inductive ClientWork (n m : Nat) where
  | executing (node : Fin n) (e : Execution)
  | startingCall (node : Fin n) (c : DeviceCall)
  | startingGate (node : Fin n) (c : DeviceCall)
  | operating (node : Fin n) (c : DeviceCall)
  /-- Asks the link of a node to a remote node. -/
  | asking (node : Fin n) (role : PairRole) (remote : Int) (request : PairRequest) (position : Nat)
  /-- Asks a link in the name of a node. -/
  | askingLink (l : Fin m) (node : Int) (c : LinkCall)
  | awaiting

/-- What the work of a client comes to. -/
inductive Outcome where
  | executed (s : ExecutionStatus)
  | operated (bit : Option Nat)
  | answered (a : LinkAnswer)
  | failed (f : Fault)

inductive Activity (n m : Nat) where
  | pairing (node : Fin n) (s : PairStage)
  | dispatch (node : Fin n) (s : DispatchStage)
  | host (host : Fin n) (s : HostStage)
  | client (w : ClientWork n m)

structure Process (n m : Nat) where
  name : String
  activity : Activity n m

/-- Something for whoever runs the network to know. -/
inductive Notice where
  | finished (time : Nat) (name : String) (o : Outcome)
  | observed (time : Nat) (remote : Int) (request : PairRequest)

/-- A link with the channels on which its two ends are answered. -/
structure WiredLink where
  link : Link
  left : Channel LinkAnswer ProcessId
  right : Channel LinkAnswer ProcessId

namespace WiredLink

def new (l : Link) : WiredLink := ⟨l, .new 0, .new 0⟩

def answers (w : WiredLink) : LinkEnd → Channel LinkAnswer ProcessId
  | .left => w.left
  | .right => w.right

def setAnswers (w : WiredLink) (e : LinkEnd) (c : Channel LinkAnswer ProcessId) : WiredLink :=
  match e with
  | .left => { w with left := c }
  | .right => { w with right := c }

end WiredLink

structure Network (n m : Nat) where
  agenda : Agenda (NetworkEvent n m)
  processes : SortedMap ProcessId (Process n m)
  /-- The number of the next process. -/
  fresh : ProcessId
  /-- The process that is going on, and why. -/
  current : Option (ProcessId × Wake)
  quantum : QuantumState
  log : Log
  nodes : Vector (Node n m) n
  hosts : Vector (Host n) n
  links : Vector WiredLink m
  /-- Whether nodes and hosts have been started. -/
  started : Bool
  notices : Array Notice

namespace Network

/-! Building. -/

def poolOf : DeviceConfig → Except Fault QubitPool
  | .generic g => .ok (.generic g.numQubits g.numCommQubits)
  | .nv v => QubitPool.nv v.numQubits

/-- Registers a stack and reserves its qubits; gives the first of them and the pool. -/
def register (s : StackConfig) : StateT SimulationContext (Except Fault) (Nat × QubitPool) := do
  let (_, c) ← (← get).register s.name
  let (base, c) ← c.reserve s.device.numQubits
  set c
  return (base, ← poolOf s.device)

def wire (c : SimulationContext) (l : LinkConfig) : Except Fault WiredLink := do
  let some a := c.nodeId l.stack1 | .error (.unknownNode l.stack1)
  let some b := c.nodeId l.stack2 | .error (.unknownNode l.stack2)
  if a = b then .error (.selfLink l.stack1) else .ok (.new (.new l a b))

/-- The links that end at a node, by remote node. -/
def portsOf {m : Nat} (links : Vector WiredLink m) (node : Nat) : LinkPorts m :=
  (List.finRange m).foldl (fun ports i =>
    let l := (links.get i).link
    match l.endAt? node with
    | some e => { ports with links := ports.links.insert (l.nodeAt e.opposite) (i, e) }
    | none => ports) .new

/-- Delays to a node from every node. -/
def delaysTo {n : Nat} (c : NetworkConfig) (names : Vector String n) (target : Fin n) : Vector Nat n :=
  names.map fun source => c.delayBetween source (names.get target)

def build (c : NetworkConfig) : Except Fault (Network c.nodes.length c.links.length) := do
  let configs : Vector StackConfig c.nodes.length := ⟨c.nodes.toArray, List.size_toArray⟩
  let links : Vector LinkConfig c.links.length := ⟨c.links.toArray, List.size_toArray⟩
  let names := configs.map (·.name)
  let (places, context) ← (configs.mapM register).run (.new c.seed)
  let context ← context.build
  let quantum ← context.quantumState
  let links ← links.mapM (wire context)
  let node := fun (i : Fin c.nodes.length) =>
    { id := i
      name := names.get i
      device := .new (configs.get i).device (places.get i).1
      pool := (places.get i).2
      apps := .empty
      memoryFreed := .new
      arrayWritten := .new
      inbox := .new c.hostLatency
      ports := portsOf links i
      service := .new (delaysTo c names i)
      dispatcher := .new
      executed := 0
      relocations := 0 }
  let host := fun (i : Fin c.nodes.length) =>
    { id := i
      names := names
      queue := []
      results := []
      expected := 0
      fromNode := .new c.hostLatency
      fromPeers := (delaysTo c names i).map .new }
  return {
    agenda := .start
    processes := .empty
    fresh := 0
    current := none
    quantum := quantum
    log := .new c.logLevel
    nodes := .ofFn node
    hosts := .ofFn host
    links := links
    started := false
    notices := #[] }

variable {n m : Nat} {α : Type}

def now (s : Network n m) : Nat := s.agenda.now

def node (s : Network n m) (i : Fin n) : Node n m := s.nodes.get i

def setNode (s : Network n m) (i : Fin n) (x : Node n m) : Network n m := { s with nodes := s.nodes.set i x i.isLt }

def host (s : Network n m) (i : Fin n) : Host n := s.hosts.get i

def setHost (s : Network n m) (i : Fin n) (h : Host n) : Network n m := { s with hosts := s.hosts.set i h i.isLt }

def wired (s : Network n m) (l : Fin m) : WiredLink := s.links.get l

def setWired (s : Network n m) (l : Fin m) (w : WiredLink) : Network n m :=
  { s with links := s.links.set l w l.isLt }

def link (s : Network n m) (l : Fin m) : Link := (s.wired l).link

/-- The node of a name. -/
def find (s : Network n m) (name : String) : Except Fault (Fin n) :=
  match s.nodes.findFinIdx? (·.name = name) with
  | some i => .ok i
  | none => .error (.unknownNode name)

/-- The last link between two nodes. -/
def linkBetween? (s : Network n m) (a b : Fin n) : Option (Fin m) :=
  (((s.node a).ports.links.get? b).filter fun _ => a ≠ b).map Prod.fst

/-! Effects. -/

def schedule (s : Network n m) (delay : Nat) (e : NetworkEvent n m) : Network n m :=
  { s with agenda := s.agenda.schedule delay e }

def resume (s : Network n m) (p : ProcessId) (wake : Wake) : Network n m := s.schedule 0 (.resume p wake)

def write (s : Network n m) (level : LogLevel) (name text : String) : Network n m :=
  { s with log := s.log.write level (some s.now) name text }

def channel (s : Network n m) : Line n → Channel String ProcessId
  | .toNode i => (s.node i).inbox
  | .toHost i => (s.host i).fromNode
  | .between source target => (s.host target).fromPeers.get source

def setChannel (s : Network n m) (line : Line n) (c : Channel String ProcessId) : Network n m :=
  match line with
  | .toNode i => s.setNode i { s.node i with inbox := c }
  | .toHost i => s.setHost i { s.host i with fromNode := c }
  | .between source target =>
    let h := s.host target
    s.setHost target { h with fromPeers := h.fromPeers.set source c source.isLt }

/-- A text arrives at the end of its line. -/
def deliver (s : Network n m) (line : Line n) (text : String) : Network n m :=
  match (s.channel line).arrive text with
  | (some p, c) => (s.setChannel line c).resume p (.text text)
  | (none, c) => s.setChannel line c

/-- Sends a text; without latency it arrives at once. -/
def send (s : Network n m) (line : Line n) (text : String) : Network n m :=
  let c := (s.channel line).countSent
  let s := s.setChannel line c
  if c.latency = 0 then s.deliver line text else s.schedule c.latency (.deliver line text)

def setInbound (s : Network n m) (source target : Fin n) (c : Channel PeerMessage ProcessId) : Network n m :=
  let node := s.node target
  s.setNode target { node with service.inbound := node.service.inbound.set source c source.isLt }

/-- The messages on their way from one pair service to another. -/
def inbound (s : Network n m) (source target : Fin n) : Channel PeerMessage ProcessId :=
  (s.node target).service.inbound.get source

def deliverPeer (s : Network n m) (source target : Fin n) (message : PeerMessage) : Network n m :=
  s.setInbound source target ((s.inbound source target).arrive message).2

/-- Sends a message to a pair service, which is notified after the message has been delivered. -/
def tell (s : Network n m) (source target : Fin n) (message : PeerMessage) : Network n m :=
  let c := (s.inbound source target).countSent
  let s := s.setInbound source target c
  let s :=
    if c.latency = 0 then s.deliverPeer source target message
    else s.schedule c.latency (.deliverPeer source target message)
  s.schedule c.latency (.news target)

def setLink (s : Network n m) (l : Fin m) (link : Link) : Network n m :=
  s.setWired l { s.wired l with link := link }

/-- An end of a link is answered. -/
def answer (s : Network n m) (l : Fin m) (e : LinkEnd) (a : LinkAnswer) : Network n m :=
  let w := s.wired l
  match (w.answers e).countSent.arrive a with
  | (some p, c) => (s.setWired l (w.setAnswers e c)).resume p (.answer a)
  | (none, c) => s.setWired l (w.setAnswers e c)

def applyLink (l : Fin m) (s : Network n m) : LinkEffect → Network n m
  | .answer e a => s.answer l e a
  | .schedule delay e => s.schedule delay (.link l e)
  | .log level text => s.write level (s.link l).name text

/-- The new state of a link, and what it brings about. -/
def updateLink (s : Network n m) (l : Fin m) (r : List LinkEffect × Link) : Network n m :=
  r.1.foldl (applyLink l) (s.setLink l r.2)

def abortLink (s : Network n m) (l : Fin m) (e : LinkEnd) : Network n m :=
  s.updateLink l ((s.link l).abort e)

def fireLink (s : Network n m) (l : Fin m) (e : LinkEvent) : Network n m :=
  let (r, q) := (s.link l).fire e s.quantum
  { s with quantum := q }.updateLink l r

/-- A process asks a link. It gets the answer at once, or waits for it. -/
def askLink (s : Network n m) (p : ProcessId) (l : Fin m) (e : LinkEnd) (c : LinkCall) :
    Except Fault (Option LinkAnswer × Network n m) :=
  match (s.link l).request e c s.quantum with
  | .error f => .error f
  | .ok (.refused a link) => .ok (some a, s.setLink l link)
  | .ok (.accepted effects link q) =>
    let s := { s with quantum := q }.updateLink l (effects, link)
    let (a, answers) := ((s.wired l).answers e).receive p
    .ok (a, s.setWired l ((s.wired l).setAnswers e answers))

def applyEffect (s : Network n m) : Effect n m → Network n m
  | .log level name text => s.write level name text
  | .resume delay p wake => s.schedule delay (.resume p wake)
  | .send line text => s.send line text
  | .tell source target message => s.tell source target message
  | .abortLink l e => s.abortLink l e
  | .observed remote request => { s with notices := s.notices.push (.observed s.now remote request) }

/-- Work of a node on the network. -/
def atNode (s : Network n m) (i : Fin n) (work : NodeWork n m α) : Except Fault α × Network n m :=
  let (r, w) := (work.run ⟨s.node i, s.quantum, s.now, #[]⟩).run
  (r, w.effects.foldl applyEffect { s.setNode i w.part with quantum := w.quantum })

/-- Work of a host on the network. -/
def atHost (s : Network n m) (i : Fin n) (work : HostWork n m α) : Except Fault α × Network n m :=
  let (r, w) := (work.run ⟨s.host i, s.quantum, s.now, #[]⟩).run
  (r, w.effects.foldl applyEffect { s.setHost i w.part with quantum := w.quantum })

end Network

end QuantumNode
