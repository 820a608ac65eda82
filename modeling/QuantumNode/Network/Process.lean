import QuantumNode.Network.Basic

/-! Processes of a network and the order in which they go on. -/
namespace QuantumNode.Network

variable {n m : Nat}

/-- Starts a process at the current time. -/
def spawn (s : Network n m) (name : String) (a : Activity n m) : Network n m :=
  { s with
    processes := s.processes.insert s.fresh ⟨name, a⟩
    fresh := s.fresh + 1 }.resume s.fresh .go

/-- Starts the pair service and the dispatcher of a node. -/
def startNode (s : Network n m) (i : Fin n) : Network n m :=
  (s.spawn ((s.node i).name ++ ".netstack") (.pairing i .idle)).spawn ((s.node i).name ++ ".handler")
    (.dispatch i .idle)

def startHost (s : Network n m) (i : Fin n) : Network n m :=
  s.spawn ((s.host i).name ++ ".host") (.host i .next)

/-- Starts all nodes and then all hosts, once. -/
def start (s : Network n m) : Network n m :=
  if s.started then s
  else
    let s := (List.finRange n).foldl startNode { s with started := true }
    (List.finRange n).foldl startHost s

def live (s : Network n m) : Nat := s.processes.size

/-- What a step of a process comes to; a client ends with an outcome. -/
abbrev Step (n m : Nat) := Except Fault (Flow m (Activity n m) (Option Outcome)) × Network n m

def step {α β : Type} (r : Except Fault (Flow m α β) × Network n m) (going : α → Activity n m)
    (ending : β → Option Outcome) : Step n m :=
  (r.1.map (·.map going ending), r.2)

/-- Begins a call of a device. -/
def beginCall (s : Network n m) (i : Fin n) (c : DeviceCall) (work : NodeWork n m Unit) : Step n m :=
  let (r, s) := s.atNode i work
  (r.map fun _ => .rest (.client (.operating i c)), s)

def stepClient (s : Network n m) (p : ProcessId) (w : ClientWork n m) (wake : Wake) : Step n m :=
  match w, wake with
  | .executing i e, _ =>
    step (s.atNode i (Execution.step p e)) (fun e => .client (.executing i e)) (fun st => some (.executed st))
  | .startingCall i c, _ => s.beginCall i c (Node.startCall p c)
  | .startingGate i c, _ => s.beginCall i c (Node.startGate p c)
  | .operating i c, _ =>
    let (r, s) := s.atNode i (Node.finishCall c)
    (r.map fun bit => .finished (some (.operated bit)), s)
  | .asking i role remote request position, _ =>
    let (r, s) := s.atNode i (Node.linkCall role remote request position)
    (r.map fun (l, e, c) => .call (.client .awaiting) l e c, s)
  | .askingLink l node c, _ => (((s.link l).endAt node).map fun e => .call (.client .awaiting) l e c, s)
  | .awaiting, .answer a => (.ok (.finished (some (.answered a))), s)
  | .awaiting, _ => (.ok (.rest (.client .awaiting)), s)

def stepActivity (s : Network n m) (p : ProcessId) (wake : Wake) : Activity n m → Step n m
  | .pairing i stage => step (s.atNode i (Pairing.step p stage wake)) (.pairing i) (fun e => nomatch e)
  | .dispatch i stage => step (s.atNode i (Dispatch.step p stage wake)) (.dispatch i) (fun e => nomatch e)
  | .host i stage => step (s.atHost i (HostRun.step p stage wake)) (.host i) (fun _ => none)
  | .client w => s.stepClient p w wake

def setCurrent (s : Network n m) (c : Option (ProcessId × Wake)) : Network n m := { s with current := c }

def setActivity (s : Network n m) (p : ProcessId) (process : Process n m) (a : Activity n m) : Network n m :=
  { s with processes := s.processes.insert p { process with activity := a } }

/-- The end of a process; that of a client is reported. -/
def finish (s : Network n m) (p : ProcessId) (process : Process n m) (o : Option Outcome) : Network n m :=
  let s := { s with processes := s.processes.erase p, current := none }
  match o with
  | some o => { s with notices := s.notices.push (.finished s.now process.name o) }
  | none => s

/-- A fault ends its process. That of a client is the client's outcome; any other stops the run. -/
def failProcess (s : Network n m) (p : ProcessId) (process : Process n m) (f : Fault) :
    Progress (Network n m) Fault :=
  match process.activity with
  | .client _ => .went (s.finish p process (some (.failed f)))
  | _ => .failed f ((s.finish p process none).write .error "Scheduler" s!"process '{process.name}' failed")

/-- A small step of a process. -/
def stepProcess (s : Network n m) (p : ProcessId) (process : Process n m) (wake : Wake) :
    Progress (Network n m) Fault :=
  match s.stepActivity p wake process.activity with
  | (.error f, s) => s.failProcess p process f
  | (.ok (.go a), s) => .went ((s.setActivity p process a).setCurrent (some (p, .go)))
  | (.ok (.rest a), s) => .went ((s.setActivity p process a).setCurrent none)
  | (.ok (.finished o), s) => .went (s.finish p process o)
  | (.ok (.call a l e c), s) =>
    match s.askLink p l e c with
    | .error f => s.failProcess p process f
    | .ok (some answer, s) => .went ((s.setActivity p process a).setCurrent (some (p, .answer answer)))
    | .ok (none, s) => .went ((s.setActivity p process a).setCurrent none)

def proceed (s : Network n m) : Progress (Network n m) Fault :=
  match s.current with
  | none => .settled
  | some (p, wake) =>
    match s.processes.get? p with
    | none => .went (s.setCurrent none)
    | some process => s.stepProcess p process wake

def begin (s : Network n m) : NetworkEvent n m → Option Nat × Network n m
  | .resume p wake => (none, s.setCurrent (some (p, wake)))
  | .deliver line text => (none, s.deliver line text)
  | .deliverPeer source target message => (none, s.deliverPeer source target message)
  | .news i => (none, (s.atNode i Node.notifyNews).2)
  | .link l e => (none, s.fireLink l e)
  | .alarm k => (some k, s)

instance : World (Network n m) (NetworkEvent n m) Fault where
  agenda := Network.agenda
  setAgenda s a := { s with agenda := a }
  begin := Network.begin
  proceed := Network.proceed

/-- Runs the network up to and including a time; its nodes and hosts are started first. -/
def run (s : Network n m) (limit fuel : Nat) : Run (Network n m) Fault := World.run limit fuel 0 s.start

/-- The results of every host, by name. -/
def results (s : Network n m) : RunResults := .ofList (s.hosts.toList.map fun h => (h.name, h.results))

end QuantumNode.Network
