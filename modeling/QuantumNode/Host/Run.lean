import QuantumNode.Host.Session

/-! The host at work: it runs its programs one after the other, each run as a fresh application of its node. -/
namespace QuantumNode

inductive HostStage where
  /-- The next program is to be taken. -/
  | next
  /-- Runs of a program that are left. -/
  | starting (p : Program) (left : Nat)
  /-- The node has been asked for an application; `left` runs follow this one. -/
  | registering (p : Program) (left : Nat)
  | running (p : Program) (left : Nat) (s : Session)

namespace HostRun

variable {n m : Nat}

/-- What a step of a host comes to; it ends when no program is left. -/
abbrev Step (m : Nat) := Flow m HostStage Unit

/-- The id in the node's answer to a registration. -/
def registeredId (text : String) : Except Fault Int :=
  match NodeMessage.decode text with
  | .error e => .error (.badRegistrationReply e.message)
  | .ok (.appId app) => .ok app
  | .ok _ => .error .idExpected

def requireChannels (info : ProgramMeta) : HostWork n m Unit := do
  let h ← Work.part
  match info.classicalPeers.find? fun peer => (h.peer? peer).isNone with
  | some peer => Work.fail (.noClassicalChannel h.name peer)
  | none => return

/-- Opens a socket to each peer; of two with one peer the later counts. -/
def openSockets (app : Int) (info : ProgramMeta) : HostWork n m (SortedMap String (Int × Int)) := do
  let h ← Work.part
  info.pairPeers.zipIdx.foldlM (fun sockets (peer, i) => do
    match h.node? peer with
    | none => Work.fail (.pairSocketToUnknownNode peer)
    | some node =>
      Host.tellNode (.openSocket app i node)
      return sockets.insert peer ((i : Int), (node.val : Int))) .empty

/-- The node has registered an application for a run. -/
def beginSession (p : Program) (left : Nat) (text : String) : HostWork n m (Step m) := do
  let app ← Work.ofExcept (registeredId text)
  Host.log .info s!"running program '{p.info.name}' as app {app}"
  requireChannels p.info
  let sockets ← openSockets app p.info
  return .go (.running p left (.new app p sockets))

/-- Whether or not it ends well, a session stops its application. -/
def stepSession (process : ProcessId) (p : Program) (left : Nat) (s : Session) (wake : Wake) :
    HostWork n m (Step m) := do
  match ← Work.attempt (s.step process wake) with
  | .error f =>
    Host.tellNode (.stopApp s.app)
    Work.fail f
  | .ok (.finished result) =>
    Host.tellNode (.stopApp s.app)
    Host.log .info s!"program '{p.info.name}' finished after {s.flushes} subroutine(s)"
    Work.modifyPart fun h => { h with results := h.results ++ [result] }
    return .go (.starting p left)
  | .ok (.go s) => return .go (.running p left s)
  | .ok (.rest s) => return .rest (.running p left s)
  | .ok (.call s l e c) => return .call (.running p left s) l e c

/-- A step of a host. -/
def step (process : ProcessId) (stage : HostStage) (wake : Wake) : HostWork n m (Step m) := do
  match stage, wake with
  | .next, _ =>
    match (← Work.part).queue with
    | [] => return .finished ()
    | (p, times) :: queue =>
      Work.modifyPart fun h => { h with queue := queue }
      return .go (.starting p times)
  | .starting _ 0, _ => return .go .next
  | .starting p (left + 1), _ =>
    Host.tellNode (.initNewApp p.info.maxQubits)
    return .go (.registering p left)
  | .registering p left, .text t => beginSession p left t
  | .registering p left, _ =>
    match ← Host.takeReply process with
    | some t => beginSession p left t
    | none => return .rest (.registering p left)
  | .running p left s, _ => stepSession process p left s wake

end HostRun

end QuantumNode
