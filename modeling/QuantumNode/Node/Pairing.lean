import QuantumNode.Node.Basic

/-! The pair service at work: it serves the entanglement requests of a node one at a time. The creating side
sends a descriptor, the receiving side acknowledges it, and both then ask their link for one pair after another. -/
namespace QuantumNode

/-- A request on which both sides have agreed. -/
structure PairTask where
  request : EntanglementRequest
  /-- What is asked of the link for each pair. -/
  wanted : PairRequest
  count : Int
  deriving DecidableEq, Repr

inductive PairStage where
  | idle
  /-- A create waits for its peer; without a task it was cancelled. -/
  | awaitingReply (r : EntanglementRequest) (task : Option PairTask)
  | awaitingDescriptor (r : EntanglementRequest)
  /-- The next pair of a task. -/
  | next (t : PairTask) (k : Nat)
  /-- No communication qubit was free. -/
  | starving (t : PairTask) (k : Nat)
  /-- The link works on pair `k`, whose half is to be at `position`. -/
  | linking (t : PairTask) (k position : Nat)
  /-- The device is busy with a call that brings a pair back to the first Bell state. -/
  | correcting (t : PairTask) (k position : Nat) (pair : Pair) (c : DeviceCall) (calls : List DeviceCall)
  | settling (r : EntanglementRequest)

namespace Pairing

open Node

variable {n m : Nat}

/-- What a step of the service comes to; it never ends. -/
abbrev Step (m : Nat) := Flow m PairStage Empty

private def log (level : LogLevel) (text : String) : NodeWork n m Unit := Node.log level "Netstack" text

def service : NodeWork n m (PairService n ProcessId) := do return (← Work.part).service

/-! Sockets and flags. -/

def openSocket (app socket remote : Int) : NodeWork n m Unit := do
  log .debug s!"opening EPR socket ({socket}, {remote}) for app {app}"
  modifyService (·.openSocket app socket remote)

/-- Forgets a stopped application. A receive of it that still waits for its peer is given up. -/
def removeApp (app : Int) : NodeWork n m Unit := do
  modifyService (·.forget app)
  notifyNews

/-- Stops making results for an application. -/
def abort (app : Int) : NodeWork n m Unit := do
  log .info s!"aborting entanglement requests of app {app}"
  modifyService (·.markAborted app)
  match (← service).inFlight with
  | some (owner, remote) => if owner = app then abortLink remote
  | none => pure ()
  notifyMemoryFreed
  notifyArrayWritten

/-! Talking to peers. -/

/-- Another node of the network. -/
def peer? (here : Fin n) (id : Int) : Option (Fin n) :=
  if h : 0 ≤ id ∧ id.toNat < n then
    if (⟨id.toNat, h.2⟩ : Fin n) = here then none else some ⟨id.toNat, h.2⟩
  else none

def tell (remote : Int) (message : PeerMessage) : NodeWork n m Unit := do
  let here := (← Work.part).id
  match peer? here remote with
  | some target => Work.emit (.tell here target message)
  | none => Work.fail (.noChannelTo remote)

/-- The oldest message from a peer, if one has been delivered. -/
def nextMessage (remote : Int) : NodeWork n m (Option PeerMessage) := do
  let node ← Work.part
  match peer? node.id remote with
  | none => Work.fail (.noChannelFrom remote)
  | some source =>
    let (message, c) := (node.service.inbound.get source).tryReceive
    modifyService fun s => { s with inbound := s.inbound.set source c source.isLt }
    return message

def waitForNews (p : ProcessId) : NodeWork n m Unit := modifyService fun s => { s with news := s.news.wait p }

def requireSocket (r : EntanglementRequest) : NodeWork n m Unit := do
  if (← service).hasSocket r.app r.socket r.remote then return
  else
    log .error s!"app {r.app} has no EPR socket {r.socket} to node {r.remote}"
    Work.fail (.noPairSocket r.socket r.remote)

/-! Arguments of creates. -/

/-- An argument; those past the end of the array are absent. -/
def argument (mem : AppMemory) (address : Int) (i : Nat) : Except Fault (Option Int) := do
  if (← mem.arrayLength address) ≤ i then return none else mem.arrayValue address i

def basisOf (v : Int) : Except Fault Basis :=
  if 0 ≤ v ∧ v ≤ 2 then .ok (.ofCode v) else .error (.unknownBasis v)

def kindOf (v : Int) : NodeWork n m PairKind :=
  match v with
  | 0 => return .keep
  | 1 => return .measure
  | 2 => do
    log .error "remote state preparation requested"
    Work.fail .statePreparation
  | _ => do
    log .error s!"unknown request type {v}"
    Work.fail (.unknownRequestType v)

/-- Reads the array of arguments: type, number of pairs, least fidelity, the two bases and the longest time. -/
def readArguments (r : EntanglementRequest) : NodeWork n m PairTask := do
  let mem ← memory r.app
  let arg := fun (i : Nat) => (Work.ofExcept (argument mem r.argumentArray i) : NodeWork n m (Option Int))
  match ← arg 0, ← arg 1 with
  | some kind, some count =>
    let kind ← kindOf kind
    let minFidelity := Word.signed32 ((← arg 2).getD 0)
    let localBasis ← Work.ofExcept (basisOf ((← arg 3).getD 0))
    let remoteBasis ← Work.ofExcept (basisOf ((← arg 4).getD 0))
    let maxTime := Word.unsigned64 ((← arg 9).getD 0)
    return ⟨r, ⟨kind, minFidelity, localBasis, remoteBasis, maxTime⟩, count⟩
  | _, _ => Work.fail (.argumentsIncomplete r.argumentArray)

/-! The handshake. -/

/-- A create of an aborted application is cancelled, but its peer still has to be told. -/
def beginCreate (r : EntanglementRequest) : NodeWork n m (Step m) := do
  requireSocket r
  if (← service).isAborted r.app then
    tell r.remote (.cancel r.socket)
    return .go (.awaitingReply r none)
  else
    let task ← readArguments r
    tell r.remote (.descriptor r.socket task.count task.wanted)
    return .go (.awaitingReply r (some task))

def markAborted (app : Int) : NodeWork n m Unit := do
  modifyService (·.markAborted app)
  notifyArrayWritten

/-- The peer has answered a create. -/
def takeReply (r : EntanglementRequest) (task : Option PairTask) (reply : PeerMessage) :
    NodeWork n m (Step m) := do
  match reply, task with
  | .descriptor .., _ => Work.fail (.acknowledgementExpected r.remote)
  | _, none =>
    log .info s!"peer answered the cancelled request of aborted app {r.app}"
    return .go (.settling r)
  | .cancel _, some _ =>
    log .info s!"node {r.remote} refused the request, its application was aborted"
    if (← service).hasSocket r.app r.socket r.remote then modifyService (·.markAborted r.app)
    notifyArrayWritten
    return .go (.settling r)
  | .acknowledge _, some t =>
    log .info s!"peer acknowledged request for {t.count} pair(s), splitting into single-pair requests"
    return .go (.next t 0)

def awaitReply (p : ProcessId) (r : EntanglementRequest) (task : Option PairTask) : NodeWork n m (Step m) := do
  match ← nextMessage r.remote with
  | some reply => takeReply r task reply
  | none =>
    waitForNews p
    return .rest (.awaitingReply r task)

def requireSameSocket (r : EntanglementRequest) (socket : Int) : NodeWork n m Unit :=
  if socket = r.socket then pure () else Work.fail (.socketMismatch socket r.socket)

/-- The peer has described, or cancelled, the create that belongs to a receive. -/
def takeDescriptor (r : EntanglementRequest) (message : PeerMessage) : NodeWork n m (Step m) := do
  match message with
  | .acknowledge _ => Work.fail (.descriptorExpected r.remote)
  | .cancel socket =>
    requireSameSocket r socket
    tell r.remote (.acknowledge r.socket)
    log .info s!"node {r.remote} cancelled its request, aborting app {r.app}"
    markAborted r.app
    return .go (.settling r)
  | .descriptor socket count wanted =>
    requireSameSocket r socket
    if (← service).isAborted r.app then
      tell r.remote (.cancel r.socket)
      log .info s!"refusing request for aborted app {r.app}"
      return .go (.settling r)
    else
      tell r.remote (.acknowledge r.socket)
      log .info s!"received request for {count} pair(s) from node {r.remote}"
      return .go (.next ⟨r, wanted, count⟩ 0)

/-- A receive gives up once its socket is gone. -/
def awaitDescriptor (p : ProcessId) (r : EntanglementRequest) : NodeWork n m (Step m) := do
  match ← nextMessage r.remote with
  | some message => takeDescriptor r message
  | none =>
    if (← service).hasSocket r.app r.socket r.remote then
      waitForNews p
      return .rest (.awaitingDescriptor r)
    else
      log .info s!"app {r.app} stopped while waiting for a request from node {r.remote}"
      return .go (.settling r)

/-! One pair after another. -/

/-- Takes a communication qubit for a pair and asks the link, or waits for a qubit to be freed. -/
def tryPair (p : ProcessId) (t : PairTask) (k : Nat) : NodeWork n m (Step m) := do
  if (← service).isAborted t.request.app then
    log .info s!"app {t.request.app} aborted before pair {k}"
    return .go (.settling t.request)
  else
    match ← Work.attempt allocateCommunication with
    | .error _ =>
      modifyService fun s => { s with allocationWaits := s.allocationWaits + 1 }
      log .info "no communication qubit available, waiting for a free"
      Work.modifyPart fun node => { node with memoryFreed := node.memoryFreed.wait p }
      return .rest (.starving t k)
    | .ok position =>
      modifyService fun s =>
        { s with linkCalls := s.linkCalls + 1, inFlight := some (t.request.app, t.request.remote) }
      log .info s!"submitting {t.request.role.name} for pair {k} on position {position}"
      let (l, e, c) ← linkCall t.request.role t.request.remote t.wanted position
      return .call (.linking t k position) l e c

def beginPair (p : ProcessId) (t : PairTask) (k : Nat) : NodeWork n m (Step m) := do
  if (k : Int) < t.count then
    log .info s!"trying to allocate a communication qubit for pair {k}"
    tryPair p t k
  else return .go (.settling t.request)

/-- A link that refuses ends the request. -/
def takeRefusal (t : PairTask) (k position : Nat) (cause : LinkRefusal) : NodeWork n m (Step m) := do
  freeQubit position
  if cause = .aborted then
    log .info s!"pair {k} aborted, ending request with {k} result(s)"
    modifyService (·.markAborted t.request.app)
  else
    log .error s!"pair {k} failed: {cause.name}"
    modifyService (·.markFailed t.request.app)
  notifyArrayWritten
  return .go (.settling t.request)

/-- The entries of a pair's row of results; `virt` is the virtual id of a kept half. -/
def resultRow (r : EntanglementRequest) (pair : Pair) (virt : Option Int) : List Int :=
  let (third, fourth) : Int × Int :=
    match pair.kind, pair.reading with
    | .keep, _ => (virt.getD (-1), if r.role = .create then 0 else 1)
    | _, some reading => (reading.outcome, reading.basis.code)
    | _, none => (-1, 0)
  [pair.kind.code, pair.createId, third, fourth, pair.sequence, r.socket, r.remote, pair.goodness,
    Word.signed64 pair.duration, pair.bellIndex]

/-- Writes the entries of row `k` in order, up to the first that does not fit. -/
def writeRow (r : EntanglementRequest) (k : Nat) (row : List Int) : NodeWork n m Unit :=
  row.zipIdx.forM fun (v, i) => updateMemory r.app (·.setArrayValue r.resultArray (rowLength * k + i) (some v))

def finishPair (t : PairTask) (k : Nat) (pair : Pair) (virt : Option Int) : NodeWork n m (Step m) := do
  let r := t.request
  let _ ← memory r.app
  writeRow r k (resultRow r pair virt)
  log .debug s!"wrote to @{r.resultArray}[{rowLength * k}:{rowLength * (k + 1)}] for app {r.app}"
  notifyArrayWritten
  return .go (.next t (k + 1))

/-- The half of a pair becomes the virtual qubit that the application has named for it, if it still runs. -/
def keepHalf (t : PairTask) (k position : Nat) (pair : Pair) : NodeWork n m (Step m) := do
  let r := t.request
  if (← Work.part).hasApp r.app then
    match ← Work.ofExcept ((← memory r.app).arrayValue r.qubitArray k) with
    | none => Work.fail (.qubitIdMissing r.qubitArray k)
    | some virt =>
      mapQubit r.app virt position
      log .info s!"mapping virtual qubit {virt} to physical qubit {position}"
      finishPair t k pair (some virt)
  else
    freeQubit position
    return .go (.settling r)

def dropHalf (t : PairTask) (k position : Nat) (pair : Pair) : NodeWork n m (Step m) := do
  freeQubit position
  if (← Work.part).hasApp t.request.app then finishPair t k pair none
  else return .go (.settling t.request)

/-- The rotations that turn a Bell state into the first one. -/
def corrections (bellIndex position : Nat) : List DeviceCall :=
  (if bellIndex.testBit 0 then [⟨.rotX, [position], pi⟩] else [])
    ++ (if bellIndex.testBit 1 then [⟨.rotZ, [position], pi⟩] else [])

/-- Goes through the calls of a correction, then keeps the half. -/
def correct (p : ProcessId) (t : PairTask) (k position : Nat) (pair : Pair) (calls : List DeviceCall) :
    NodeWork n m (Step m) := do
  match calls with
  | [] => keepHalf t k position pair
  | c :: calls =>
    startGate p c
    return .rest (.correcting t k position pair c calls)

/-- The creating side corrects the Bell state of a pair that is kept. -/
def takePair (p : ProcessId) (t : PairTask) (k position : Nat) (pair : Pair) : NodeWork n m (Step m) := do
  log .info s!"got pair {k}: Bell index {pair.bellIndex} after {pair.duration} ns"
  match t.wanted.kind, t.request.role with
  | .keep, .create => correct p t k position pair (corrections pair.bellIndex position)
  | .keep, .receive => keepHalf t k position pair
  | _, _ => dropHalf t k position pair

def takeAnswer (p : ProcessId) (t : PairTask) (k position : Nat) (answer : LinkAnswer) :
    NodeWork n m (Step m) := do
  modifyService fun s => { s with inFlight := none }
  match answer with
  | .refused cause _ => takeRefusal t k position cause
  | .pair pair => takePair p t k position pair

/-! The loop. -/

def beginRequest (r : EntanglementRequest) : NodeWork n m (Step m) := do
  log .debug s!"received {r.role.name} request from app {r.app} for node {r.remote}"
  match r.role with
  | .create => beginCreate r
  | .receive =>
    requireSocket r
    return .go (.awaitingDescriptor r)

def settle (r : EntanglementRequest) : NodeWork n m (Step m) := do
  modifyService (·.settle r.app)
  notifyArrayWritten
  return .go .idle

/-- The oldest request, or a wait for one. -/
def awaitRequest (p : ProcessId) : NodeWork n m (Step m) := do
  let (r, c) := (← service).requests.receive p
  modifyService fun s => { s with requests := c }
  match r with
  | some r => beginRequest r
  | none => return .rest .idle

/-- A step of the service. -/
def step (p : ProcessId) (stage : PairStage) (wake : Wake) : NodeWork n m (Step m) :=
  match stage, wake with
  | .idle, .request r => beginRequest r
  | .idle, _ => awaitRequest p
  | .awaitingReply r task, _ => awaitReply p r task
  | .awaitingDescriptor r, _ => awaitDescriptor p r
  | .next t k, _ => beginPair p t k
  | .starving t k, _ => do
    log .info "a free happened, trying again to allocate a communication qubit"
    tryPair p t k
  | .linking t k position, .answer a => takeAnswer p t k position a
  | .linking t k position, _ => return .rest (.linking t k position)
  | .correcting t k position pair c calls, _ => do
    let _ ← finishCall c
    correct p t k position pair calls
  | .settling r, _ => settle r

end Pairing

end QuantumNode
