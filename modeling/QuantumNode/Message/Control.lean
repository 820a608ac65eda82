import QuantumNode.Memory.Snapshot

/-! Control messages between a host and its node, in both directions. A message is a first line with its kind
and fields, followed by a body for the kinds that have one. -/
namespace QuantumNode

open QuantumNode.Text

/-- What a host asks of its node. -/
inductive HostMessage where
  | initNewApp (maxQubits : Nat)
  | openSocket (app socket remote : Int)
  | subroutine (text : String)
  | stopApp (app : Int)
  deriving DecidableEq, Repr

/-- What a node answers to its host. -/
inductive NodeMessage where
  | appId (id : Int)
  | memory (s : MemorySnapshot)
  | abort (reason : String)
  deriving DecidableEq, Repr

inductive MessageError where
  | malformed (kind : String)
  | unknownHostMessage (kind : String)
  | unknownNodeMessage (kind : String)
  | snapshot (e : SnapshotError)
  deriving DecidableEq, Repr

def MessageError.message : MessageError → String
  | malformed kind => s!"Malformed {kind} message"
  | unknownHostMessage kind => s!"Unknown host message '{kind}'"
  | unknownNodeMessage kind => s!"Unknown qnos message '{kind}'"
  | snapshot e => e.message

/-- Nothing but blanks follows the last field. -/
def atEnd (rest : List Char) : Bool := rest.all isBlank

/-- The first line and what follows it. -/
def splitFirstLine (cs : List Char) : List Char × List Char := (cutAt '\n' cs).getD (cs, [])

def appIdField? (cs : List Char) : Option Int := do
  let (id, rest) ← leadingInt32? cs
  if atEnd rest then some id else none

namespace HostMessage

def encode : HostMessage → String
  | initNewApp n => s!"INIT_NEW_APP {n}\n"
  | openSocket app socket remote => s!"OPEN_EPR_SOCKET {app} {socket} {remote}\n"
  | subroutine text => "SUBROUTINE\n" ++ text
  | stopApp app => s!"STOP_APP {app}\n"

def initNewApp? (cs : List Char) : Option HostMessage := do
  let (n, rest) ← leadingNat64? cs
  if atEnd rest then some (initNewApp n) else none

def openSocket? (cs : List Char) : Option HostMessage := do
  let (app, rest) ← leadingInt32? cs
  let (socket, rest) ← leadingInt32? rest
  let (remote, rest) ← leadingInt32? rest
  if atEnd rest then some (openSocket app socket remote) else none

def decode (text : String) : Except MessageError HostMessage :=
  let (head, body) := splitFirstLine text.toList
  let (kind, fields) := nextWord head
  let kind := String.ofList kind
  let checked := fun (m : Option HostMessage) => m.elim (.error (.malformed kind)) .ok
  if kind = "INIT_NEW_APP" then checked (initNewApp? fields)
  else if kind = "OPEN_EPR_SOCKET" then checked (openSocket? fields)
  else if kind = "SUBROUTINE" then .ok (subroutine (String.ofList body))
  else if kind = "STOP_APP" then checked ((appIdField? fields).map stopApp)
  else .error (.unknownHostMessage kind)

end HostMessage

namespace NodeMessage

def encode : NodeMessage → String
  | appId id => s!"APP_ID {id}\n"
  | memory s => s!"APP_MEMORY {s.appId}\n" ++ s.text
  | abort reason => s!"ABORT {reason}\n"

def decode (text : String) : Except MessageError NodeMessage :=
  let (head, body) := splitFirstLine text.toList
  let (kind, fields) := nextWord head
  let kind := String.ofList kind
  if kind = "APP_ID" then
    match appIdField? fields with
    | some id => .ok (appId id)
    | none => .error (.malformed kind)
  else if kind = "APP_MEMORY" then
    match appIdField? fields with
    | some id => (MemorySnapshot.parse id body).map memory |>.mapError .snapshot
    | none => .error (.malformed kind)
  else if kind = "ABORT" then .ok (abort (String.ofList (fields.dropWhile isBlank)))
  else .error (.unknownNodeMessage kind)

end NodeMessage

end QuantumNode
