import QuantumNode.Data.SortedMap
import QuantumNode.Entanglement.Basic
import QuantumNode.Simulation.Channel

/-! The state of a node's pair service: its sockets, the requests that wait for it, what peers have sent, and
flags of the applications it serves. -/
namespace QuantumNode

/-- A socket of an application to a remote node. -/
structure PairSocket where
  socket : Int
  remote : Int
  deriving DecidableEq, Repr

/-- The pair service of one of `n` nodes, for processes named by `π`. -/
structure PairService (n : Nat) (π : Type) where
  requests : Channel EntanglementRequest π
  /-- Messages from each peer. -/
  inbound : Vector (Channel PeerMessage π) n
  /-- Notified when a peer message has been delivered, and when an application has gone. -/
  news : Signal π
  sockets : SortedMap Int (List PairSocket)
  aborted : List Int
  failed : List Int
  /-- How many requests of an application are not yet settled. -/
  pending : SortedMap Int Nat
  /-- The application and the remote node of the call that a link works on. -/
  inFlight : Option (Int × Int)
  linkCalls : Nat
  allocationWaits : Nat
  handled : Nat

namespace PairService

variable {n : Nat} {π : Type}

def new (latencies : Vector Nat n) : PairService n π where
  requests := .new 0
  inbound := latencies.map .new
  news := .new
  sockets := .empty
  aborted := []
  failed := []
  pending := .empty
  inFlight := none
  linkCalls := 0
  allocationWaits := 0
  handled := 0

def openSocket (s : PairService n π) (app socket remote : Int) : PairService n π :=
  { s with sockets := s.sockets.insert app ((s.sockets.get? app).getD [] ++ [⟨socket, remote⟩]) }

def hasSocket (s : PairService n π) (app socket remote : Int) : Bool :=
  ((s.sockets.get? app).getD []).contains ⟨socket, remote⟩

def isAborted (s : PairService n π) (app : Int) : Bool := s.aborted.contains app

def markAborted (s : PairService n π) (app : Int) : PairService n π :=
  { s with aborted := s.aborted.insert app }

def markFailed (s : PairService n π) (app : Int) : PairService n π :=
  { s with failed := s.failed.insert app }

/-- Reads the failure flag of an application and clears it. -/
def takeFailure (s : PairService n π) (app : Int) : Bool × PairService n π :=
  (s.failed.contains app, { s with failed := s.failed.filter (· ≠ app) })

/-- Forgets the sockets and flags of an application. -/
def forget (s : PairService n π) (app : Int) : PairService n π :=
  { s with
    sockets := s.sockets.erase app
    aborted := s.aborted.filter (· ≠ app)
    failed := s.failed.filter (· ≠ app) }

def pendingRequests (s : PairService n π) (app : Int) : Nat := (s.pending.get? app).getD 0

def addPending (s : PairService n π) (app : Int) : PairService n π :=
  { s with pending := s.pending.insert app (s.pendingRequests app + 1) }

/-- One request fewer; an application without requests is not counted. -/
def settle (s : PairService n π) (app : Int) : PairService n π :=
  match s.pendingRequests app - 1 with
  | 0 => { s with handled := s.handled + 1, pending := s.pending.erase app }
  | k => { s with handled := s.handled + 1, pending := s.pending.insert app k }

end PairService

end QuantumNode
