import QuantumNode.Network.Process

/-! What a client may do to a network between runs, besides the work of its nodes and hosts. -/
namespace QuantumNode.Network

variable {n m : Nat}

/-- Connects a node to a link that ends at it. -/
def connect (s : Network n m) (i : Fin n) (l : Fin m) : Except Fault (Network n m) :=
  let link := s.link l
  let node := s.node i
  match link.endAt? i with
  | none => .error (.linkElsewhere i)
  | some e =>
    let ports := { node.ports with links := node.ports.links.insert (link.nodeAt e.opposite) (l, e) }
    .ok (s.setNode i { node with ports := ports })

/-- Gives up on a link in the name of a node. -/
def abortAt (s : Network n m) (l : Fin m) (node : Int) : Except Fault (Network n m) := do
  return s.abortLink l (← (s.link l).endAt node)

def enqueue (s : Network n m) (i : Fin n) (p : Program) (times : Nat) : Network n m :=
  s.setHost i ((s.host i).enqueue p times)

/-- Takes the replies that have arrived at a host. -/
def takeReplies (s : Network n m) (i : Fin n) : List String × Network n m :=
  let c := s.channel (.toHost i)
  (c.items, s.setChannel (.toHost i) { c with items := [] })

/-- Takes the notices and the lines of the log since they were last taken. -/
def takeNotices (s : Network n m) : Array Notice × Network n m := (s.notices, { s with notices := #[] })

def takeLog (s : Network n m) : List String × Network n m := (s.log.lines, { s with log := s.log.clear })

end QuantumNode.Network
