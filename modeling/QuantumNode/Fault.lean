import QuantumNode.Device.Operation
import QuantumNode.Subroutine.Parser
import QuantumNode.Subroutine.Printer
import QuantumNode.Text.Json

/-! Everything that can go wrong while a node or a program runs, by cause. A fault has a kind, which says who
may recover from it, and a message. -/
namespace QuantumNode

inductive FaultKind where
  | general
  | allocationExhausted
  | unsupportedInstruction
  | unsupportedOperation
  | memory
  | arithmetic
  | protocol
  | subroutineAborted
  deriving DecidableEq, Repr

def FaultKind.name : FaultKind → String
  | general => "Error"
  | allocationExhausted => "AllocationExhausted"
  | unsupportedInstruction => "UnsupportedInstruction"
  | unsupportedOperation => "UnsupportedOperation"
  | memory => "MemoryError"
  | arithmetic => "ArithmeticError"
  | protocol => "ProtocolError"
  | subroutineAborted => "SubroutineAborted"

inductive Fault where
  -- application memories
  | registerOutOfRange (r : Register)
  | registerUnset (r : Register)
  | arrayUndeclared (address : Int)
  | indexOutOfRange (address index : Int)
  | sliceOutOfRange (address start stop : Int)
  | virtualOutOfRange (virt : Int) (count : Nat)
  | virtualMapped (virt : Int) (phys : Nat)
  | physicalUsed (phys : Nat) (virt : Int)
  | physicalUsedByApp (phys : Nat) (virt app : Int)
  | applicationExists (app : Int) (node : String)
  | applicationMissing (app : Int) (node : String)
  | arrayNotReturned (address : Int)
  | futureUnset (address index : Int)
  -- qubit pools
  | communicationOutsidePool (id : Nat)
  | poolExhausted
  | communicationExhausted
  | freedUnallocated (id : Nat)
  -- device operations
  | positionCount (o : Operation)
  | operandPosition (o : Operation) (position : Nat)
  | samePosition (o : Operation)
  | unavailableGeneric (o : Operation)
  | unavailableNV (o : Operation) (position : Nat)
  | positionOutOfRange (position : Nat)
  | notAGate (o : Operation)
  -- instructions
  | unsupported (op : Opcode) (node : String)
  | unknownBreakpoint (action : Int)
  | qubitUnallocated (virt : Int)
  | negativeLength (length address : Int)
  | branchOutOfRange (target : Int)
  | modulusTooSmall (modulus : Int)
  | overflow (i : Instruction)
  | electronBusy
  -- entanglement requests
  | noChannelFrom (node : Int)
  | noChannelTo (node : Int)
  | argumentsIncomplete (address : Int)
  | statePreparation
  | unknownRequestType (t : Int)
  | unknownBasis (b : Int)
  | noPairSocket (socket node : Int)
  | acknowledgementExpected (node : Int)
  | descriptorExpected (node : Int)
  | socketMismatch (got expected : Int)
  | qubitIdMissing (address pair : Int)
  -- links
  | notAnEnd (node : Int) (left right : String)
  | requestPending (node : Int)
  | linkElsewhere (node : Int)
  | noLink (node : String) (remote : Int)
  -- host requests to a node
  | socketForUnknownApp (app : Int)
  | subroutineForUnknownApp (app : Int)
  | undecodableSubroutine (e : SubroutineError)
  | undecodableMessage (reason : String)
  -- programs
  | badRegistrationReply (reason : String)
  | idExpected
  | noClassicalChannel (host peer : String)
  | pairSocketToUnknownNode (peer : String)
  | badSubroutineReply (reason : String)
  | unexpectedReply
  | aborted (reason : String)
  | noClassicalSocket (peer : String)
  | noPairSocketTo (peer : String)
  | virtualExhausted (count : Nat)
  | cannotHold (pairs count : Nat)
  | unknownScriptNode (program word : String)
  | scriptSubroutine (index : Nat) (program reason : String)
  -- messages between programs
  | envelopeExpected (text : String)
  | envelopeMalformed
  | envelopeLength
  | envelopeTruncated
  | integerExpected (text : String)
  | realExpected (text : String)
  -- simulations
  | nodeRegisteredTwice (name : String)
  | unknownNodeId (id : Int)
  | lateReservation
  | stateNotBuilt
  | tooManyQubits (count : Nat)
  | selfLink (name : String)
  | unknownNode (name : String)
  | runsIncomplete (host : String) (done expected : Nat)
  | raised (message : String)
  deriving DecidableEq, Repr

namespace Fault

def kind : Fault → FaultKind
  | registerOutOfRange _ | registerUnset _ | arrayUndeclared _ | indexOutOfRange .. | sliceOutOfRange ..
  | virtualOutOfRange .. | virtualMapped .. | physicalUsed .. | physicalUsedByApp .. | applicationMissing ..
  | arrayNotReturned _ | futureUnset .. | communicationOutsidePool _ | freedUnallocated _
  | qubitUnallocated _ | negativeLength .. | electronBusy | argumentsIncomplete _ | qubitIdMissing .. => .memory
  | poolExhausted | communicationExhausted | virtualExhausted _ | cannotHold .. => .allocationExhausted
  | positionCount _ | operandPosition .. | samePosition _ | unavailableGeneric _ | unavailableNV ..
  | positionOutOfRange _ | notAGate _ | statePreparation => .unsupportedOperation
  | unsupported .. | unknownBreakpoint _ => .unsupportedInstruction
  | modulusTooSmall _ | overflow _ => .arithmetic
  | noChannelFrom _ | noChannelTo _ | unknownRequestType _ | unknownBasis _ | noPairSocket ..
  | acknowledgementExpected _ | descriptorExpected _ | socketMismatch .. | requestPending _
  | socketForUnknownApp _ | subroutineForUnknownApp _ | undecodableSubroutine _ | undecodableMessage _
  | badRegistrationReply _ | idExpected | badSubroutineReply _ | unexpectedReply | scriptSubroutine ..
  | envelopeExpected _ | envelopeMalformed | envelopeLength | envelopeTruncated | integerExpected _
  | realExpected _ => .protocol
  | aborted _ => .subroutineAborted
  | applicationExists .. | branchOutOfRange _ | notAnEnd .. | linkElsewhere _ | noLink ..
  | noClassicalChannel .. | pairSocketToUnknownNode _ | noClassicalSocket _ | noPairSocketTo _
  | unknownScriptNode .. | nodeRegisteredTwice _ | unknownNodeId _ | lateReservation | stateNotBuilt
  | tooManyQubits _ | selfLink _ | unknownNode _ | runsIncomplete .. | raised _ => .general

/-- Most qubits that one simulation may hold. -/
def qubitLimit : Nat := 24

/-- What is wrong, in full. -/
def text : Fault → String
  | registerOutOfRange r => s!"register {r.text} out of range"
  | registerUnset r => s!"register {r.text} is used but has no value"
  | arrayUndeclared a => s!"array @{a} is not declared"
  | indexOutOfRange a i => s!"index {i} out of range for @{a}"
  | sliceOutOfRange a i j => s!"slice [{i}:{j}] out of range for @{a}"
  | virtualOutOfRange v n => s!"virtual qubit {v} out of range (max {n})"
  | virtualMapped v p => s!"virtual qubit {v} already maps to physical qubit {p}"
  | physicalUsed p v => s!"physical qubit {p} already used by virtual qubit {v}"
  | physicalUsedByApp p v a => s!"physical qubit {p} already used by virtual qubit {v} of app {a}"
  | applicationExists a node => s!"application {a} already exists on {node}"
  | applicationMissing a node => s!"no application {a} on {node}"
  | arrayNotReturned a => s!"array @{a} is not in the returned memory"
  | futureUnset a i => s!"@{a}[{i}] has no value"
  | communicationOutsidePool id => s!"communication qubit {id} outside the pool"
  | poolExhausted => "No more qubits available"
  | communicationExhausted => "No more comm qubits available"
  | freedUnallocated id => s!"physical qubit {id} freed but not allocated"
  | positionCount o => s!"{o.name} expects {o.arity} positions"
  | operandPosition o p => s!"{o.name}: position {p} out of range"
  | samePosition o => s!"{o.name} on a single position"
  | unavailableGeneric o => s!"{o.name} not available on a generic device"
  | unavailableNV o p => s!"{o.name} not available on NV position {p}"
  | positionOutOfRange p => s!"position {p} out of range"
  | notAGate o => s!"{o.name} is not a gate"
  | unsupported op node => s!"unsupported instruction '{op.name}' on node {node}"
  | unknownBreakpoint a => s!"unknown breakpoint action {a}"
  | qubitUnallocated v => s!"virtual qubit {v} is not allocated"
  | negativeLength n a => s!"negative length {n} for @{a}"
  | branchOutOfRange t => s!"branch target {t} out of range"
  | modulusTooSmall m => s!"modulus needs to be greater or equal to 1, not {m}"
  | overflow i => s!"result of '{i.text}' does not fit in 64 bits"
  | electronBusy => "electron is in use by the network stack"
  | noChannelFrom n => s!"no peer channel from node {n}"
  | noChannelTo n => s!"no peer channel to node {n}"
  | argumentsIncomplete a => s!"request arguments @{a} lack type or pair count"
  | statePreparation => "remote state preparation is not supported"
  | unknownRequestType t => s!"unsupported create type {t}"
  | unknownBasis b => s!"unknown measurement basis {b}"
  | noPairSocket s n => s!"no EPR socket {s} to node {n}"
  | acknowledgementExpected n => s!"expected an acknowledgement from node {n}"
  | descriptorExpected n => s!"expected a request descriptor from node {n}"
  | socketMismatch got expected => s!"peer request on socket {got}, expected {expected}"
  | qubitIdMissing a i => s!"no virtual qubit id at @{a}[{i}]"
  | notAnEnd n left right => s!"node {n} is not an end of link {left}-{right}"
  | requestPending n => s!"link request already pending for node {n}"
  | linkElsewhere n => s!"link does not end at node {n}"
  | noLink node remote => s!"no link between {node} and node {remote}"
  | socketForUnknownApp a => s!"EPR socket for unknown app {a}"
  | subroutineForUnknownApp a => s!"subroutine for unknown app {a}"
  | undecodableSubroutine e => s!"cannot decode subroutine: {e.message}"
  | undecodableMessage reason => reason
  | badRegistrationReply reason => s!"bad reply to app registration: {reason}"
  | idExpected => "expected an application id from qnos"
  | noClassicalChannel host peer => s!"no classical channel from {host} to '{peer}'"
  | pairSocketToUnknownNode peer => s!"EPR socket to unknown node '{peer}'"
  | badSubroutineReply reason => s!"bad reply to subroutine: {reason}"
  | unexpectedReply => "unexpected reply to subroutine"
  | aborted reason => reason
  | noClassicalSocket peer => s!"program has no classical socket to '{peer}'"
  | noPairSocketTo peer => s!"program has no EPR socket to '{peer}'"
  | virtualExhausted n => s!"all {n} virtual qubits are in use"
  | cannotHold k n => s!"cannot hold {k} entangled qubits with {n} virtual qubits"
  | unknownScriptNode p w => s!"program '{p}' refers to unknown node '{w}'"
  | scriptSubroutine i p reason => s!"subroutine {i} of '{p}': {reason}"
  | envelopeExpected t => s!"expected a structured message, got '{t}'"
  | envelopeMalformed => "malformed structured message"
  | envelopeLength => "malformed structured message header length"
  | envelopeTruncated => "structured message header is truncated"
  | integerExpected t => s!"expected an integer, got '{t}'"
  | realExpected t => s!"expected a float, got '{t}'"
  | nodeRegisteredTwice name => s!"node '{name}' registered twice"
  | unknownNodeId id => s!"unknown node id {id}"
  | lateReservation => "qubits must be reserved before the quantum state is built"
  | stateNotBuilt => "quantum state has not been built"
  | tooManyQubits n => s!"quantum state limited to {qubitLimit} qubits, requested {n}"
  | selfLink name => s!"link from {name} to itself"
  | unknownNode name => s!"unknown node '{name}'"
  | runsIncomplete host done expected => s!"{host} completed {done} of {expected} runs"
  | raised m => m

/-- What is reported of a fault: its text up to the first NUL. -/
def message (f : Fault) : String := Text.untilNul f.text

/-- Kind and message as a JSON object. -/
def report (f : Fault) : String :=
  "\x7b\"error\":\"" ++ f.kind.name ++ "\",\"message\":" ++ String.ofList (Text.jsonText f.message) ++ "\x7d"

end Fault

end QuantumNode
