import QuantumNode.Main
import QuantumNode.Simulation.Workbench
import QuantumNode.Proofs.Ownership.Balance
import QuantumNode.Proofs.Ownership.Release
import QuantumNode.Proofs.Handshake.Pairs
import QuantumNode.Proofs.Handshake.Verdict
import QuantumNode.Proofs.Entanglement.Abort
import QuantumNode.Proofs.Network.Starvation
import QuantumNode.Proofs.Network.Awaiting
import QuantumNode.Proofs.Network.Blame
import QuantumNode.Proofs.Network.Accounts
import QuantumNode.Proofs.Subroutine.RoundTrip
import QuantumNode.Proofs.Execution.Safety
import QuantumNode.Proofs.Solo.Bench
import QuantumNode.Proofs.Dialogue.Network
import QuantumNode.Proofs.Simulation.Playbook
import QuantumNode.Proofs.Simulation.Observed
import QuantumNode.Proofs.Isolation.Frame
import QuantumNode.Proofs.Isolation.Dispatch
import QuantumNode.Proofs.Isolation.Network
import QuantumNode.Proofs.Ownership.Fault
import QuantumNode.Proofs.Message.RoundTrip
import QuantumNode.Proofs.Program.Script
import QuantumNode.Proofs.Network.Wiring
import QuantumNode.Proofs.Program.Request
import QuantumNode.Proofs.Execution.Intact
import QuantumNode.Proofs.Network.Delivery
import QuantumNode.Proofs.Execution.Arithmetic
import QuantumNode.Proofs.Ownership.Clearing
import QuantumNode.Proofs.Program.Narrow
import QuantumNode.Proofs.Network.Timing
import QuantumNode.Proofs.Message.Canonical
import QuantumNode.Proofs.Message.Envelope
import QuantumNode.Proofs.Program.Results
import QuantumNode.Proofs.Quantum.Relocation
import QuantumNode.Proofs.Subroutine.Label
import QuantumNode.Proofs.Subroutine.Edit
import QuantumNode.Proofs.Config.Interleaving
import QuantumNode.Proofs.Network.Duration
import QuantumNode.Proofs.Memory.Bijection
import QuantumNode.Proofs.Message.Reason
import QuantumNode.Proofs.CommandLine.Precedence
