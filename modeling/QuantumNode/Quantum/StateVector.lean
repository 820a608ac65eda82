import QuantumNode.Quantum.Gate

/-! The joint state of qubits as a vector of amplitudes, basis states being numbered with qubit 0 as the lowest
bit. Kernels update the vector in place, one pair of entries at a time, over any type of amplitudes. -/
namespace QuantumNode

namespace Kernel

variable {α : Type}

/-- Two entries become the gate applied to them. -/
@[specialize] def mix [Add α] [Mul α] (u : Gate α) (amps : Array α) (i j : Nat) : Array α :=
  match amps[i]?, amps[j]? with
  | some a0, some a1 =>
    (amps.setIfInBounds i (u.u00 * a0 + u.u01 * a1)).setIfInBounds j (u.u10 * a0 + u.u11 * a1)
  | _, _ => amps

/-- A gate on the target qubit. -/
@[specialize] def apply [Add α] [Mul α] (u : Gate α) (target : Nat) (amps : Array α) : Array α :=
  amps.size.fold
    (fun i _ amps => if i.testBit target then amps else mix u amps i (i ||| 1 <<< target)) amps

/-- A gate on the target qubit in the basis states whose control qubit is one. -/
@[specialize] def applyControlled [Add α] [Mul α] (u : Gate α) (control target : Nat) (amps : Array α) :
    Array α :=
  amps.size.fold
    (fun i _ amps =>
      if i.testBit control && !i.testBit target then mix u amps i (i ||| 1 <<< target) else amps) amps

/-- Flips the target qubit where the control qubit is one. -/
@[specialize] def flip (control target : Nat) (amps : Array α) : Array α :=
  amps.size.fold
    (fun i _ amps =>
      if i.testBit control && !i.testBit target then amps.swapIfInBounds i (i ||| 1 <<< target) else amps) amps

/-- Negates the basis states in which both qubits are one. -/
@[specialize] def negate [Neg α] (control target : Nat) (amps : Array α) : Array α :=
  amps.size.fold
    (fun i _ amps => if i.testBit control && i.testBit target then amps.modify i Neg.neg else amps) amps

/-- Clears the basis states in which the qubit is not as asked. -/
@[specialize] def project [Zero α] (target : Nat) (one : Bool) (amps : Array α) : Array α :=
  amps.size.fold
    (fun i _ amps => if i.testBit target == one then amps else amps.setIfInBounds i 0) amps

end Kernel

structure StateVector (R : Type) where
  qubits : Nat
  amps : Array (Amplitude R)
  /-- How many gates have been applied. -/
  applied : Nat

namespace StateVector

variable {R : Type} [RealScalar R]

/-- All qubits zero. -/
def zero (n : Nat) : StateVector R := ⟨n, (Array.replicate (1 <<< n) 0).setIfInBounds 0 1, 0⟩

/-- Squared length, with the rounding error of each addition carried into the next. -/
@[specialize] def normSquared (amps : Array (Amplitude R)) : R :=
  (amps.foldl (fun (acc : R × R) a =>
    let y := a.norm - acc.2
    let t := acc.1 + y
    (t, (t - acc.1) - y)) (0, 0)).1

@[specialize] def normalize (amps : Array (Amplitude R)) : Array (Amplitude R) :=
  let r := 1 / RealScalar.sqrt (normSquared amps)
  amps.map (·.scale r)

/-- After every 256 gates the vector is brought back to length one. -/
@[specialize] def afterGate (v : StateVector R) (amps : Array (Amplitude R)) : StateVector R :=
  let applied := v.applied + 1
  ⟨v.qubits, if applied % 256 = 0 then normalize amps else amps, applied⟩

@[specialize] def apply (v : StateVector R) (u : Gate (Amplitude R)) (target : Nat) : StateVector R :=
  v.afterGate (Kernel.apply u target v.amps)

@[specialize] def applyControlled (v : StateVector R) (u : Gate (Amplitude R)) (control target : Nat) :
    StateVector R :=
  if control = target then v else v.afterGate (Kernel.applyControlled u control target v.amps)

@[specialize] def cnot (v : StateVector R) (control target : Nat) : StateVector R :=
  if control = target then v else { v with amps := Kernel.flip control target v.amps }

@[specialize] def cz (v : StateVector R) (control target : Nat) : StateVector R :=
  if control = target then v else { v with amps := Kernel.negate control target v.amps }

/-- A rotation of the target whose direction the control decides: by `angle` where the control is zero and by
its negative where it is one. -/
@[specialize] def directed (v : StateVector R) (rotation : R → Gate (Amplitude R)) (control target : Nat)
    (angle : R) : StateVector R :=
  (v.apply (rotation angle) target).applyControlled (rotation (-(1 + 1) * angle)) control target

/-- The probability that a measurement of the qubit gives one. -/
@[specialize] def probabilityOne (v : StateVector R) (q : Nat) : R :=
  v.amps.size.fold (fun i _ p => if i.testBit q then p + v.amps[i].norm else p) 0

/-- The probability of a basis state, if it exists. -/
@[specialize] def probabilityOfBasis (v : StateVector R) (i : Nat) : Option R := v.amps[i]?.map Amplitude.norm

/-- The state after the qubit was found to be as given. -/
@[specialize] def collapse (v : StateVector R) (q : Nat) (one : Bool) : StateVector R :=
  { v with amps := normalize (Kernel.project q one v.amps) }

end StateVector

end QuantumNode
