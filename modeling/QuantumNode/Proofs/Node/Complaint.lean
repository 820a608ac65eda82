import QuantumNode.Proofs.Node.Deed

/-! Which steps of a pair service complain about the message that a peer has sent. -/
namespace QuantumNode

open Work Working

variable {n m : Nat}

/-- Whether a message of a peer was of another kind than the one expected. -/
def Fault.isComplaint : Fault → Bool
  | .acknowledgementExpected _ | .descriptorExpected _ => true
  | _ => false

namespace Work

variable {σ α : Type}

/-- Work that may fail, but not with a complaint about a peer. -/
def Polite (x : Work σ n m α) : Prop := Raises (·.isComplaint = false) x

end Work

/-- A device refuses a call for its own reasons. -/
theorem Device.refusal_isComplaint {d : Device} {c : DeviceCall} {f : Fault} (h : d.refusal c = some f) :
    f.isComplaint = false := by
  unfold refusal at h
  dsimp only at h
  repeat' split at h
  all_goals
    cases h
    try rfl

namespace Node

theorem log_polite (level : LogLevel) (kind text : String) : Polite (log level kind text : NodeWork n m Unit) :=
  .bind .part fun _ => .emit _

theorem wakeAll_polite (ps : List ProcessId) : Polite (wakeAll ps : NodeWork n m Unit) := .forM (fun _ => .emit _) ps

theorem modifyService_polite (f : PairService n ProcessId → PairService n ProcessId) :
    Polite (modifyService f : NodeWork n m Unit) := .modifyPart _

theorem notifyMemoryFreed_polite : Polite (notifyMemoryFreed : NodeWork n m Unit) :=
  .bind .part fun _ => .bind (.setPart _) fun _ => wakeAll_polite _

theorem notifyArrayWritten_polite : Polite (notifyArrayWritten : NodeWork n m Unit) :=
  .bind .part fun _ => .bind (.setPart _) fun _ => wakeAll_polite _

theorem memory_polite (app : Int) : Polite (memory app : NodeWork n m AppMemory) := .bind .part fun node => by
  split
  · exact .pure _
  · exact .fail rfl

theorem updateMemory_polite (app : Int) {f : AppMemory → Except Fault AppMemory}
    (hf : ∀ mem e, f mem = .error e → e.isComplaint = false) : Polite (updateMemory app f : NodeWork n m Unit) :=
  .bind (memory_polite app) fun mem => .bind (.ofExcept (hf mem)) fun _ => .modifyPart _

theorem freeQubit_polite (phys : Nat) : Polite (freeQubit phys : NodeWork n m Unit) := by
  refine .bind (.bind .part fun node => .bind (.ofExcept fun f hf => ?_) fun _ => .modifyPart _) fun _ =>
    .bind (log_polite _ _ _) fun _ => notifyMemoryFreed_polite
  unfold QubitPool.free at hf
  split at hf
  · exact nomatch hf
  · cases hf
    rfl

theorem startGate_polite (p : ProcessId) (c : DeviceCall) : Polite (startGate p c : NodeWork n m Unit) := by
  refine .bind .part fun node => .bind (.ofExcept fun f hf => ?_) fun _ => .emit _
  unfold Device.gateDuration Device.duration at hf
  split at hf
  · cases hf
    rfl
  · split at hf
    · rename_i hr
      cases hf
      exact Device.refusal_isComplaint hr
    · split at hf
      · exact nomatch hf
      · exact nomatch hf

theorem finishCall_polite (c : DeviceCall) : Polite (finishCall c : NodeWork n m (Option Nat)) :=
  .bind .part fun _ => .bind (.withQuantum _) fun _ => .bind (.setPart _) fun _ => .bind (log_polite _ _ _) fun _ =>
    .pure _

theorem linkCall_polite (role : PairRole) (remote : Int) (request : PairRequest) (position : Nat) :
    Polite (linkCall role remote request position : NodeWork n m (Fin m × LinkEnd × LinkCall)) := by
  have hindex : ∀ (node : Node n m), Polite (Work.ofExcept (node.device.globalIndex position) : NodeWork n m Nat) := by
    refine fun node => .ofExcept fun f hf => ?_
    unfold Device.globalIndex at hf
    split at hf
    · exact nomatch hf
    · cases hf
      rfl
  refine .bind .part fun node => ?_
  split
  · exact .fail rfl
  · split
    · refine .bind (.setPart _) fun _ => ?_
      split
      · exact .bind (.emit _) fun _ => .bind (hindex node) fun _ => .pure _
      · exact .bind (hindex node) fun _ => .pure _
    · exact .bind (.setPart _) fun _ => .bind (hindex node) fun _ => .pure _

theorem mapQubit_polite (app virt : Int) (phys : Nat) : Polite (mapQubit app virt phys : NodeWork n m Unit) := by
  have hmap : ∀ (mem : AppMemory) e, mem.mapQubit virt phys = .error e → e.isComplaint = false := by
    intro mem e he
    unfold AppMemory.mapQubit AppMemory.virtualIndex at he
    split at he
    · simp only [bind, Except.bind] at he
      repeat' split at he
      all_goals
        cases he
        try rfl
    · cases he
      rfl
  refine .bind .part fun node => ?_
  split
  · split
    · exact .bind (log_polite _ _ _) fun _ => .fail rfl
    · exact updateMemory_polite app hmap
  · exact updateMemory_polite app hmap

end Node

namespace AppMemory

theorem array_isComplaint {mem : AppMemory} {address : Int} {e : Fault} (h : mem.array address = .error e) :
    e.isComplaint = false := by
  unfold array at h
  split at h
  · exact nomatch h
  · cases h
    rfl

theorem arrayLength_isComplaint {mem : AppMemory} {address : Int} {e : Fault} (h : mem.arrayLength address = .error e) :
    e.isComplaint = false := by
  unfold arrayLength at h
  rcases ha : mem.array address with f | vs
  · rw [ha] at h
    cases h
    exact array_isComplaint ha
  · rw [ha] at h
    exact nomatch h

theorem arrayValue_isComplaint {mem : AppMemory} {address i : Int} {e : Fault}
    (h : mem.arrayValue address i = .error e) : e.isComplaint = false := by
  unfold arrayValue at h
  rcases ha : mem.array address with f | vs
  · rw [ha] at h
    cases h
    exact array_isComplaint ha
  · rw [ha] at h
    change (if 0 ≤ i then _ else _) = Except.error e at h
    repeat' split at h
    all_goals
      cases h
      try rfl

theorem setArrayValue_isComplaint {mem : AppMemory} {address i : Int} {v : Option Int} {e : Fault}
    (h : mem.setArrayValue address i v = .error e) : e.isComplaint = false := by
  unfold setArrayValue at h
  rcases ha : mem.array address with f | vs
  · rw [ha] at h
    cases h
    exact array_isComplaint ha
  · rw [ha] at h
    change (if 0 ≤ i ∧ i < vs.size then _ else _) = Except.error e at h
    split at h
    · exact nomatch h
    · cases h
      rfl

end AppMemory

namespace Pairing

open Node

private theorem log_polite (level : LogLevel) (text : String) : Polite (Node.log level "Netstack" text : NodeWork n m Unit) :=
  Node.log_polite _ _ _

theorem service_polite : Polite (service : NodeWork n m (PairService n ProcessId)) := .bind .part fun _ => .pure _

theorem requireSocket_polite (r : EntanglementRequest) : Polite (requireSocket r : NodeWork n m Unit) := by
  refine .bind service_polite fun s => ?_
  split
  · exact .pure _
  · exact .bind (log_polite _ _) fun _ => .fail rfl

theorem tell_polite (remote : Int) (message : PeerMessage) : Polite (tell remote message : NodeWork n m Unit) := by
  refine .bind .part fun node => ?_
  dsimp only
  split
  · exact .emit _
  · exact .fail rfl

theorem readArguments_polite (r : EntanglementRequest) : Polite (readArguments r : NodeWork n m PairTask) := by
  have harg : ∀ (mem : AppMemory) (i : Nat),
      Polite (Work.ofExcept (argument mem r.argumentArray i) : NodeWork n m (Option Int)) := by
    refine fun mem i => .ofExcept fun e he => ?_
    unfold argument at he
    rcases hl : mem.arrayLength r.argumentArray with f | l
    · rw [hl] at he
      cases he
      exact AppMemory.arrayLength_isComplaint hl
    · rw [hl] at he
      change (if l ≤ i then _ else _) = Except.error e at he
      split at he
      · exact nomatch he
      · exact AppMemory.arrayValue_isComplaint he
  have hbasis : ∀ v : Int, Polite (Work.ofExcept (basisOf v) : NodeWork n m Basis) := by
    refine fun v => .ofExcept fun e he => ?_
    unfold basisOf at he
    split at he
    · exact nomatch he
    · cases he
      rfl
  have hkind : ∀ v : Int, Polite (kindOf v : NodeWork n m PairKind) := by
    intro v
    unfold kindOf
    split
    · exact .pure _
    · exact .pure _
    · exact .bind (log_polite _ _) fun _ => .fail rfl
    · exact .bind (log_polite _ _) fun _ => .fail rfl
  refine .bind (memory_polite _) fun mem => .bind (harg mem 0) fun a => .bind (harg mem 1) fun b => ?_
  split
  · exact .bind (hkind _) fun _ => .bind (harg mem 2) fun _ => .bind (harg mem 3) fun _ => .bind (hbasis _) fun _ =>
      .bind (harg mem 4) fun _ => .bind (hbasis _) fun _ => .bind (harg mem 9) fun _ => .pure _
  · exact .fail rfl

theorem beginRequest_polite (r : EntanglementRequest) : Polite (beginRequest r : NodeWork n m (Step m)) := by
  refine .bind (log_polite _ _) fun _ => ?_
  split
  · refine .bind (requireSocket_polite r) fun _ => .bind service_polite fun s => ?_
    split
    · exact .bind (tell_polite _ _) fun _ => .pure _
    · exact .bind (readArguments_polite r) fun _ => .bind (tell_polite _ _) fun _ => .pure _
  · exact .bind (requireSocket_polite r) fun _ => .pure _

theorem tryPair_polite (p : ProcessId) (t : PairTask) (k : Nat) : Polite (tryPair p t k : NodeWork n m (Step m)) := by
  refine .bind service_polite fun s => ?_
  split
  · exact .bind (log_polite _ _) fun _ => .pure _
  · refine .bind (.attempt _) fun r => ?_
    split
    · exact .bind (modifyService_polite _) fun _ => .bind (log_polite _ _) fun _ => .bind (.modifyPart _) fun _ => .pure _
    · exact .bind (modifyService_polite _) fun _ => .bind (log_polite _ _) fun _ =>
        .bind (linkCall_polite _ _ _ _) fun _ => .pure _

theorem finishPair_polite (t : PairTask) (k : Nat) (pair : Pair) (virt : Option Int) :
    Polite (finishPair t k pair virt : NodeWork n m (Step m)) :=
  .bind (memory_polite _) fun _ => .bind (.forM (fun _ => updateMemory_polite _ fun _ _ he =>
    AppMemory.setArrayValue_isComplaint he) _) fun _ => .bind (log_polite _ _) fun _ =>
    .bind notifyArrayWritten_polite fun _ => .pure _

theorem keepHalf_polite (t : PairTask) (k position : Nat) (pair : Pair) :
    Polite (keepHalf t k position pair : NodeWork n m (Step m)) := by
  refine .bind .part fun node => ?_
  split
  · refine .bind (memory_polite _) fun mem => .bind (.ofExcept fun _ he => AppMemory.arrayValue_isComplaint he) fun v => ?_
    split
    · exact .fail rfl
    · exact .bind (mapQubit_polite _ _ _) fun _ => .bind (log_polite _ _) fun _ => finishPair_polite _ _ _ _
  · exact .bind (freeQubit_polite _) fun _ => .pure _

theorem correct_polite (p : ProcessId) (t : PairTask) (k position : Nat) (pair : Pair) (calls : List DeviceCall) :
    Polite (correct p t k position pair calls : NodeWork n m (Step m)) := by
  unfold correct
  split
  · exact keepHalf_polite _ _ _ _
  · exact .bind (startGate_polite _ _) fun _ => .pure _

theorem takeAnswer_polite (p : ProcessId) (t : PairTask) (k position : Nat) (answer : LinkAnswer) :
    Polite (takeAnswer p t k position answer : NodeWork n m (Step m)) := by
  refine .bind (modifyService_polite _) fun _ => ?_
  split
  · refine .bind (freeQubit_polite _) fun _ => ?_
    split
    · exact .bind (log_polite _ _) fun _ => .bind (modifyService_polite _) fun _ =>
        .bind notifyArrayWritten_polite fun _ => .pure _
    · exact .bind (log_polite _ _) fun _ => .bind (modifyService_polite _) fun _ =>
        .bind notifyArrayWritten_polite fun _ => .pure _
  · refine .bind (log_polite _ _) fun _ => ?_
    split
    · exact correct_polite _ _ _ _ _ _
    · exact keepHalf_polite _ _ _ _
    · refine .bind (freeQubit_polite _) fun _ => .bind .part fun node => ?_
      split
      · exact finishPair_polite _ _ _ _
      · exact .pure _

/-- A message that a pair service does not expect where it waits, and the complaint about it. -/
inductive Unexpected (r : EntanglementRequest) : PairStage → PeerMessage → Fault → Prop where
  | reply (task : Option PairTask) (socket count : Int) (wanted : PairRequest) :
      Unexpected r (.awaitingReply r task) (.descriptor socket count wanted) (.acknowledgementExpected r.remote)
  | descriptor (socket : Int) :
      Unexpected r (.awaitingDescriptor r) (.acknowledge socket) (.descriptorExpected r.remote)

/-- A complaint names the peer. -/
theorem Unexpected.remote {r : EntanglementRequest} {stage : PairStage} {message : PeerMessage} {f : Fault} {x : Int}
    (h : Unexpected r stage message f) (hf : f = .acknowledgementExpected x ∨ f = .descriptorExpected x) :
    r.remote = x := by
  cases h with
  | reply task socket count wanted =>
    rcases hf with hf | hf
    · exact Fault.acknowledgementExpected.inj hf
    · exact nomatch hf
  | descriptor socket =>
    rcases hf with hf | hf
    · exact nomatch hf
    · exact Fault.descriptorExpected.inj hf

theorem takeReply_unexpected {r : EntanglementRequest} {task : Option PairTask} {reply : PeerMessage} {f : Fault}
    {w w' : Working (Node n m) n m} (h : (takeReply r task reply : NodeWork n m (Step m)).exec w = (.error f, w'))
    (hf : f.isComplaint = true) : Unexpected r (.awaitingReply r task) reply f := by
  have hpolite : ∀ {x : NodeWork n m (Step m)}, Polite x → x.exec w ≠ (.error f, w') := fun hx he =>
    Bool.false_ne_true ((hx w f w' he).symm.trans hf)
  unfold takeReply at h
  split at h
  · cases h
    exact .reply ..
  · exact absurd h (hpolite (.bind (log_polite _ _) fun _ => .pure _))
  · refine absurd h (hpolite (.bind (log_polite _ _) fun _ => .bind service_polite fun s => ?_))
    split
    · exact .bind (modifyService_polite _) fun _ => .bind notifyArrayWritten_polite fun _ => .pure _
    · exact .bind notifyArrayWritten_polite fun _ => .pure _
  · exact absurd h (hpolite (.bind (log_polite _ _) fun _ => .pure _))

theorem takeDescriptor_unexpected {r : EntanglementRequest} {message : PeerMessage} {f : Fault}
    {w w' : Working (Node n m) n m} (h : (takeDescriptor r message : NodeWork n m (Step m)).exec w = (.error f, w'))
    (hf : f.isComplaint = true) : Unexpected r (.awaitingDescriptor r) message f := by
  have hpolite : ∀ {x : NodeWork n m (Step m)}, Polite x → x.exec w ≠ (.error f, w') := fun hx he =>
    Bool.false_ne_true ((hx w f w' he).symm.trans hf)
  have hsocket : ∀ socket, Polite (requireSameSocket r socket : NodeWork n m Unit) := by
    intro socket
    unfold requireSameSocket
    split
    · exact .pure _
    · exact .fail rfl
  unfold takeDescriptor at h
  split at h
  · cases h
    exact .descriptor ..
  · exact absurd h (hpolite (.bind (hsocket _) fun _ => .bind (tell_polite _ _) fun _ => .bind (log_polite _ _) fun _ =>
      .bind (.bind (modifyService_polite _) fun _ => notifyArrayWritten_polite) fun _ => .pure _))
  · refine absurd h (hpolite (.bind (hsocket _) fun _ => .bind service_polite fun s => ?_))
    split
    · exact .bind (tell_polite _ _) fun _ => .bind (log_polite _ _) fun _ => .pure _
    · exact .bind (tell_polite _ _) fun _ => .bind (log_polite _ _) fun _ => .pure _

theorem nextMessage_polite (remote : Int) : Polite (nextMessage remote : NodeWork n m (Option PeerMessage)) := by
  refine .bind .part fun node => ?_
  split
  · exact .fail rfl
  · exact .bind (modifyService_polite _) fun _ => .pure _

/-- Work that goes on from a message of a peer complains only about a message that it has taken. -/
theorem nextMessage_unexpected {r : EntanglementRequest} {stage : PairStage} {f : Fault} {w w' : Working (Node n m) n m}
    {rest : NodeWork n m (Step m)} {take : PeerMessage → NodeWork n m (Step m)} (hrest : Polite rest)
    (htake : ∀ message w₁, (take message).exec w₁ = (.error f, w') → Unexpected r stage message f)
    (h : (do match ← nextMessage r.remote with
      | some message => take message
      | none => rest : NodeWork n m (Step m)).exec w = (.error f, w')) (hf : f.isComplaint = true) :
    ∃ j message w₁, Exchanges (some (j, message)) none w w₁ ∧ peer? w.part.id r.remote = some j ∧
      Unexpected r stage message f := by
  rw [exec_bind] at h
  rcases hx : (nextMessage r.remote : NodeWork n m (Option PeerMessage)).exec w with ⟨e | message, w₁⟩
  · rw [hx] at h
    cases h
    exact absurd ((nextMessage_polite _ w f w' hx).symm.trans hf) Bool.false_ne_true
  · have hnext := nextMessage_ends r.remote message w₁ hx
    rw [hx] at h
    cases message with
    | none => exact absurd ((hrest w₁ f w' h).symm.trans hf) Bool.false_ne_true
    | some message =>
      obtain ⟨j, hj, hex⟩ := hnext
      exact ⟨j, message, w₁, hex, hj, htake message w₁ h⟩

/-- A step complains only about a message that it has taken and that was not expected. -/
theorem step_unexpected {p : ProcessId} {stage : PairStage} {wake : Wake} {f : Fault} {w w' : Working (Node n m) n m}
    (h : (step p stage wake).exec w = (.error f, w')) (hf : f.isComplaint = true) :
    ∃ r j message w₁, Exchanges (some (j, message)) none w w₁ ∧ peer? w.part.id r.remote = some j ∧
      Unexpected r stage message f := by
  have hpolite : ∀ {x : NodeWork n m (Step m)}, Polite x → x.exec w ≠ (.error f, w') := fun hx he =>
    Bool.false_ne_true ((hx w f w' he).symm.trans hf)
  unfold step at h
  split at h
  · exact absurd h (hpolite (beginRequest_polite _))
  · refine absurd h (hpolite (.bind service_polite fun s => .bind (modifyService_polite _) fun _ => ?_))
    split
    · exact beginRequest_polite _
    · exact .pure _
  · exact ⟨_, nextMessage_unexpected (.bind (modifyService_polite _) fun _ => .pure _)
      (fun message w₁ hx => takeReply_unexpected hx hf) h hf⟩
  · refine ⟨_, nextMessage_unexpected (.bind service_polite fun s => ?_)
      (fun message w₁ hx => takeDescriptor_unexpected hx hf) h hf⟩
    split
    · exact .bind (modifyService_polite _) fun _ => .pure _
    · exact .bind (log_polite _ _) fun _ => .pure _
  · refine absurd h (hpolite (.ite (.bind (log_polite _ _) fun _ => tryPair_polite _ _ _) (.pure _)))
  · exact absurd h (hpolite (.bind (log_polite _ _) fun _ => tryPair_polite _ _ _))
  · exact absurd h (hpolite (takeAnswer_polite _ _ _ _ _))
  · exact nomatch h
  · exact absurd h (hpolite (.bind (finishCall_polite _) fun _ => correct_polite _ _ _ _ _ _))
  · exact absurd h (hpolite (.bind (modifyService_polite _) fun _ => .bind notifyArrayWritten_polite fun _ => .pure _))

end Pairing

end QuantumNode
