import QuantumNode.Proofs.Memory.Row
import QuantumNode.Proofs.Node.Dispatch

/-! What the pieces of a pair service leave alone. -/
namespace QuantumNode.Pairing

open Node Work Working

variable {n m : Nat}

section

variable {R : Working (Node n m) n m → Working (Node n m) n m → Prop} [Bland R]

theorem service_mild : Within R (service : NodeWork n m (PairService n ProcessId)) := .of_unchanged fun _ => rfl

theorem requireSocket_mild (r : EntanglementRequest) : Within R (requireSocket r : NodeWork n m Unit) :=
  service_mild.bind fun _ => .ite (.pure _) ((log_mild _ _ _).bind fun _ => .fail _)

theorem kindOf_mild (v : Int) : Within R (kindOf v : NodeWork n m PairKind) := by
  unfold kindOf
  split
  · exact .pure _
  · exact .pure _
  · exact (log_mild _ _ _).bind fun _ => .fail _
  · exact (log_mild _ _ _).bind fun _ => .fail _

theorem readArguments_mild (r : EntanglementRequest) : Within R (readArguments r : NodeWork n m PairTask) :=
  (memory_mild r.app).bind fun _ => Within.bind (.ofExcept _) fun a => Within.bind (.ofExcept _) fun b => by
    split
    · exact (kindOf_mild _).bind fun _ => Within.bind (.ofExcept _) fun _ => Within.bind (.ofExcept _) fun _ =>
        Within.bind (.ofExcept _) fun _ => Within.bind (.ofExcept _) fun _ => Within.bind (.ofExcept _) fun _ =>
        Within.bind (.ofExcept _) fun _ => .pure _
    · exact .fail _

theorem requireSameSocket_mild (r : EntanglementRequest) (socket : Int) :
    Within R (requireSameSocket r socket : NodeWork n m Unit) :=
  .ite (.pure _) (.fail _)

end

section

variable {R : Working (Node n m) n m → Working (Node n m) n m → Prop} [Placid R]

/-- Of the ten entries of a row each is set by itself. -/
theorem writeRow_noting (r : EntanglementRequest) (k : Nat) [Noting r k R] (pair : Pair) (virt : Option Int) :
    Within R (writeRow r k (resultRow r pair virt) : NodeWork n m Unit) := by
  have hentry : ∀ (v : Int) (i : Nat), i < rowLength →
      Within R (updateMemory r.app (·.setArrayValue r.resultArray (rowLength * k + i) (some v)) : NodeWork n m Unit) := by
    intro v i hi w
    rw [exec_updateMemory]
    split
    · exact Std.Refl.refl w
    · rename_i mem happ
      split
      · exact Std.Refl.refl w
      · rename_i mem' hmem
        exact Noting.note w mem mem' i v happ hi hmem
  have hrow : ∀ x ∈ (resultRow r pair virt).zipIdx, x.2 < rowLength := by
    intro x hx
    rw [← length_resultRow r pair virt]
    exact (List.mem_zipIdx' hx).1
  unfold writeRow
  generalize (resultRow r pair virt).zipIdx = l at hrow ⊢
  induction l with
  | nil => exact .pure _
  | cons x l ih =>
    exact (hentry x.1 x.2 (hrow x List.mem_cons_self)).bind fun _ => ih fun y hy => hrow y (List.mem_cons_of_mem _ hy)

theorem finishPair_noting [Rousing R] (t : PairTask) (k : Nat) [Noting t.request k R] (pair : Pair) (virt : Option Int) :
    Within R (finishPair t k pair virt : NodeWork n m (Step m)) :=
  (memory_mild _).bind fun _ => (writeRow_noting _ _ _ _).bind fun _ => (log_mild _ _ _).bind fun _ =>
    notifyArrayWritten_rousing.bind fun _ => .pure _

theorem settle_alike {π : Type} (s : PairService n π) (app : Int) : s.Alike (s.settle app) := by
  unfold PairService.settle
  split
  · exact ⟨rfl, rfl, rfl, rfl, rfl, fun _ h => h, fun _ h => h, fun _ _ _ h => h⟩
  · exact ⟨rfl, rfl, rfl, rfl, rfl, fun _ h => h, fun _ h => h, fun _ _ _ h => h⟩

end

theorem settle_rousing {R : Working (Node n m) n m → Working (Node n m) n m → Prop} [Docile R] [Rousing R]
    (r : EntanglementRequest) : Within R (settle r : NodeWork n m (Step m)) :=
  Within.bind (fun w => Docile.service w _ (settle_alike w.part.service r.app)) fun _ =>
    notifyArrayWritten_rousing.bind fun _ => .pure _

/-! Waits, and flags. -/

theorem waitForNews_still (p : ProcessId) : Within Still (waitForNews p : NodeWork n m Unit) :=
  modifyService_still (f := fun s => { s with news := s.news.wait p }) (fun _ => rfl) fun _ => rfl

theorem waitForFree_still (p : ProcessId) :
    Within Still (modifyPart fun node => { node with memoryFreed := node.memoryFreed.wait p } : NodeWork n m Unit) :=
  fun _ => ⟨⟨rfl, rfl, rfl, rfl, rfl⟩, .of_eq rfl rfl rfl⟩

theorem countWait_still :
    Within Still (modifyService fun s => { s with allocationWaits := s.allocationWaits + 1 } : NodeWork n m Unit) :=
  modifyService_still (f := fun s => { s with allocationWaits := s.allocationWaits + 1 }) (fun _ => rfl) fun _ => rfl

theorem setAborted_still (app : Int) : Within Still (modifyService (·.markAborted app) : NodeWork n m Unit) :=
  modifyService_still (f := (·.markAborted app)) (fun _ => rfl) fun _ => rfl

theorem markFailed_blaming {R : Working (Node n m) n m → Working (Node n m) n m → Prop} (app : Int) [Blaming app R] :
    Within R (modifyService (·.markFailed app) : NodeWork n m Unit) :=
  fun w => Blaming.blame w

theorem markAborted_still (app : Int) : Within Still (markAborted app : NodeWork n m Unit) :=
  (setAborted_still app).bind fun _ => notifyArrayWritten_rousing

theorem takeReply_still (r : EntanglementRequest) (task : Option PairTask) (reply : PeerMessage) :
    Within Still (takeReply r task reply : NodeWork n m (Step m)) := by
  unfold takeReply
  split
  · exact .fail _
  · exact (log_mild _ _ _).bind fun _ => .pure _
  · exact (log_mild _ _ _).bind fun _ => service_mild.bind fun _ => .ite
      ((setAborted_still _).bind fun _ => notifyArrayWritten_rousing.bind fun _ => .pure _)
      (notifyArrayWritten_rousing.bind fun _ => .pure _)
  · exact (log_mild _ _ _).bind fun _ => .pure _

/-! The exchange with peers and links. -/

section

variable {R : Working (Node n m) n m → Working (Node n m) n m → Prop} [Bland R] [Vocal R]

theorem tell_sociable (remote : Int) (message : PeerMessage) : Within R (tell remote message : NodeWork n m Unit) :=
  Within.part.bind fun node => by
    dsimp only
    split
    · exact fun w => Vocal.tell w node.id _ message
    · exact .fail _

theorem abortLink_sociable (remote : Int) : Within R (abortLink remote : NodeWork n m Unit) :=
  Within.part.bind fun _ => by
    split
    · exact fun w => Vocal.abort w _ _
    · exact .pure _

theorem beginCreate_sociable (r : EntanglementRequest) : Within R (beginCreate r : NodeWork n m (Step m)) :=
  (requireSocket_mild r).bind fun _ => service_mild.bind fun _ => .ite
    ((tell_sociable _ _).bind fun _ => .pure _)
    ((readArguments_mild r).bind fun _ => (tell_sociable _ _).bind fun _ => .pure _)

theorem beginRequest_sociable (r : EntanglementRequest) : Within R (beginRequest r : NodeWork n m (Step m)) :=
  (log_mild _ _ _).bind fun _ => by
    split
    · exact beginCreate_sociable r
    · exact (requireSocket_mild r).bind fun _ => .pure _

end

section

variable {R : Working (Node n m) n m → Working (Node n m) n m → Prop}

theorem setAborted_sociable (app : Int) [Marking app R] :
    Within R (modifyService (·.markAborted app) : NodeWork n m Unit) :=
  fun w => Marking.mark w

/-- Changes of what is in flight and of what has arrived. No flag is set, and no request is settled. -/
theorem modifyService_sociable [Cordial R] {f : PairService n ProcessId → PairService n ProcessId}
    (hr : ∀ s, (f s).requests = s.requests) (hn : ∀ s, (f s).news = s.news)
    (ha : ∀ s, (f s).allocationWaits = s.allocationWaits) (hf : ∀ s, (f s).failed = s.failed)
    (hb : ∀ s, (f s).aborted = s.aborted) (hs : ∀ s, (f s).sockets = s.sockets) (hp : ∀ s, (f s).pending = s.pending) :
    Within R (modifyService f : NodeWork n m Unit) :=
  fun w => Cordial.tend w (f w.part.service) (hr _) (hn _) (ha _) (hf _) (hb _) (hs _) (hp _)

variable [Placid R]

theorem nextMessage_sociable [Cordial R] (remote : Int) :
    Within R (nextMessage remote : NodeWork n m (Option PeerMessage)) :=
  Within.part.bind fun _ => by
    split
    · exact .fail _
    · exact Within.bind
        (modifyService_sociable (fun _ => rfl) (fun _ => rfl) (fun _ => rfl) (fun _ => rfl) (fun _ => rfl) (fun _ => rfl)
          fun _ => rfl)
        fun _ => .pure _

variable [Rousing R]

theorem takeReply_sociable (r : EntanglementRequest) [Marking r.app R] (task : Option PairTask) (reply : PeerMessage) :
    Within R (takeReply r task reply : NodeWork n m (Step m)) := by
  unfold takeReply
  split
  · exact .fail _
  · exact (log_mild _ _ _).bind fun _ => .pure _
  · exact (log_mild _ _ _).bind fun _ => service_mild.bind fun _ => .ite
      ((setAborted_sociable _).bind fun _ => notifyArrayWritten_rousing.bind fun _ => .pure _)
      (notifyArrayWritten_rousing.bind fun _ => .pure _)
  · exact (log_mild _ _ _).bind fun _ => .pure _

theorem takeDescriptor_sociable [Vocal R] (r : EntanglementRequest) [Marking r.app R] (message : PeerMessage) :
    Within R (takeDescriptor r message : NodeWork n m (Step m)) := by
  cases message with
  | acknowledge _ => exact .fail _
  | cancel _ =>
    exact (requireSameSocket_mild _ _).bind fun _ => (tell_sociable _ _).bind fun _ => (log_mild _ _ _).bind fun _ =>
      Within.bind ((setAborted_sociable _).bind fun _ => notifyArrayWritten_rousing) fun _ => .pure _
  | descriptor _ _ _ =>
    exact (requireSameSocket_mild _ _).bind fun _ => service_mild.bind fun _ => .ite
      ((tell_sociable _ _).bind fun _ => (log_mild _ _ _).bind fun _ => .pure _)
      ((tell_sociable _ _).bind fun _ => (log_mild _ _ _).bind fun _ => .pure _)

theorem abort_sociable [Vocal R] (app : Int) [Marking app R] : Within R (abort app : NodeWork n m Unit) := by
  have hrest : Within R (do notifyMemoryFreed; notifyArrayWritten : NodeWork n m Unit) :=
    notifyMemoryFreed_rousing.bind fun _ => notifyArrayWritten_rousing
  refine (log_mild _ _ _).bind fun _ => (setAborted_sociable app).bind fun _ => service_mild.bind fun _ => ?_
  split
  · exact .ite ((abortLink_sociable _).bind fun _ => hrest) hrest
  · exact hrest

end

/-! Waiting for a peer, or for a request. -/

section

variable {R : Working (Node n m) n m → Working (Node n m) n m → Prop} (p : ProcessId) [Listening p R]

theorem waitForNews_listening : Within R (waitForNews p : NodeWork n m Unit) := Listening.news

variable [Placid R] [Cordial R]

theorem awaitReply_listening [Rousing R] (r : EntanglementRequest) [Marking r.app R] (task : Option PairTask) :
    Within R (awaitReply p r task : NodeWork n m (Step m)) :=
  (nextMessage_sociable _).bind fun message => by
    cases message with
    | some _ => exact takeReply_sociable _ _ _
    | none => exact (waitForNews_listening p).bind fun _ => .pure _

theorem awaitDescriptor_listening [Rousing R] (r : EntanglementRequest) [Marking r.app R] :
    Within R (awaitDescriptor p r : NodeWork n m (Step m)) :=
  (nextMessage_sociable _).bind fun message => by
    cases message with
    | some _ => exact takeDescriptor_sociable _ _
    | none =>
      exact service_mild.bind fun _ => .ite ((waitForNews_listening p).bind fun _ => .pure _)
        ((log_mild _ _ _).bind fun _ => .pure _)

omit [Listening p R] in
theorem awaitRequest_standing [Standing p R] : Within R (awaitRequest p : NodeWork n m (Step m)) := fun w => by
  refine IsTrans.trans w _ _ (Standing.request (p := p) w) ?_
  simp only [awaitRequest, service, modifyService, exec_bind, exec_part, exec_modifyPart, exec_pure]
  cases (w.part.service.requests.receive p).1 with
  | none => exact Std.Refl.refl _
  | some r => exact beginRequest_sociable r _

end

instance (p : ProcessId) : Standing p (Still : Working (Node n m) n m → Working (Node n m) n m → Prop) where
  news := waitForNews_still p
  request _ := ⟨⟨rfl, rfl, rfl, rfl, rfl⟩, .of_eq rfl rfl rfl⟩

instance (p : ProcessId) : Standing p (Thrifty : Working (Node n m) n m → Working (Node n m) n m → Prop) where
  news w := (Listening.news (R := Still) w).toThrifty
  request w := (Standing.request (R := Still) w).toThrifty

end QuantumNode.Pairing
