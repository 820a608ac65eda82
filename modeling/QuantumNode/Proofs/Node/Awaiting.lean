import QuantumNode.Proofs.Node.Accounts
import QuantumNode.Proofs.Node.Starvation
import QuantumNode.Proofs.Node.Supply

/-! What a pair service does to a subroutine that waits for entries of an array. A step of it either changes nothing that
the subroutine looks at, or tells whoever waits for an array to be written. -/
namespace QuantumNode

open Node Work Working

variable {n m : Nat} {α β : Type}

theorem Execution.abandoned_iff {s : PairService n ProcessId} {app : Int} :
    abandoned s app = true ↔ s.isAborted app = true ∧ s.pendingRequests app = 0 := by
  rw [abandoned, Bool.and_eq_true, decide_eq_true_eq]

/-- Pair services with the same flags, and with as many requests. -/
structure PairService.SameFlags {π : Type} (x y : PairService n π) : Prop where
  failed : y.failed = x.failed
  aborted : y.aborted = x.aborted
  pending : y.pending = x.pending

namespace Node

/-- The entries of a range of an application's arrays, if there are such. -/
def entries? (node : Node n m) (app : Int) (a : AwaitedRange) : Option ArrayValues :=
  (node.apps.get? app).bind fun mem => (mem.arrayValues a.address a.start a.stop).toOption

/-- Nothing that a waiting subroutine of an application looks at has changed to its good, and nobody has been told that
an array has been written. The arrays of an application that may go may be gone. -/
structure Overlooks (gone : Prop) (app : Int) (x y : Node n m) : Prop where
  written : y.arrayWritten = x.arrayWritten
  entries : ∀ a, y.entries? app a = x.entries? app a ∨ gone ∧ y.entries? app a = none
  failed : app ∈ y.service.failed → app ∈ x.service.failed
  abandoned : Execution.abandoned y.service app = true → Execution.abandoned x.service app = true

variable {gone : Prop} {app : Int} {x y z : Node n m}

theorem entries?_congr (h : (y.apps.get? app).map (·.arrays) = (x.apps.get? app).map (·.arrays)) (a : AwaitedRange) :
    y.entries? app a = x.entries? app a := by
  unfold entries?
  rcases hx : x.apps.get? app with _ | mem
  · rw [hx] at h
    rw [Option.map_eq_none_iff.1 h]
  · rw [hx] at h
    obtain ⟨mem', hy, harrays⟩ := Option.map_eq_some_iff.1 h
    rw [hy]
    simp only [Option.bind_some, AppMemory.arrayValues, AppMemory.array, harrays]

theorem Overlooks.refl (x : Node n m) : x.Overlooks gone app x := ⟨rfl, fun _ => .inl rfl, fun h => h, fun h => h⟩

theorem Overlooks.trans (h : x.Overlooks gone app y) (h' : y.Overlooks gone app z) : x.Overlooks gone app z where
  written := h'.written.trans h.written
  entries a := by
    rcases h'.entries a with he | he
    · rw [he]
      exact h.entries a
    · exact .inr he
  failed hz := h.failed (h'.failed hz)
  abandoned hz := h.abandoned (h'.abandoned hz)

theorem Overlooks.mono {gone' : Prop} (h : x.Overlooks gone app y) (hg : gone → gone') : x.Overlooks gone' app y :=
  ⟨h.written, fun a => (h.entries a).imp_right (And.imp_left hg), h.failed, h.abandoned⟩

/-- The same arrays and flags. -/
theorem Overlooks.of_same (hw : y.arrayWritten = x.arrayWritten) (ha : y.apps = x.apps)
    (hs : x.service.SameFlags y.service) : x.Overlooks gone app y := by
  refine ⟨hw, fun a => .inl (entries?_congr (by rw [ha]) a), fun h => hs.failed ▸ h, fun h => ?_⟩
  rw [Execution.abandoned_iff, PairService.isAborted, PairService.pendingRequests] at h ⊢
  rwa [← hs.aborted, ← hs.pending]

end Node

namespace Working

/-- Nobody is told that an array has been written. -/
structure Discreet (w w' : Working (Node n m) n m) : Prop where
  later : ∀ q, w.resumed q ≤ w'.resumed q
  written : w'.part.arrayWritten = w.part.arrayWritten

/-- Nothing happens that a waiting subroutine of an application could see. -/
structure Unseen (gone : Prop) (app : Int) (w w' : Working (Node n m) n m) : Prop where
  later : ∀ q, w.resumed q ≤ w'.resumed q
  overlooks : w.part.Overlooks gone app w'.part

/-- Whoever waits for an array to be written goes on. -/
def Tells (w w' : Working (Node n m) n m) : Prop := ∀ q, w.resumed q + w.part.arrayWritten.waiters.count q ≤ w'.resumed q

variable {gone : Prop} {app : Int} {w w₁ w' : Working (Node n m) n m}

theorem Discreet.trans (h : Discreet w w₁) (h' : Discreet w₁ w') : Discreet w w' :=
  ⟨fun q => Nat.le_trans (h.later q) (h'.later q), h'.written.trans h.written⟩

theorem Unseen.trans (h : Unseen gone app w w₁) (h' : Unseen gone app w₁ w') : Unseen gone app w w' :=
  ⟨fun q => Nat.le_trans (h.later q) (h'.later q), h.overlooks.trans h'.overlooks⟩

theorem Unseen.discreet (h : Unseen gone app w w') : Discreet w w' := ⟨h.later, h.overlooks.written⟩

theorem Tells.before (h : Discreet w w₁) (h' : Tells w₁ w') : Tells w w' := fun q => by
  have := h.later q
  have := h' q
  rw [h.written] at this
  omega

instance : Std.Refl (Discreet : Working (Node n m) n m → Working (Node n m) n m → Prop) :=
  ⟨fun _ => ⟨fun _ => Nat.le_refl _, rfl⟩⟩

instance : IsTrans (Working (Node n m) n m) Discreet := ⟨fun _ _ _ h h' => h.trans h'⟩

instance : Std.Refl (Unseen gone app : Working (Node n m) n m → Working (Node n m) n m → Prop) :=
  ⟨fun _ => ⟨fun _ => Nat.le_refl _, .refl _⟩⟩

instance : IsTrans (Working (Node n m) n m) (Unseen gone app) := ⟨fun _ _ _ h h' => h.trans h'⟩

theorem le_resumed_push (w : Working (Node n m) n m) (e : Effect n m) (q : ProcessId) :
    w.resumed q ≤ ({ w with effects := w.effects.push e } : Working (Node n m) n m).resumed q := by
  rw [resumed_push]
  exact Nat.le_add_right _ _

theorem discreet_push (w : Working (Node n m) n m) (e : Effect n m) :
    Discreet w { w with effects := w.effects.push e } := ⟨w.le_resumed_push e, rfl⟩

theorem unseen_push (w : Working (Node n m) n m) (e : Effect n m) :
    Unseen gone app w { w with effects := w.effects.push e } := ⟨w.le_resumed_push e, .refl _⟩

end Working

namespace Work

/-- Work that, unless it meets a fault, tells whoever waits for an array to be written. -/
def Telling (x : NodeWork n m α) : Prop := ∀ w, Ends x w fun _ w' => Tells w w'

/-- Work of which, unless it meets a fault, a waiting subroutine of an application sees nothing or is told. -/
def Attentive (gone : Prop) (app : Int) (x : NodeWork n m α) : Prop :=
  ∀ w, Ends x w fun _ w' => Unseen gone app w w' ∨ Tells w w'

variable {gone : Prop} {app : Int}

theorem Telling.first {x : NodeWork n m α} (hx : Within Discreet x) {f : α → NodeWork n m β} (hf : ∀ a, Telling (f a)) :
    Telling (x >>= f) := fun _ => hx.next fun a w₁ h => (hf a w₁).mono fun _ _ h' => h'.before h

theorem Telling.ite {c : Prop} [Decidable c] {x y : NodeWork n m α} (hx : Telling x) (hy : Telling y) :
    Telling (if c then x else y) := by
  split
  · exact hx
  · exact hy

theorem notifyArrayWritten_telling : Telling (notifyArrayWritten : NodeWork n m Unit) := fun w _ w' he => by
  obtain ⟨w₁, h₁, -, hres⟩ := exec_notifyArrayWritten w
  rw [h₁] at he
  cases he
  exact fun q => Nat.le_of_eq (hres q).symm

theorem Telling.notify (a : α) : Telling (notifyArrayWritten >>= fun _ => pure a : NodeWork n m α) := fun w =>
  .bind ((notifyArrayWritten_telling w).mono fun _ _ h => .pure h)

theorem Telling.attentive {x : NodeWork n m α} (h : Telling x) : Attentive gone app x := fun w => (h w).mono fun _ _ => .inr

theorem Within.attentive {x : NodeWork n m α} (h : Within (Unseen gone app) x) : Attentive gone app x := fun _ _ _ he =>
  .inl (h.of_exec he)

theorem Attentive.first {x : NodeWork n m α} (hx : Within (Unseen gone app) x) {f : α → NodeWork n m β}
    (hf : ∀ a, Attentive gone app (f a)) : Attentive gone app (x >>= f) := fun _ =>
  hx.next fun a w₁ h => (hf a w₁).mono fun _ _ h' => h'.imp h.trans fun ht => ht.before h.discreet

theorem Attentive.ite {c : Prop} [Decidable c] {x y : NodeWork n m α} (hx : Attentive gone app x)
    (hy : Attentive gone app y) : Attentive gone app (if c then x else y) := by
  split
  · exact hx
  · exact hy

theorem Attentive.fail (f : Fault) : Attentive gone app (Work.fail f : NodeWork n m α) := fun _ => .fail f

end Work

namespace Node

instance : Mild (Discreet : Working (Node n m) n m → Working (Node n m) n m → Prop) where
  emit w e _ := w.discreet_push e
  part _ _ h := ⟨fun _ => Nat.le_refl _, h.arrayWritten⟩
  service _ _ _ := ⟨fun _ => Nat.le_refl _, rfl⟩
  memory _ _ _ _ _ _ := ⟨fun _ => Nat.le_refl _, rfl⟩
  quantum _ _ := ⟨fun _ => Nat.le_refl _, rfl⟩
  submit w r := ⟨(submit_stirs (x := none) w r).later, by rw [exec_submit]⟩

instance : Affable (Discreet : Working (Node n m) n m → Working (Node n m) n m → Prop) where
  tell w _ _ _ := w.discreet_push _
  abort w _ _ := w.discreet_push _
  hold _ _ _ _ _ _ _ _ := ⟨fun _ => Nat.le_refl _, rfl⟩

instance (app : Int) : Blaming app (Discreet : Working (Node n m) n m → Working (Node n m) n m → Prop) where
  blame _ := ⟨fun _ => Nat.le_refl _, rfl⟩

variable {gone : Prop} {app : Int}

instance : Bland (Unseen gone app : Working (Node n m) n m → Working (Node n m) n m → Prop) where
  emit w e _ := w.unseen_push e
  part _ _ h := ⟨fun _ => Nat.le_refl _, .of_same h.arrayWritten h.apps (by rw [h.service]; exact ⟨rfl, rfl, rfl⟩)⟩
  quantum _ _ := ⟨fun _ => Nat.le_refl _, .refl _⟩

instance : Steering (Unseen gone app : Working (Node n m) n m → Working (Node n m) n m → Prop) where
  dispatcher _ _ _ := ⟨fun _ => Nat.le_refl _, .of_same rfl rfl ⟨rfl, rfl, rfl⟩⟩
  reply w _ _ := w.unseen_push _

instance : Vocal (Unseen gone app : Working (Node n m) n m → Working (Node n m) n m → Prop) where
  tell w _ _ _ := w.unseen_push _
  abort w _ _ := w.unseen_push _

/-! Work of which a waiting subroutine sees nothing. -/

theorem modifyPart_unseen {f : Node n m → Node n m} (hf : ∀ x : Node n m, x.Overlooks gone app (f x)) :
    Within (Unseen gone app) (modifyPart f : NodeWork n m Unit) := fun w => ⟨fun _ => Nat.le_refl _, hf w.part⟩

/-- Changes of a pair service that leave its flags, and the number of its requests, alone. -/
theorem modifyService_unseen {f : PairService n ProcessId → PairService n ProcessId}
    (hf : ∀ s : PairService n ProcessId, s.SameFlags (f s)) :
    Within (Unseen gone app) (modifyService f : NodeWork n m Unit) :=
  modifyPart_unseen fun x => .of_same rfl rfl (hf x.service)

theorem setPool_unseen (pool : QubitPool) : Within (Unseen gone app) (setPool pool : NodeWork n m Unit) :=
  modifyPart_unseen fun _ => .of_same rfl rfl ⟨rfl, rfl, rfl⟩

theorem allocateCommunication_unseen : Within (Unseen gone app) (allocateCommunication : NodeWork n m Nat) :=
  Within.part.bind fun _ => Within.bind (.ofExcept _) fun _ => (setPool_unseen _).bind fun _ => .pure _

theorem notifyMemoryFreed_unseen : Within (Unseen gone app) (notifyMemoryFreed : NodeWork n m Unit) := fun w => by
  obtain ⟨w', he, hpart, hres⟩ := exec_notifyMemoryFreed w
  rw [he]
  exact ⟨fun q => by rw [hres]; exact Nat.le_add_right _ _, by rw [hpart]; exact .of_same rfl rfl ⟨rfl, rfl, rfl⟩⟩

theorem notifyNews_unseen : Within (Unseen gone app) (notifyNews : NodeWork n m Unit) := fun w => by
  obtain ⟨w', he, hpart, hres⟩ := exec_notifyNews w
  rw [he]
  exact ⟨fun q => by rw [hres]; exact Nat.le_add_right _ _, by rw [hpart]; exact .of_same rfl rfl ⟨rfl, rfl, rfl⟩⟩

theorem freeQubit_unseen (slot : Nat) : Within (Unseen gone app) (freeQubit slot : NodeWork n m Unit) :=
  Within.bind (Within.part.bind fun _ => Within.bind (.ofExcept _) fun _ => setPool_unseen _) fun _ =>
    (log_mild _ _ _).bind fun _ => notifyMemoryFreed_unseen

/-- Changes of a memory that leave its arrays alone. -/
theorem updateMemory_unseen (other : Int) {f : AppMemory → Except Fault AppMemory}
    (hf : ∀ mem mem', f mem = .ok mem' → mem'.arrays = mem.arrays) :
    Within (Unseen gone app) (updateMemory other f : NodeWork n m Unit) := fun w => by
  rw [exec_updateMemory]
  split
  · exact Std.Refl.refl w
  · rename_i mem hmem
    split
    · exact Std.Refl.refl w
    · rename_i mem' hf'
      refine ⟨fun _ => Nat.le_refl _, rfl, fun a => .inl (entries?_congr ?_ a), fun h => h, fun h => h⟩
      change ((w.part.apps.insert other mem').get? app).map _ = _
      by_cases happ : app = other
      · subst happ
        rw [SortedMap.get?_insert_self, hmem, Option.map_some, Option.map_some, hf mem mem' hf']
      · rw [SortedMap.get?_insert_of_ne _ happ]

theorem mapQubit_unseen (other virt : Int) (phys : Nat) :
    Within (Unseen gone app) (mapQubit other virt phys : NodeWork n m Unit) := by
  have hmap : ∀ mem mem' : AppMemory, mem.mapQubit virt phys = .ok mem' → mem'.arrays = mem.arrays := by
    intro mem mem' h
    obtain ⟨v, -, h⟩ := bind_ok h
    split at h
    · split at h
      · cases h
        rfl
      · exact nomatch h
    · split at h
      · exact nomatch h
      · cases h
        rfl
  refine Within.part.bind fun _ => ?_
  split
  · exact .ite ((log_mild _ _ _).bind fun _ => .fail _) (updateMemory_unseen _ hmap)
  · exact updateMemory_unseen _ hmap

end Node

namespace Pairing

variable {gone : Prop} {app : Int}

theorem nextMessage_unseen (remote : Int) :
    Within (Unseen gone app) (nextMessage remote : NodeWork n m (Option PeerMessage)) :=
  Within.part.bind fun _ => by
    split
    · exact .fail _
    · exact Within.bind (modifyService_unseen fun _ => ⟨rfl, rfl, rfl⟩) fun _ => .pure _

theorem waitForNews_unseen (p : ProcessId) : Within (Unseen gone app) (waitForNews p : NodeWork n m Unit) :=
  modifyService_unseen fun _ => ⟨rfl, rfl, rfl⟩

theorem awaitRequest_unseen (p : ProcessId) : Within (Unseen gone app) (awaitRequest p : NodeWork n m (Step m)) :=
  service_mild.bind fun _ => Within.bind (modifyService_unseen fun _ => ⟨rfl, rfl, rfl⟩) fun _ => by
    split
    · exact beginRequest_sociable _
    · exact .pure _

theorem tryPair_unseen (p : ProcessId) (t : PairTask) (k : Nat) :
    Within (Unseen gone app) (tryPair p t k : NodeWork n m (Step m)) :=
  service_mild.bind fun _ => .ite ((log_mild _ _ _).bind fun _ => .pure _)
    (Within.bind allocateCommunication_unseen.attempt fun r => by
      cases r with
      | error _ =>
        exact Within.bind (modifyService_unseen fun _ => ⟨rfl, rfl, rfl⟩) fun _ =>
          (log_mild _ _ _).bind fun _ =>
            Within.bind (modifyPart_unseen fun _ => .of_same rfl rfl ⟨rfl, rfl, rfl⟩) fun _ => .pure _
      | ok position =>
        exact Within.bind (modifyService_unseen fun _ => ⟨rfl, rfl, rfl⟩) fun _ =>
          (log_mild _ _ _).bind fun _ => (linkCall_mild _ _ _ _).bind fun _ => .pure _)

theorem beginPair_unseen (p : ProcessId) (t : PairTask) (k : Nat) :
    Within (Unseen gone app) (beginPair p t k : NodeWork n m (Step m)) :=
  .ite ((log_mild _ _ _).bind fun _ => tryPair_unseen p t k) (.pure _)

theorem startGate_unseen (p : ProcessId) (c : DeviceCall) :
    Within (Unseen gone app) (startGate p c : NodeWork n m Unit) :=
  Within.part.bind fun _ => Within.bind (.ofExcept _) fun _ w => w.unseen_push _

/-! Work that tells a waiting subroutine. -/

theorem setAborted_discreet (app : Int) : Within Discreet (modifyService (·.markAborted app) : NodeWork n m Unit) :=
  setAborted_sociable app

theorem notifyMemoryFreed_discreet : Within Discreet (notifyMemoryFreed : NodeWork n m Unit) :=
  (notifyMemoryFreed_unseen : Within (Unseen False 0) _).mono fun _ _ h => h.discreet

theorem freeQubit_discreet (slot : Nat) : Within Discreet (freeQubit slot : NodeWork n m Unit) :=
  (freeQubit_unseen slot : Within (Unseen False 0) _).mono fun _ _ h => h.discreet

theorem finishPair_telling (t : PairTask) (k : Nat) (pair : Pair) (virt : Option Int) :
    Telling (finishPair t k pair virt : NodeWork n m (Step m)) :=
  .first (memory_mild _) fun _ => .first (writeRow_noting _ _ _ _) fun _ => .first (log_mild _ _ _) fun _ => .notify _

theorem takeRefusal_telling (t : PairTask) (k position : Nat) (cause : LinkRefusal) :
    Telling (takeRefusal t k position cause : NodeWork n m (Step m)) :=
  .first (freeQubit_discreet _) fun _ => .ite
    (.first (log_mild _ _ _) fun _ => .first (setAborted_discreet _) fun _ => .notify _)
    (.first (log_mild _ _ _) fun _ => .first (markFailed_blaming _) fun _ => .notify _)

theorem settle_telling (r : EntanglementRequest) : Telling (settle r : NodeWork n m (Step m)) :=
  .first (fun w => Docile.service w _ (settle_alike w.part.service r.app)) fun _ => .notify _

/-! A step. -/

theorem takeReply_attentive (r : EntanglementRequest) (task : Option PairTask) (reply : PeerMessage) :
    Attentive gone app (takeReply r task reply : NodeWork n m (Step m)) := by
  unfold takeReply
  split
  · exact .fail _
  · exact Within.attentive ((log_mild _ _ _).bind fun _ => .pure _)
  · exact .first (log_mild _ _ _) fun _ => .first service_mild fun _ => Telling.attentive (.ite
      (.first (setAborted_discreet _) fun _ => .notify _) (.notify _))
  · exact Within.attentive ((log_mild _ _ _).bind fun _ => .pure _)

theorem awaitReply_attentive (p : ProcessId) (r : EntanglementRequest) (task : Option PairTask) :
    Attentive gone app (awaitReply p r task : NodeWork n m (Step m)) :=
  .first (nextMessage_unseen _) fun message => by
    cases message with
    | some reply => exact takeReply_attentive r task reply
    | none => exact Within.attentive ((waitForNews_unseen p).bind fun _ => .pure _)

theorem takeDescriptor_attentive (r : EntanglementRequest) (message : PeerMessage) :
    Attentive gone app (takeDescriptor r message : NodeWork n m (Step m)) := by
  cases message with
  | acknowledge _ => exact .fail _
  | cancel _ =>
    refine .first (requireSameSocket_mild _ _) fun _ => .first (tell_sociable _ _) fun _ => .first (log_mild _ _ _) fun _ =>
      Telling.attentive fun w => ?_
    rw [markAborted, bind_assoc]
    exact Telling.first (setAborted_discreet _) (fun _ => .notify _) w
  | descriptor _ _ _ =>
    exact Within.attentive ((requireSameSocket_mild _ _).bind fun _ => service_mild.bind fun _ => .ite
      ((tell_sociable _ _).bind fun _ => (log_mild _ _ _).bind fun _ => .pure _)
      ((tell_sociable _ _).bind fun _ => (log_mild _ _ _).bind fun _ => .pure _))

theorem awaitDescriptor_attentive (p : ProcessId) (r : EntanglementRequest) :
    Attentive gone app (awaitDescriptor p r : NodeWork n m (Step m)) :=
  .first (nextMessage_unseen _) fun message => by
    cases message with
    | some message => exact takeDescriptor_attentive r message
    | none =>
      exact Within.attentive (service_mild.bind fun _ => .ite ((waitForNews_unseen p).bind fun _ => .pure _)
        ((log_mild _ _ _).bind fun _ => .pure _))

theorem keepHalf_attentive (t : PairTask) (k position : Nat) (pair : Pair) :
    Attentive gone app (keepHalf t k position pair : NodeWork n m (Step m)) :=
  .first .part fun _ => .ite
    (.first (memory_mild _) fun _ => .first (.ofExcept _) fun virt => by
      cases virt with
      | none => exact .fail _
      | some virt =>
        exact .first (mapQubit_unseen _ _ _) fun _ => .first (log_mild _ _ _) fun _ =>
          Telling.attentive (finishPair_telling t k pair _))
    (Within.attentive ((freeQubit_unseen _).bind fun _ => .pure _))

theorem dropHalf_attentive (t : PairTask) (k position : Nat) (pair : Pair) :
    Attentive gone app (dropHalf t k position pair : NodeWork n m (Step m)) :=
  .first (freeQubit_unseen _) fun _ => .first .part fun _ =>
    .ite (Telling.attentive (finishPair_telling t k pair none)) (Within.attentive (.pure _))

theorem correct_attentive (p : ProcessId) (t : PairTask) (k position : Nat) (pair : Pair) (calls : List DeviceCall) :
    Attentive gone app (correct p t k position pair calls : NodeWork n m (Step m)) := by
  cases calls with
  | nil => exact keepHalf_attentive t k position pair
  | cons c calls => exact Within.attentive ((startGate_unseen p c).bind fun _ => .pure _)

theorem takeAnswer_attentive (p : ProcessId) (t : PairTask) (k position : Nat) (answer : LinkAnswer) :
    Attentive gone app (takeAnswer p t k position answer : NodeWork n m (Step m)) := by
  refine .first ?_ fun _ => ?_
  · exact modifyService_unseen fun _ => ⟨rfl, rfl, rfl⟩
  · cases answer with
    | refused cause _ => exact Telling.attentive (takeRefusal_telling t k position cause)
    | pair pair =>
      refine .first (log_mild _ _ _) fun _ => ?_
      split
      · exact correct_attentive p t k position pair _
      · exact keepHalf_attentive t k position pair
      · exact dropHalf_attentive t k position pair

/-- A step of a pair service keeps nothing from a waiting subroutine. -/
theorem step_attentive (p : ProcessId) (stage : PairStage) (wake : Wake) :
    Attentive gone app (step p stage wake : NodeWork n m (Step m)) := by
  cases stage with
  | idle =>
    cases wake with
    | request r => exact Within.attentive (beginRequest_sociable r)
    | _ => exact Within.attentive (awaitRequest_unseen p)
  | awaitingReply r task => exact awaitReply_attentive p r task
  | awaitingDescriptor r => exact awaitDescriptor_attentive p r
  | next t k => exact Within.attentive (beginPair_unseen p t k)
  | starving t k => exact Within.attentive ((log_mild _ _ _).bind fun _ => tryPair_unseen p t k)
  | linking t k position =>
    cases wake with
    | answer a => exact takeAnswer_attentive p t k position a
    | _ => exact Within.attentive (.pure _)
  | correcting t k position pair c calls =>
    exact .first (finishCall_mild c) fun _ => correct_attentive p t k position pair calls
  | settling r => exact Telling.attentive (settle_telling r)

/-! What a client does. -/

theorem openSocket_unseen (other socket remote : Int) :
    Within (Unseen gone app) (openSocket other socket remote : NodeWork n m Unit) :=
  (log_mild _ _ _).bind fun _ => modifyService_unseen fun _ => ⟨rfl, rfl, rfl⟩

theorem removeApp_unseen (other : Int) : Within (Unseen gone app) (removeApp other : NodeWork n m Unit) := by
  refine Within.bind (modifyPart_unseen fun x => ⟨rfl, fun a => .inl rfl, fun h => ?_, fun h => ?_⟩) fun _ =>
    notifyNews_unseen
  · exact (List.mem_filter.1 h).1
  · obtain ⟨hb, hp⟩ := Execution.abandoned_iff.1 h
    exact Execution.abandoned_iff.2 ⟨PairService.isAborted_of_forget hb, hp⟩

/-- A request that is submitted gives a waiting subroutine no reason to go on. -/
theorem submit_unseen (r : EntanglementRequest) : Within (Unseen gone app) (submit r : NodeWork n m Unit) := fun w => by
  refine ⟨(submit_stirs (x := none) w r).later, ?_⟩
  rw [exec_submit]
  refine ⟨rfl, fun a => .inl rfl, fun h => h, fun h => ?_⟩
  obtain ⟨hb, hp⟩ := Execution.abandoned_iff.1 h
  have hadd : (w.part.service.addPending r.app).pendingRequests app = 0 := hp
  rw [PairService.pendingRequests_addPending] at hadd
  exact Execution.abandoned_iff.2 ⟨hb, Nat.eq_zero_of_add_eq_zero_right hadd⟩

theorem abort_telling (other : Int) : Telling (abort other : NodeWork n m Unit) := by
  have hrest : Telling (do notifyMemoryFreed; notifyArrayWritten : NodeWork n m Unit) :=
    .first notifyMemoryFreed_discreet fun _ => notifyArrayWritten_telling
  refine .first (log_mild _ _ _) fun _ => .first (setAborted_discreet _) fun _ => .first service_mild fun _ => ?_
  split
  · exact .ite (.first (abortLink_sociable _) fun _ => hrest) hrest
  · exact hrest

end Pairing

namespace Dispatch

variable {gone : Prop} {app : Int}

/-- An application that is registered has no arrays yet. -/
theorem addApp_unseen (other : Int) : Within (Unseen gone app) (addApp other : NodeWork n m Unit) := .of_part fun w => by
  split
  · exact Std.Refl.refl w
  · rename_i happ
    refine ⟨fun _ => Nat.le_refl _, rfl, fun a => .inl ?_, fun h => h, fun h => h⟩
    have hnone : w.part.apps.get? other = none := by simpa [hasApp, SortedMap.contains] using happ
    change ((w.part.apps.insert other _).get? app).bind _ = (w.part.apps.get? app).bind _
    by_cases h : app = other
    · subst h
      rw [SortedMap.get?_insert_self, hnone]
      rfl
    · rw [SortedMap.get?_insert_of_ne _ h]

theorem initApp_unseen (maxQubits : Nat) : Within (Unseen gone app) (initApp maxQubits : NodeWork n m Int) :=
  Within.part.bind fun _ => (modifyDispatcher_steering _ fun _ => Nat.le_succ _).bind fun _ => (addApp_unseen _).bind fun _ =>
    (modifyDispatcher_steering _).bind fun _ => Within.part.bind fun _ => announce_mild _ _ _

theorem removeMemory_unseen {other : Int} (hg : other = app → gone) :
    Within (Unseen gone app) (Node.removeApp other : NodeWork n m Unit) :=
  modifyPart_unseen fun x => by
    refine ⟨rfl, fun a => ?_, fun h => h, fun h => h⟩
    change ((x.apps.erase other).get? app).bind _ = (x.apps.get? app).bind _ ∨
      gone ∧ ((x.apps.erase other).get? app).bind _ = none
    by_cases h : app = other
    · subst h
      rw [SortedMap.get?_erase_self]
      exact .inr ⟨hg rfl, rfl⟩
    · rw [SortedMap.get?_erase_of_ne _ h]
      exact .inl rfl

theorem unmapAll_unseen (other : Int) (f : AppMemory → NodeWork n m α) (hf : ∀ mem, Within (Unseen gone app) (f mem)) :
    Within (Unseen gone app) (do
      let mem ← memory other
      setMemory other mem.unmapAll
      f mem : NodeWork n m α) := fun w => by
  rcases hmem : w.part.apps.get? other with _ | mem
  · simp only [memory, exec_bind, exec_part, hmem, exec_fail]
    exact Std.Refl.refl w
  · simp only [memory, exec_bind, exec_part, hmem, exec_pure]
    have h : (updateMemory other fun mem => .ok mem.unmapAll : NodeWork n m Unit).exec w =
        (setMemory other mem.unmapAll).exec w := by
      simp only [updateMemory, memory, exec_bind, exec_part, hmem, exec_pure, exec_ofExcept]
    have hu : Within (Unseen gone app) (updateMemory other fun mem => .ok mem.unmapAll : NodeWork n m Unit) :=
      updateMemory_unseen other fun _ _ h => by
        cases h
        rfl
    have hw := hu w
    rw [h] at hw
    exact hw.trans (hf mem _)

theorem clearApp_unseen {other : Int} {remove : Bool} (hg : remove = true → other = app → gone) :
    Within (Unseen gone app) (clearApp other remove : NodeWork n m Unit) :=
  Within.part.bind fun _ => .ite (unmapAll_unseen other _ fun mem =>
    (Within.forM (fun _ => freeQubit_unseen _) _).bind fun _ => by
      split
      · rename_i hr
        exact removeMemory_unseen (hg hr)
      · exact .pure _) (.pure _)

theorem stopApp_unseen {other : Int} (hg : other = app → gone) :
    Within (Unseen gone app) (stopApp other : NodeWork n m Unit) := by
  have hrest : Within (Unseen gone app) (do
      Pairing.removeApp other
      modifyDispatcher fun d => { d with apps := d.apps.erase other } : NodeWork n m Unit) :=
    (Pairing.removeApp_unseen other).bind fun _ => modifyDispatcher_steering _
  exact (log_mild _ _ _).bind fun _ => Within.part.bind fun _ => .ite
    ((log_mild _ _ _).bind fun _ => (clearApp_unseen fun _ => hg).bind fun _ => hrest)
    ((log_mild _ _ _).bind fun _ => hrest)

end Dispatch

end QuantumNode
