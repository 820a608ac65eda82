import QuantumNode.Proofs.Network.Bystander
import QuantumNode.Proofs.Network.Rehearsal
import QuantumNode.Proofs.Node.Accounts
import QuantumNode.Proofs.Node.Deed
import QuantumNode.Proofs.Node.Starvation
import QuantumNode.Proofs.Node.Supply

/-! What becomes of a receive that waits for its peer when its application is stopped. Along every run it is told that its
socket is gone, and when it goes on and has no message of its peer it is settled without a fault. -/
namespace QuantumNode

open Node Work Working

variable {n m : Nat}

/-! What a receive that waits for its peer learns of its socket. Whoever takes the socket away tells it that there is news,
and a receive that finds its socket gone, and no message of its peer, is let go. -/

section

/-- A process is in line for the next news, and the socket of its receive is open. -/
structure Node.Attends (p : ProcessId) (node : Node n m) (r : EntanglementRequest) : Prop where
  queued : p ∈ node.service.news.waiters
  socket : node.service.hasSocket r.app r.socket r.remote = true

/-- A pair service that waits for the peer of a receive is told that there is news, or its socket stays open. -/
structure Working.Minds (r : EntanglementRequest) (w w' : Working (Node n m) n m) : Prop where
  later : ∀ q, w.resumed q ≤ w'.resumed q
  news : Hears (·.service.news) w w'
  socket : w'.part.service.news = w.part.service.news → w.part.service.hasSocket r.app r.socket r.remote = true →
    w'.part.service.hasSocket r.app r.socket r.remote = true

namespace Working

variable {r : EntanglementRequest} {w w₁ w' : Working (Node n m) n m}

theorem Minds.trans (h : Minds r w w₁) (h' : Minds r w₁ w') : Minds r w w' := by
  refine ⟨fun q => Nat.le_trans (h.later q) (h'.later q), h.news.trans h'.news h.later h'.later, fun hn hs => ?_⟩
  -- a signal that is notified is not what it was before
  have hle : (w₁.part.service.news).notified ≤ (w'.part.service.news).notified := by
    rcases h'.news with he | ⟨hlt, -⟩
    · exact Nat.le_of_eq (congrArg Signal.notified he).symm
    · exact Nat.le_of_lt hlt
  have hsame : w₁.part.service.news = w.part.service.news := by
    rcases h.news with he | ⟨hlt, -⟩
    · exact he
    · rw [hn] at hle
      exact absurd hlt (Nat.not_lt_of_le hle)
  exact h'.socket (hn.trans hsame.symm) (h.socket hsame hs)

theorem Minds.of_news (hres : ∀ q, w.resumed q ≤ w'.resumed q) (hn : w'.part.service.news = w.part.service.news)
    (hs : ∀ app socket remote, w.part.service.hasSocket app socket remote = true →
      w'.part.service.hasSocket app socket remote = true) : Minds r w w' :=
  ⟨hres, .inl hn, fun _ => hs _ _ _⟩

/-- Nobody is resumed, and the pair service is the same. -/
theorem Minds.of_service (hres : ∀ q, w.resumed q ≤ w'.resumed q) (hs : w'.part.service = w.part.service) : Minds r w w' :=
  .of_news hres (by rw [hs]) fun _ _ _ h => hs ▸ h

instance : Std.Refl (Minds r : Working (Node n m) n m → Working (Node n m) n m → Prop) :=
  ⟨fun _ => .of_service (fun _ => Nat.le_refl _) rfl⟩

instance : IsTrans (Working (Node n m) n m) (Minds r) := ⟨fun _ _ _ h h' => h.trans h'⟩

/-- A receive that is not told misses nothing. -/
theorem Minds.attends {p : ProcessId} (h : Minds r w w') (ha : w.part.Attends p r) :
    w'.part.Attends p r ∨ w.resumed p < w'.resumed p := by
  rcases h.news with hn | ⟨-, -, hres⟩
  · have hn : w'.part.service.news = w.part.service.news := hn
    exact .inl ⟨hn ▸ ha.queued, h.socket hn ha.socket⟩
  · have hcount := List.count_pos_iff.2 ha.queued
    have hle : w.resumed p + w.part.service.news.waiters.count p ≤ w'.resumed p := hres p
    exact .inr (by omega)

end Working

namespace Node

variable {r : EntanglementRequest}

/-- Whoever waits for news is told, whatever has become of the sockets. -/
theorem notifyNews_minds {w₀ w : Working (Node n m) n m} (hres : ∀ q, w.resumed q = w₀.resumed q)
    (hn : w.part.service.news = w₀.part.service.news) : Minds r w₀ (notifyNews.exec w).2 := by
  obtain ⟨w', he, hpart, hresumed⟩ := exec_notifyNews w
  rw [he]
  have hnews : w'.part.service.news = ⟨[], w₀.part.service.news.notified + 1⟩ := by rw [hpart, hn]
  have htold : ∀ q, w'.resumed q = w₀.resumed q + w₀.part.service.news.waiters.count q := fun q => by
    rw [hresumed, hres, hn]
  refine ⟨fun q => ?_, .inr ⟨?_, ?_, fun q => Nat.le_of_eq (htold q).symm⟩, fun h => ?_⟩
  · rw [htold]
    exact Nat.le_add_right _ _
  · change _ < (w'.part.service.news).notified
    rw [hnews]
    exact Nat.lt_succ_self _
  · exact congrArg Signal.waiters hnews
  · exact absurd (congrArg Signal.notified (h.symm.trans hnews)) (Nat.succ_ne_self _).symm

instance : Mild (Minds r : Working (Node n m) n m → Working (Node n m) n m → Prop) where
  emit w e _ := .of_service (fun q => by rw [resumed_push]; exact Nat.le_add_right _ _) rfl
  part _ _ h := .of_service (fun _ => Nat.le_refl _) h.service
  quantum _ _ := .of_service (fun _ => Nat.le_refl _) rfl
  service _ _ h := .of_news (fun _ => Nat.le_refl _) h.news h.sockets
  memory _ _ _ _ _ _ := .of_service (fun _ => Nat.le_refl _) rfl
  submit w r := .of_news (submit_stirs (x := none) w r).later (by rw [exec_submit]; rfl)
    (by rw [exec_submit]; exact fun _ _ _ h => h)

instance : Steering (Minds r : Working (Node n m) n m → Working (Node n m) n m → Prop) where
  dispatcher _ _ _ := .of_service (fun _ => Nat.le_refl _) rfl
  reply w _ _ := .of_service (fun q => by rw [resumed_push]; exact Nat.le_add_right _ _) rfl

instance : Lavish (Minds r : Working (Node n m) n m → Working (Node n m) n m → Prop) where
  freed w := by
    obtain ⟨w', he, hpart, hres⟩ := exec_notifyMemoryFreed w
    rw [he]
    exact .of_service (fun q => by rw [hres]; exact Nat.le_add_right _ _) (by rw [hpart])
  written w := by
    obtain ⟨w', he, hpart, hres⟩ := exec_notifyArrayWritten w
    rw [he]
    exact .of_service (fun q => by rw [hres]; exact Nat.le_add_right _ _) (by rw [hpart])
  news _ := notifyNews_minds (fun _ => rfl) rfl
  gone w app := notifyNews_minds (w := { w with part := { w.part with service := w.part.service.forget app } })
    (fun _ => rfl) rfl
  apps _ _ := .of_service (fun _ => Nat.le_refl _) rfl
  pool _ _ _ := .of_service (fun _ => Nat.le_refl _) rfl

instance : Affable (Minds r : Working (Node n m) n m → Working (Node n m) n m → Prop) where
  tell w _ _ _ := .of_service (fun q => by rw [resumed_push]; exact Nat.le_add_right _ _) rfl
  abort w _ _ := .of_service (fun q => by rw [resumed_push]; exact Nat.le_add_right _ _) rfl
  hold w s _ hn _ _ hs _ := .of_news (fun _ => Nat.le_refl _) hn fun app socket remote h => by
    change s.hasSocket app socket remote = true
    rwa [PairService.hasSocket, hs]

instance (p : ProcessId) : Drowsy p (Minds r : Working (Node n m) n m → Working (Node n m) n m → Prop) where
  sleep w _ := .of_service (fun q => by rw [resumed_push]; exact Nat.le_add_right _ _) rfl
  write _ := .of_service (fun _ => Nat.le_refl _) rfl
  text _ := .of_service (fun _ => Nat.le_refl _) rfl

end Node

namespace Pairing

theorem takeDescriptor_goes (r : EntanglementRequest) (message : PeerMessage) :
    Yields (fun flow => ∃ stage, flow = .go stage) (takeDescriptor r message : NodeWork n m (Step m)) := by
  cases message with
  | acknowledge _ => exact .fail _
  | cancel _ => exact .bind fun _ => .bind fun _ => .bind fun _ => .bind fun _ => .pure ⟨_, rfl⟩
  | descriptor _ _ _ =>
    exact .bind fun _ => .bind fun _ => .ite (.bind fun _ => .bind fun _ => .pure ⟨_, rfl⟩)
      (.bind fun _ => .bind fun _ => .pure ⟨_, rfl⟩)

theorem awaitDescriptor_attends (p : ProcessId) (r : EntanglementRequest) (w : Working (Node n m) n m) :
    Ends (awaitDescriptor p r) w fun flow w' => ∀ stage, flow = .rest stage → w'.part.Attends p r := by
  refine .bind fun message w₁ _ => ?_
  cases message with
  | some message =>
    refine (takeDescriptor_goes r message w₁).mono fun flow _ ⟨_, hgo⟩ _ hrest => ?_
    rw [hgo] at hrest
    exact nomatch hrest
  | none =>
    refine .bind fun s w₂ hservice => ?_
    obtain ⟨⟨⟩, rfl⟩ := Prod.mk.inj hservice
    split
    · rename_i hsocket
      refine .bind fun _ w₃ hwait => .pure fun _ _ => ?_
      obtain ⟨-, rfl⟩ := Prod.mk.inj hwait
      exact ⟨List.mem_append_right _ (List.mem_singleton.2 rfl), hsocket⟩
    · exact .bind fun _ _ _ => .pure fun _ h => nomatch h

/-- A receive that is left waiting for its peer has its socket open, unless it is to look for a message at once. -/
theorem step_attends (p : ProcessId) (stage : PairStage) (wake : Wake) (w : Working (Node n m) n m) :
    Ends (step p stage wake) w fun flow w' => ∀ r, flow.stage = .awaitingDescriptor r →
      flow = .go (.awaitingDescriptor r) ∨ w'.part.Attends p r := by
  intro flow w' he r hst
  obtain ⟨took, told, -, hd⟩ := step_deed p stage wake _ w' he
  cases hd with
  | attend _ =>
    cases hst
    exact .inl rfl
  | awaitDescriptor =>
    cases hst
    exact .inr (awaitDescriptor_attends p r w _ w' he _ rfl)
  | @conclude _ r' task j message _ _ =>
    change r'.concluded task message = _ at hst
    unfold EntanglementRequest.concluded at hst
    split at hst
    · exact nomatch hst
    · exact nomatch hst
  | _ => exact nomatch hst

/-! A receive whose socket is gone. -/

variable {w : Working (Node n m) n m}

theorem exec_nextMessage_none {remote : Int} {j : Fin n} (hj : peer? w.part.id remote = some j)
    (hitems : (w.part.service.inbound.get j).items = []) : (nextMessage remote).exec w = (.ok none, w) := by
  have hset : w.part.service.inbound.set j (w.part.service.inbound.get j) j.isLt = w.part.service.inbound :=
    Vector.set_getElem_self _
  simp only [nextMessage, exec_bind, exec_part, hj, Channel.tryReceive, hitems, modifyService, exec_modifyPart, exec_pure]
  rw [hset]

/-- It is let go. -/
theorem exec_awaitDescriptor_of_closed (p : ProcessId) {r : EntanglementRequest} {j : Fin n}
    (hj : peer? w.part.id r.remote = some j) (hitems : (w.part.service.inbound.get j).items = [])
    (hs : w.part.service.hasSocket r.app r.socket r.remote = false) :
    ∃ w', (awaitDescriptor p r).exec w = (.ok (.go (.settling r)), w') ∧ w'.part = w.part := by
  simp only [awaitDescriptor, exec_bind, exec_nextMessage_none hj hitems, service, exec_part, exec_pure, hs,
    Bool.false_eq_true, if_false]
  exact ⟨_, rfl, rfl⟩

end Pairing

end

/-! Along a run. -/

theorem Node.SameSlots.attends {p : ProcessId} {r : EntanglementRequest} {x y : Node n m} (h : x.SameSlots y)
    (ha : x.Attends p r) : y.Attends p r := by
  refine ⟨?_, ?_⟩
  · rw [h.service]
    exact ha.queued
  · rw [h.service]
    exact ha.socket

namespace Network

variable {s s' : Network n m} {i : Fin n} {cause : Cause n} {r : EntanglementRequest}

/-- A receive that waits for its peer, and is not to go on, is in line for news and has its socket open. -/
def Attending (i : Fin n) (s : Network n m) : Prop :=
  ∀ r, s.pairStage i = .awaitingDescriptor r → s.due (pairId i) = 0 → (s.node i).Attends (pairId i) r

/-- A step in which the pair service does not go on. -/
theorem Reaches.attending (h : s.Reaches i cause s') (hown : s.current.map Prod.fst ≠ some (pairId i))
    (hst : s'.pairStage i = s.pairStage i) (ha : Attending i s) : Attending i s' := fun r hr hdue => by
  rw [hst] at hr
  cases h with
  | spares hs hd _ _ => exact hs.attends (ha r hr (Nat.eq_zero_of_le_zero (hdue ▸ hd _ hown)))
  | @works w w' hshift hs hd =>
    have hd := hd _ hown
    have hx := ha r hr (by omega)
    have hminds : Minds r w w' := by
      cases hshift with
      | labour _ hl _ => exact hl.sociable _
      | pairing hc => exact absurd (congrArg (Option.map Prod.fst) hc) hown
      | dispatch _ => exact Dispatch.step_lavish _ _ _ _
    rw [← hshift.start.1] at hx
    rcases hminds.attends hx with hx | hlt
    · exact hs.attends hx
    · omega

/-- A pair service that has had its turn. -/
theorem Treads.attending (h : s.Treads s') (hown : s.current.map Prod.fst = some (pairId i)) : Attending i s' := by
  intro r hr hdue
  rcases h.pairTurn hown with hidle | ⟨wake, flow, w, hx, hst, hslots, hgo⟩
  · rw [hr] at hidle
    exact nomatch hidle
  · rcases Pairing.step_attends _ _ _ _ flow w hx r (hst.symm.trans hr) with rfl | ha
    · have := due_of_current (hgo _ rfl)
      omega
    · exact hslots.attends ha

theorem Course.attending {c : NetworkConfig} {past : List (Stride c.nodes.length c.links.length)}
    {s : Network c.nodes.length c.links.length} (h : Course c past s) (i : Fin c.nodes.length) : Attending i s := by
  induction h with
  | built h =>
    intro r hr
    rw [(built_of_build h).pairStage] at hr
    exact nomatch hr
  | @step past s s' cause h hstep ih =>
    have hhappens := hstep.happens h.crewed
    by_cases hown : s.current.map Prod.fst = some (pairId i)
    · exact (hhappens.treads hown).attending hown
    · exact (hhappens.reaches i).attending hown (hhappens.pairStage_of_ne h.crewed hown) ih

/-- A step of a pair service that is to go on at once. -/
theorem proceed_pairing {wake : Wake} {stage : PairStage} {w : Working (Node n m) n m} (hs : s.Crewed)
    (hc : s.current = some (pairId i, wake)) (hst : s.pairStage i ≠ .idle)
    (hx : (Pairing.step (pairId i) (s.pairStage i) wake).exec (s.working i) = (.ok (.go stage), w)) :
    ∃ s', s.proceed = .went s' ∧ s'.Crewed ∧ s'.current = some (pairId i, .go) ∧ s'.pairStage i = stage ∧
      w.part.SameSlots (s'.node i) := by
  obtain ⟨name, hp⟩ := hs.get?_pairing hst
  let s' : Network n m := ((s.commit i w).setActivity (pairId i) ⟨name, .pairing i (s.pairStage i)⟩
    (.pairing i stage)).setCurrent (some (pairId i, .go))
  have hwent : s.proceed = .went s' := by
    simp only [proceed, hc, hp, stepProcess, stepActivity, atNode_eq, hx]
    rfl
  have hres : (s.commit i w).Resolves (pairId i) ⟨name, .pairing i (s.pairStage i)⟩ (.go (.pairing i stage)) s' := .go _
  have hslots := commit_slots s i w i
  rw [if_pos rfl] at hslots
  exact ⟨s', hwent, (advances_of_went hs hwent).crewed hs, rfl, Resolves.pairStage (x := .go stage) hres,
    hslots.trans (hres.slots i)⟩

/-- Along every run, also after faults, a receive whose application is stopped while it waits for its peer is let go: it is
told that its socket is gone, and when it goes on without a message of its peer it is settled. -/
theorem stopped_receives_are_let_go {c : NetworkConfig} {past : List (Stride c.nodes.length c.links.length)}
    {s : Network c.nodes.length c.links.length} (h : Course c past s) {i : Fin c.nodes.length} {r : EntanglementRequest}
    (hst : s.pairStage i = .awaitingDescriptor r) (hs : (s.node i).service.hasSocket r.app r.socket r.remote = false) :
    0 < s.due (pairId i) ∧ ∀ wake j, s.current = some (pairId i, wake) → Pairing.peer? (s.node i).id r.remote = some j →
      ((s.node i).service.inbound.get j).items = [] →
      ∃ s₁ s₂, s.proceed = .went s₁ ∧ s₁.proceed = .went s₂ ∧ s₂.pairStage i = .idle ∧
        (s₂.node i).service.pendingRequests r.app = (s.node i).service.pendingRequests r.app - 1 := by
  refine ⟨Nat.pos_of_ne_zero fun hdue => ?_, fun wake j hc hj hitems => ?_⟩
  · have hsocket := (h.attending i r hst hdue).socket
    rw [hs] at hsocket
    exact nomatch hsocket
  · obtain ⟨w, hx, hpart⟩ := Pairing.exec_awaitDescriptor_of_closed (w := s.working i) (pairId i) hj hitems hs
    obtain ⟨s₁, hwent, hcrewed, hc₁, hst₁, hslots⟩ :=
      proceed_pairing h.crewed hc (by rw [hst]; exact nofun) (by rw [hst]; exact hx)
    obtain ⟨w₁, hx₁, hpart₁, -, -⟩ := Pairing.exec_settle (w := s₁.working i) r
    obtain ⟨s₂, hwent₂, -, -, hst₂, hslots₂⟩ :=
      proceed_pairing hcrewed hc₁ (by rw [hst₁]; exact nofun) (by rw [hst₁]; exact hx₁)
    refine ⟨s₁, s₂, hwent, hwent₂, hst₂, ?_⟩
    have hpending : (s₁.node i).service.pending = (s.node i).service.pending := by
      rw [hslots.service, hpart]
      rfl
    have hsettled : (s₂.node i).service.pending = ((s₁.node i).service.settle r.app).pending := by
      rw [hslots₂.service, hpart₁]
      rfl
    rw [PairService.pendingRequests, PairService.pendingRequests, hsettled, ← hpending]
    exact ((s₁.node i).service.pendingRequests_settle r.app r.app).trans (congrArg _ (if_pos rfl))

/-- The second application waits for a pair that the first never asks for, and is stopped. -/
def duoStopping : List (Direction duo.nodes.length) :=
  duoOpening ++ [.act (.atNode 1 (.submit (duoRequest 1))), .run 0 100, .act (.atNode 1 (.stop 0)), .run 0 1]

/-- The pair service of the second node is at its turn, for a request whose socket is gone and to which nobody answers. -/
def duoStops (s : Network duo.nodes.length duo.links.length) : Bool :=
  match s.current, s.pairStage 1 with
  | some (p, _), .awaitingDescriptor r => p = pairId (1 : Fin duo.nodes.length) ∧
      (s.node 1).service.hasSocket r.app r.socket r.remote = false ∧ Pairing.peer? (s.node 1).id r.remote = some 0 ∧
        ((s.node 1).service.inbound.get 0).items.isEmpty ∧ (s.node 1).service.pendingRequests r.app = 1
  | _, _ => false

theorem stopped_receives_are_let_go_unmatched : ∃ past s s₁ s₂ r, Course duo past s ∧
    s.pairStage 1 = .awaitingDescriptor r ∧ (s.node 1).service.pendingRequests r.app = 1 ∧ s.proceed = .went s₁ ∧
      s₁.proceed = .went s₂ ∧ s₂.pairStage 1 = .idle ∧ (s₂.node 1).service.pendingRequests r.app = 0 := by
  obtain ⟨past, s, ht, hs⟩ := Trace.exists_of_rehearse duo (fun _ => True) duoStopping (fun r => duoStops r.2)
    (by decide +kernel) (fun _ _ => trivial)
  dsimp only [duoStops] at hs
  split at hs
  · rename_i wake r hc hst
    obtain ⟨rfl, hsocket, hpeer, hitems, hpending⟩ := of_decide_eq_true hs
    obtain ⟨strides, hcourse, -⟩ := ht.course
    obtain ⟨s₁, s₂, hwent, hwent', hidle, hone⟩ :=
      (stopped_receives_are_let_go hcourse hst hsocket).2 wake 0 hc hpeer (List.isEmpty_iff.1 hitems)
    exact ⟨strides, s, s₁, s₂, r, hcourse, hst, hpending, hwent, hwent', hidle, by rw [hone, hpending]⟩
  · cases hs

end Network

end QuantumNode
