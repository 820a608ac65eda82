import QuantumNode.Proofs.Node.Service

/-! What a step of a pair service comes to: how its stage changes, what it takes from its peer and what it tells it. -/
namespace QuantumNode

open Work Working

variable {n m : Nat}

/-- What work of a node takes from a peer and what it tells a peer. Links and waiting calls notice nothing of it. -/
structure Working.Exchanges (took told : Option (Fin n × PeerMessage)) (w w' : Working (Node n m) n m) : Prop where
  loud : w'.loud = w.loud ++ (told.map fun x => .tell w.part.id x.1 x.2).toList
  id : w'.part.id = w.part.id
  links : w'.part.ports.links = w.part.ports.links
  inbound : match took with
    | none => w'.part.service.inbound = w.part.service.inbound
    | some (j, message) => ∃ c : Channel PeerMessage ProcessId,
        w.part.service.inbound.get j = { c with items := message :: c.items } ∧
          w'.part.service.inbound = w.part.service.inbound.set j c j.isLt

namespace Working

variable {w w' w'' : Working (Node n m) n m} {took told : Option (Fin n × PeerMessage)}

/-- Nothing is exchanged with peers. -/
abbrev Mute (w w' : Working (Node n m) n m) : Prop := Exchanges none none w w'

theorem Mute.refl (w : Working (Node n m) n m) : Mute w w := ⟨by simp, rfl, rfl, rfl⟩

theorem Calm.mute (h : Calm w w') : Mute w w' := ⟨by simp [h.loud], h.id, h.links, h.inbound⟩

/-- What is told after a message has been taken. -/
theorem Exchanges.tells (h : Exchanges took none w w') (h' : Exchanges none told w' w'') :
    Exchanges took told w w'' := by
  refine ⟨?_, h'.id.trans h.id, h'.links.trans h.links, ?_⟩
  · have hl := h.loud
    rw [Option.map_none, Option.toList_none, List.append_nil] at hl
    rw [h'.loud, hl, h.id]
  · have hi := h'.inbound
    have ht := h.inbound
    dsimp only at hi
    rw [hi]
    exact ht

theorem Exchanges.mute (h : Exchanges took told w w') (h' : Mute w' w'') : Exchanges took told w w'' := by
  have hl := h'.loud
  rw [Option.map_none, Option.toList_none, List.append_nil] at hl
  have hi := h'.inbound
  have ht := h.inbound
  dsimp only at hi
  refine ⟨hl.trans h.loud, h'.id.trans h.id, h'.links.trans h.links, ?_⟩
  rw [hi]
  exact ht

theorem Exchanges.calm (h : Exchanges took told w w') (h' : Calm w' w'') : Exchanges took told w w'' := h.mute h'.mute

/-- What is taken and told can be told from the work. -/
theorem Exchanges.unique {took' told' : Option (Fin n × PeerMessage)} (h : Exchanges took told w w')
    (h' : Exchanges took' told' w w') : took = took' ∧ told = told' := by
  have hself : ∀ {j message} {c : Channel PeerMessage ProcessId}, w.part.service.inbound.get j =
      { c with items := message :: c.items } → w'.part.service.inbound.get j ≠ w.part.service.inbound.get j ∨
        w'.part.service.inbound.get j ≠ c := fun {j message c} hc => by
    refine Classical.or_iff_not_imp_left.2 fun hsame hc' => ?_
    have hitems := congrArg Channel.items (hc.symm.trans ((Classical.not_not.1 hsame).symm.trans hc'))
    exact List.cons_ne_self _ _ hitems
  have hget : ∀ {j k : Fin n} {c : Channel PeerMessage ProcessId},
      w'.part.service.inbound = w.part.service.inbound.set j c j.isLt →
      w'.part.service.inbound.get k = if k = j then c else w.part.service.inbound.get k := fun hset => by
    rw [hset, vector_get_set]
  refine ⟨?_, ?_⟩
  · have hin := h.inbound
    have hin' := h'.inbound
    cases took with
    | none =>
      cases took' with
      | none => rfl
      | some x =>
        obtain ⟨j, message⟩ := x
        obtain ⟨c, hc, hset⟩ := hin'
        dsimp only at hin
        rcases hself hc with hne | hne
        · exact absurd (by rw [hin]) hne
        · exact absurd ((hget hset).trans (if_pos rfl)) hne
    | some x =>
      obtain ⟨j, message⟩ := x
      obtain ⟨c, hc, hset⟩ := hin
      cases took' with
      | none =>
        dsimp only at hin'
        rcases hself hc with hne | hne
        · exact absurd (by rw [hin']) hne
        · exact absurd ((hget hset).trans (if_pos rfl)) hne
      | some x' =>
        obtain ⟨j', message'⟩ := x'
        obtain ⟨c', hc', hset'⟩ := hin'
        by_cases hj : j = j'
        · subst hj
          rw [hc] at hc'
          have := congrArg Channel.items hc'
          injection this with hm
          rw [hm]
        · have h₁ := (hget hset (k := j)).trans (if_pos rfl)
          have h₂ := (hget hset' (k := j)).trans (if_neg hj)
          rcases hself hc with hne | hne
          · exact absurd h₂ hne
          · exact absurd h₁ hne
  · have hl := h.loud.symm.trans h'.loud
    have := List.append_cancel_left hl
    cases told with
    | none =>
      cases told' with
      | none => rfl
      | some x => exact nomatch this
    | some x =>
      cases told' with
      | none => exact nomatch this
      | some x' =>
        injection this with this
        injection this with _ h₁ h₂
        rw [Prod.ext h₁ h₂]

instance : Std.Refl (Mute : Working (Node n m) n m → Working (Node n m) n m → Prop) := ⟨Mute.refl⟩

instance : IsTrans (Working (Node n m) n m) Mute := ⟨fun _ _ _ h h' => h.mute h'⟩

end Working

theorem Work.Within.mute {α : Type} {x : NodeWork n m α} (h : Within Calm x) : Within Mute x :=
  h.mono fun _ _ h => h.mute

/-- The message that a create sends, for a task or in the place of one. -/
def EntanglementRequest.opening (r : EntanglementRequest) : Option PairTask → PeerMessage
  | some t => .descriptor r.socket t.count t.wanted
  | none => .cancel r.socket

/-- Where a create goes on after the peer has answered. -/
def EntanglementRequest.concluded (r : EntanglementRequest) : Option PairTask → PeerMessage → PairStage
  | some t, .acknowledge _ => .next t 0
  | _, _ => .settling r

namespace Pairing

open Node

/-- The next pair of a task is to be asked for. -/
inductive Asks (t : PairTask) (k : Nat) : PairStage → Prop where
  | next (h : (k : Int) < t.count) : Asks t k (.next t k)
  | starving : Asks t k (.starving t k)

theorem Asks.unique {t t' : PairTask} {k k' : Nat} {stage : PairStage} (h : Asks t k stage) (h' : Asks t' k' stage) :
    t' = t ∧ k' = k := by
  cases h with
  | next _ =>
    cases h'
    exact ⟨rfl, rfl⟩
  | starving =>
    cases h'
    exact ⟨rfl, rfl⟩

/-- The row of a pair stands in the array of results of its task. -/
def Records (node : Node n m) (t : PairTask) (k : Nat) (pair : Pair) : Prop :=
  ∃ mem virt, node.apps.get? t.request.app = some mem ∧
    mem.row t.request.resultArray k = (resultRow t.request pair virt).map fun v => .ok (some v)

/-- The steps of the pair service of a node: the stage before it, why it goes on, what it takes and tells, and where
it goes on. The row of a pair that is delivered has been `recorded`. -/
inductive Deed (here : Fin n) (port : Int → Option (Fin m × LinkEnd)) (recorded : PairTask → Nat → Pair → Prop) :
    PairStage → Wake → Option (Fin n × PeerMessage) → Option (Fin n × PeerMessage) → Step m → Prop where
  | idle {wake : Wake} : Deed here port recorded .idle wake none none (.rest .idle)
  | attend {wake : Wake} {r : EntanglementRequest} (hr : r.role = .receive) :
      Deed here port recorded .idle wake none none (.go (.awaitingDescriptor r))
  | offer {wake : Wake} {r : EntanglementRequest} {task : Option PairTask} {j : Fin n} (hr : r.role = .create)
      (ht : ∀ t, task = some t → t.request = r) (hj : peer? here r.remote = some j) :
      Deed here port recorded .idle wake none (some (j, r.opening task)) (.go (.awaitingReply r task))
  | awaitReply {wake : Wake} {r : EntanglementRequest} {task : Option PairTask} :
      Deed here port recorded (.awaitingReply r task) wake none none (.rest (.awaitingReply r task))
  | conclude {wake : Wake} {r : EntanglementRequest} {task : Option PairTask} {j : Fin n} {message : PeerMessage}
      (hj : peer? here r.remote = some j) (hm : ∀ socket count wanted, message ≠ .descriptor socket count wanted) :
      Deed here port recorded (.awaitingReply r task) wake (some (j, message)) none (.go (r.concluded task message))
  | awaitDescriptor {wake : Wake} {r : EntanglementRequest} :
      Deed here port recorded (.awaitingDescriptor r) wake none none (.rest (.awaitingDescriptor r))
  | drop {wake : Wake} {r : EntanglementRequest} :
      Deed here port recorded (.awaitingDescriptor r) wake none none (.go (.settling r))
  | decline {wake : Wake} {r : EntanglementRequest} {j : Fin n} (hj : peer? here r.remote = some j) :
      Deed here port recorded (.awaitingDescriptor r) wake (some (j, .cancel r.socket))
        (some (j, .acknowledge r.socket)) (.go (.settling r))
  | refuse {wake : Wake} {r : EntanglementRequest} {j : Fin n} {count : Int} {wanted : PairRequest}
      (hj : peer? here r.remote = some j) :
      Deed here port recorded (.awaitingDescriptor r) wake (some (j, .descriptor r.socket count wanted))
        (some (j, .cancel r.socket)) (.go (.settling r))
  | accept {wake : Wake} {r : EntanglementRequest} {j : Fin n} {count : Int} {wanted : PairRequest}
      (hj : peer? here r.remote = some j) :
      Deed here port recorded (.awaitingDescriptor r) wake (some (j, .descriptor r.socket count wanted))
        (some (j, .acknowledge r.socket)) (.go (.next ⟨r, wanted, count⟩ 0))
  | complete {wake : Wake} {t : PairTask} {k : Nat} (hk : t.count ≤ k) :
      Deed here port recorded (.next t k) wake none none (.go (.settling t.request))
  | abandon {wake : Wake} {stage : PairStage} {t : PairTask} {k : Nat} (hs : Asks t k stage) :
      Deed here port recorded stage wake none none (.go (.settling t.request))
  | starve {wake : Wake} {stage : PairStage} {t : PairTask} {k : Nat} (hs : Asks t k stage) :
      Deed here port recorded stage wake none none (.rest (.starving t k))
  | ask {wake : Wake} {stage : PairStage} {t : PairTask} {k position : Nat} {l : Fin m} {e : LinkEnd} {c : LinkCall}
      (hs : Asks t k stage) (hl : port t.request.remote = some (l, e)) (hr : c.role = t.request.role)
      (hc : c.role = .create → c.request = t.wanted) :
      Deed here port recorded stage wake none none (.call (.linking t k position) l e c)
  | bide {wake : Wake} {t : PairTask} {k position : Nat} (ha : ∀ a, wake ≠ .answer a) :
      Deed here port recorded (.linking t k position) wake none none (.rest (.linking t k position))
  | yield {t : PairTask} {k position : Nat} {cause : LinkRefusal} {kind : PairKind} :
      Deed here port recorded (.linking t k position) (.answer (.refused cause kind)) none none
        (.go (.settling t.request))
  | correct {stage : PairStage} {wake : Wake} {t : PairTask} {k position : Nat} {pair : Pair} {c : DeviceCall}
      {calls : List DeviceCall} (hg : Gets t k pair stage wake) :
      Deed here port recorded stage wake none none (.rest (.correcting t k position pair c calls))
  | deliver {stage : PairStage} {wake : Wake} {t : PairTask} {k : Nat} {pair : Pair} (hg : Gets t k pair stage wake)
      (hr : recorded t k pair) : Deed here port recorded stage wake none none (.go (.next t (k + 1)))
  | lose {stage : PairStage} {wake : Wake} {t : PairTask} {k : Nat} {pair : Pair} (hg : Gets t k pair stage wake) :
      Deed here port recorded stage wake none none (.go (.settling t.request))
  | settle {wake : Wake} {r : EntanglementRequest} :
      Deed here port recorded (.settling r) wake none none (.go .idle)

/-- The work of a step and the deed that it is. -/
def Does (w w' : Working (Node n m) n m) (stage : PairStage) (wake : Wake) (flow : Step m) : Prop :=
  ∃ took told, Exchanges took told w w' ∧
    Deed w.part.id (fun r => w.part.ports.links.get? r) (Records w'.part) stage wake took told flow

variable {w : Working (Node n m) n m}

theorem tell_ends (remote : Int) (message : PeerMessage) : Ends (tell remote message) w fun _ w' =>
    ∃ j, peer? w.part.id remote = some j ∧ Exchanges none (some (j, message)) w w' := by
  refine .part ?_
  dsimp only
  split
  · rename_i j hj
    intro _ w' he
    obtain ⟨-, rfl⟩ := Prod.mk.inj he
    exact ⟨j, hj, loud_push_of rfl, rfl, rfl, rfl⟩
  · exact .fail _

theorem nextMessage_ends (remote : Int) : Ends (nextMessage remote) w fun message w' =>
    match message with
    | none => Mute w w'
    | some message => ∃ j, peer? w.part.id remote = some j ∧ Exchanges (some (j, message)) none w w' := by
  refine .part ?_
  split
  · exact .fail _
  · rename_i j hj
    rcases hc : w.part.service.inbound.get j with ⟨latency, items, waiters, sent⟩
    cases items with
    | nil =>
      refine .modifyPart (.pure ⟨by simp [loud], rfl, rfl, ?_⟩)
      change w.part.service.inbound.set j ⟨latency, [], waiters, sent⟩ j.isLt = _
      rw [← hc]
      exact Vector.set_getElem_self _
    | cons message items =>
      refine .modifyPart (.pure ⟨j, hj, by simp [loud], rfl, rfl, ⟨latency, items, waiters, sent⟩, hc, rfl⟩)

private theorem readArguments_request (r : EntanglementRequest) :
    Yields (fun t => t.request = r) (readArguments r : NodeWork n m PairTask) := by
  unfold readArguments
  refine .bind fun mem => .bind fun kind => .bind fun count => ?_
  dsimp only
  split
  · refine .bind fun _ => .bind fun _ => .bind fun _ => .bind fun _ => .bind fun _ => .bind fun _ => .bind fun _ => ?_
    refine .pure ?_
    rfl
  · exact .fail _

theorem beginCreate_deed {w₀ : Working (Node n m) n m} (h₀ : Mute w₀ w) (r : EntanglementRequest)
    (hr : r.role = .create) (wake : Wake) : Ends (beginCreate r) w fun flow w' => Does w₀ w' .idle wake flow := by
  refine (requireSocket_mild r).calm.mute.next fun _ w₁ h₁ => service_mild.calm.mute.next fun s w₂ h₂ => ?_
  have h₂ : Mute w₀ w₂ := (h₀.mute h₁).mute h₂
  split
  · refine .bind <| (tell_ends _ _).mono fun _ w₃ ⟨j, hj, h₃⟩ => .pure ?_
    exact ⟨_, _, h₂.tells h₃, .offer hr (fun _ (h : none = some _) => nomatch h) (h₂.id ▸ hj)⟩
  · refine .bind fun task w₃ ht => ?_
    have h₃ : Mute w₀ w₃ := h₂.mute ((readArguments_mild r).still.of_exec ht).toCalm.mute
    have htask := readArguments_request r w₂ task w₃ ht
    dsimp only
    refine .bind <| (tell_ends _ _).mono fun _ w₄ ⟨j, hj, h₄⟩ => .pure ?_
    refine ⟨_, _, h₃.tells h₄, .offer hr (fun t (h : some task = some t) => ?_) (h₃.id ▸ hj)⟩
    cases h
    exact htask

theorem takeReply_stage (r : EntanglementRequest) (task : Option PairTask) (reply : PeerMessage) :
    Yields (fun flow => (∀ socket count wanted, reply ≠ .descriptor socket count wanted) ∧
      flow = .go (r.concluded task reply)) (takeReply r task reply : NodeWork n m (Step m)) := by
  unfold takeReply
  split
  · exact .fail _
  · rename_i hd
    exact .bind fun _ => .pure ⟨fun socket count wanted h => hd socket count wanted h, rfl⟩
  · exact .bind fun _ => .bind fun _ => .ite (.bind fun _ => .bind fun _ => .pure ⟨(fun _ _ _ h => nomatch h), rfl⟩)
      (.bind fun _ => .pure ⟨(fun _ _ _ h => nomatch h), rfl⟩)
  · exact .bind fun _ => .pure ⟨(fun _ _ _ h => nomatch h), rfl⟩

theorem awaitReply_deed (p : ProcessId) (r : EntanglementRequest) (task : Option PairTask) (wake : Wake) :
    Ends (awaitReply p r task) w fun flow w' => Does w w' (.awaitingReply r task) wake flow := by
  refine .bind <| (nextMessage_ends _).mono fun message w₁ h₁ => ?_
  cases message with
  | none => exact (waitForNews_still p).calm.mute.next fun _ w₂ h₂ => .pure ⟨_, _, h₁.mute h₂, .awaitReply⟩
  | some reply =>
    obtain ⟨j, hj, h₁⟩ := h₁
    intro flow w₂ he
    obtain ⟨hm, rfl⟩ := takeReply_stage r task reply w₁ flow w₂ he
    exact ⟨_, _, h₁.calm ((takeReply_still r task reply).of_exec he).toCalm, .conclude hj hm⟩

theorem takeDescriptor_deed {w₀ : Working (Node n m) n m} (r : EntanglementRequest) (message : PeerMessage)
    {j : Fin n} (hj : peer? w₀.part.id r.remote = some j) (h₀ : Exchanges (some (j, message)) none w₀ w) (wake : Wake) :
    Ends (takeDescriptor r message) w fun flow w' => Does w₀ w' (.awaitingDescriptor r) wake flow := by
  have htell : ∀ {w₁ reply}, Mute w w₁ → Ends (tell r.remote reply) w₁ fun _ w' =>
      Exchanges (some (j, message)) (some (j, reply)) w₀ w' := fun {w₁ reply} h₁ =>
    (tell_ends _ _).mono fun _ w₂ ⟨j', hj', h₂⟩ => by
      rw [h₁.id, h₀.id, hj] at hj'
      cases hj'
      exact (h₀.mute h₁).tells h₂
  have hsocket : ∀ socket, Ends (requireSameSocket r socket : NodeWork n m Unit) w fun _ w' =>
      socket = r.socket ∧ Mute w w' := fun socket => by
    unfold requireSameSocket
    split
    · rename_i h
      exact .pure ⟨h, .refl w⟩
    · exact .fail _
  cases message with
  | acknowledge socket => exact .fail _
  | cancel socket =>
    refine .bind <| (hsocket socket).mono fun _ w₁ ⟨hs, h₁⟩ => .bind <| (htell h₁).mono fun _ w₂ h₂ => ?_
    subst hs
    exact (log_mild _ _ _).calm.mute.next fun _ w₃ h₃ => (markAborted_still _).calm.mute.next fun _ w₄ h₄ =>
      .pure ⟨_, _, (h₂.mute h₃).mute h₄, .decline hj⟩
  | descriptor socket count wanted =>
    refine .bind <| (hsocket socket).mono fun _ w₁ ⟨hs, h₁⟩ => service_mild.calm.mute.next fun _ w₂ h₂ => ?_
    subst hs
    split
    · exact .bind <| (htell (h₁.mute h₂)).mono fun _ w₃ h₃ => (log_mild _ _ _).calm.mute.next fun _ w₄ h₄ =>
        .pure ⟨_, _, h₃.mute h₄, .refuse hj⟩
    · exact .bind <| (htell (h₁.mute h₂)).mono fun _ w₃ h₃ => (log_mild _ _ _).calm.mute.next fun _ w₄ h₄ =>
        .pure ⟨_, _, h₃.mute h₄, .accept hj⟩

theorem awaitDescriptor_deed (p : ProcessId) (r : EntanglementRequest) (wake : Wake) :
    Ends (awaitDescriptor p r) w fun flow w' => Does w w' (.awaitingDescriptor r) wake flow := by
  refine .bind <| (nextMessage_ends _).mono fun message w₁ h₁ => ?_
  cases message with
  | some message =>
    obtain ⟨j, hj, h₁⟩ := h₁
    exact takeDescriptor_deed r message hj h₁ wake
  | none =>
    refine service_mild.calm.mute.next fun _ w₂ h₂ => ?_
    have h₂ : Mute w w₂ := h₁.mute h₂
    split
    · exact (waitForNews_still p).calm.mute.next fun _ w₃ h₃ => .pure ⟨_, _, h₂.mute h₃, .awaitDescriptor⟩
    · exact (log_mild _ _ _).calm.mute.next fun _ w₃ h₃ => .pure ⟨_, _, h₂.mute h₃, .drop⟩

theorem linkCall_ends (role : PairRole) (remote : Int) (request : PairRequest) (position : Nat) :
    Ends (linkCall role remote request position) w fun x _ => w.part.ports.links.get? remote = some (x.1, x.2.1) ∧
      x.2.2.role = role ∧ (x.2.2.role = .create → x.2.2.request = request) := by
  refine .part ?_
  split
  · exact .fail _
  · rename_i l e hl
    cases role with
    | create =>
      refine .setPart ?_
      split
      · exact .emit (.ofExcept fun q _ => .pure ⟨hl, rfl, fun _ => rfl⟩)
      · exact .ofExcept fun q _ => .pure ⟨hl, rfl, fun _ => rfl⟩
    | receive => exact .setPart (.ofExcept fun q _ => .pure ⟨hl, rfl, fun h => nomatch h⟩)

theorem modifyService_mute {f : PairService n ProcessId → PairService n ProcessId}
    (hf : ∀ s, (f s).inbound = s.inbound) : Within Mute (modifyService f : NodeWork n m Unit) :=
  fun w => ⟨by simp [loud, modifyService], rfl, rfl, hf w.part.service⟩

private theorem beginCall_mute (r : EntanglementRequest) :
    Within Mute (modifyService fun s => { s with linkCalls := s.linkCalls + 1, inFlight := some (r.app, r.remote) } :
      NodeWork n m Unit) :=
  modifyService_mute (f := fun s => { s with linkCalls := s.linkCalls + 1, inFlight := some (r.app, r.remote) })
    fun _ => rfl

private theorem endCall_mute : Within Mute (modifyService fun s => { s with inFlight := none } : NodeWork n m Unit) :=
  modifyService_mute (f := fun s => { s with inFlight := none }) fun _ => rfl

theorem tryPair_deed {w₀ : Working (Node n m) n m} (h₀ : Mute w₀ w) (p : ProcessId) {t : PairTask} {k : Nat}
    {stage : PairStage} (hs : Asks t k stage) (wake : Wake) :
    Ends (tryPair p t k) w fun flow w' => Does w₀ w' stage wake flow := by
  refine service_mild.calm.mute.next fun _ w₁ h₁ => ?_
  have h₁ : Mute w₀ w₁ := h₀.mute h₁
  split
  · exact (log_mild _ _ _).calm.mute.next fun _ w₂ h₂ => .pure ⟨_, _, h₁.mute h₂, .abandon hs⟩
  · refine .attempt (fun position w₂ h₂ => ?_) fun e w₂ h₂ => ?_
    · have h₂ : Mute w₀ w₂ := h₁.calm (allocateCommunication_pooling.of_exec h₂)
      refine (beginCall_mute t.request).next fun _ w₃ h₃ => (log_mild _ _ _).calm.mute.next fun _ w₄ h₄ => ?_
      have h₄ : Mute w₀ w₄ := (h₂.mute h₃).mute h₄
      refine .bind fun x w₅ he => ?_
      obtain ⟨l, e, c⟩ := x
      obtain ⟨hl, hr, hc⟩ := linkCall_ends _ _ _ _ _ _ he
      rw [h₄.links] at hl
      exact .pure ⟨_, _, h₄.calm ((linkCall_mild _ _ _ _).still.of_exec he).toCalm, .ask hs hl hr hc⟩
    · have h₂ : Mute w₀ w₂ := h₁.calm (allocateCommunication_pooling.of_exec h₂)
      exact countWait_still.calm.mute.next fun _ w₃ h₃ => (log_mild _ _ _).calm.mute.next fun _ w₄ h₄ =>
        (waitForFree_still p).calm.mute.next fun _ w₅ h₅ => .pure ⟨_, _, ((h₂.mute h₃).mute h₄).mute h₅, .starve hs⟩

theorem beginPair_deed (p : ProcessId) (t : PairTask) (k : Nat) (wake : Wake) :
    Ends (beginPair p t k) w fun flow w' => Does w w' (.next t k) wake flow := by
  unfold beginPair
  split
  · rename_i hk
    exact (log_mild _ _ _).calm.mute.next fun _ w₁ h₁ => tryPair_deed h₁ p (.next hk) wake
  · rename_i hk
    exact .pure ⟨_, _, Mute.refl w, .complete (by omega)⟩

theorem takeRefusal_deed {w₀ : Working (Node n m) n m} (h₀ : Mute w₀ w) (t : PairTask) (k position : Nat)
    (cause : LinkRefusal) (kind : PairKind) : Ends (takeRefusal t k position cause) w fun flow w' =>
      Does w₀ w' (.linking t k position) (.answer (.refused cause kind)) flow := by
  refine (freeQubit_pooling position).mute.next fun _ w₁ h₁ => ?_
  have h₁ : Mute w₀ w₁ := h₀.mute h₁
  have hrest : ∀ w₂, Mute w₀ w₂ → Ends (do
      notifyArrayWritten
      return Flow.go (.settling t.request) : NodeWork n m (Step m)) w₂
        fun flow w' => Does w₀ w' (.linking t k position) (.answer (.refused cause kind)) flow :=
    fun w₂ h₂ => notifyArrayWritten_still.calm.mute.next fun _ w₃ h₃ => .pure ⟨_, _, h₂.mute h₃, .yield⟩
  dsimp only
  split
  · exact (log_mild _ _ _).calm.mute.next fun _ w₂ h₂ => (setAborted_still _).calm.mute.next fun _ w₃ h₃ =>
      hrest w₃ ((h₁.mute h₂).mute h₃)
  · exact (log_mild _ _ _).calm.mute.next fun _ w₂ h₂ => (markFailed_blaming _ : Within Still _).calm.mute.next fun _ w₃ h₃ =>
      hrest w₃ ((h₁.mute h₂).mute h₃)

private theorem log_apps (level : LogLevel) (kind text : String) :
    Within (fun w w' => w'.part.apps = w.part.apps) (Node.log level kind text : NodeWork n m Unit) := fun _ => rfl

private theorem wakeAll_apps (ps : List ProcessId) (w : Working (Node n m) n m) :
    ((wakeAll ps).exec w).2.part.apps = w.part.apps := by
  induction ps generalizing w with
  | nil => rfl
  | cons p ps ih =>
    change ((resume p .go >>= fun _ => wakeAll ps).exec w).2.part.apps = _
    rw [exec_bind]
    exact ih { w with effects := w.effects.push (.resume 0 p .go) }

theorem finishPair_deed {w₀ : Working (Node n m) n m} (h₀ : Mute w₀ w) {t : PairTask} {k : Nat} {pair : Pair}
    {stage : PairStage} {wake : Wake} (hg : Gets t k pair stage wake) (virt : Option Int) :
    Ends (finishPair t k pair virt) w fun flow w' => Does w₀ w' stage wake flow := by
  refine .bind fun mem w₁ hmem => ?_
  have hsome : (w₁.part.apps.get? t.request.app).isSome := by
    simp only [memory, exec_bind, exec_part] at hmem
    split at hmem
    · rename_i happ
      obtain ⟨-, rfl⟩ := Prod.mk.inj hmem
      rw [happ]
      rfl
    · cases hmem
  have h₁ : Mute w₀ w₁ := h₀.calm ((memory_mild _).still.of_exec hmem).toCalm
  refine .bind fun _ w₂ hw => ?_
  obtain ⟨mem₂, hmem₂, hrow⟩ := writeRow_ends t.request k (length_resultRow _ _ _) hsome _ w₂ hw
  have h₂ : Mute w₀ w₂ := h₁.calm ((writeRow_noting _ _ _ _).still.of_exec hw).toCalm
  refine .bind fun _ w₃ hlog => ?_
  have happs₃ : w₃.part.apps = w₂.part.apps := (log_apps _ _ _).of_exec hlog
  have h₃ : Mute w₀ w₃ := h₂.calm ((log_mild _ _ _).still.of_exec hlog).toCalm
  refine .bind fun _ w₄ hnotify => .pure ?_
  have happs₄ : w₄.part.apps = w₃.part.apps := by
    obtain ⟨-, rfl⟩ := Prod.mk.inj hnotify
    exact wakeAll_apps w₃.part.arrayWritten.waiters _
  refine ⟨_, _, h₃.calm (notifyArrayWritten_still.of_exec hnotify).toCalm, .deliver hg ⟨mem₂, virt, ?_, hrow⟩⟩
  rw [happs₄, happs₃]
  exact hmem₂

theorem keepHalf_deed {w₀ : Working (Node n m) n m} (h₀ : Mute w₀ w) {t : PairTask} {k : Nat} {pair : Pair}
    {stage : PairStage} {wake : Wake} (hg : Gets t k pair stage wake) (position : Nat) :
    Ends (keepHalf t k position pair) w fun flow w' => Does w₀ w' stage wake flow := by
  refine .part ?_
  split
  · refine (memory_mild _).calm.mute.next fun mem w₁ h₁ => .ofExcept fun virt _ => ?_
    split
    · exact .fail _
    · exact (mapQubit_housing _ _).mute.next fun _ w₂ h₂ => (log_mild _ _ _).calm.mute.next fun _ w₃ h₃ =>
        finishPair_deed (((h₀.mute h₁).mute h₂).mute h₃) hg _
  · exact (freeQubit_pooling position).mute.next fun _ w₁ h₁ => .pure ⟨_, _, h₀.mute h₁, .lose hg⟩

theorem dropHalf_deed {w₀ : Working (Node n m) n m} (h₀ : Mute w₀ w) {t : PairTask} {k : Nat} {pair : Pair}
    {stage : PairStage} {wake : Wake} (hg : Gets t k pair stage wake) (position : Nat) :
    Ends (dropHalf t k position pair) w fun flow w' => Does w₀ w' stage wake flow := by
  refine (freeQubit_pooling position).mute.next fun _ w₁ h₁ => .part ?_
  split
  · exact finishPair_deed (h₀.mute h₁) hg none
  · exact .pure ⟨_, _, h₀.mute h₁, .lose hg⟩

theorem correct_deed {w₀ : Working (Node n m) n m} (h₀ : Mute w₀ w) (p : ProcessId) {t : PairTask} {k : Nat}
    {pair : Pair} {stage : PairStage} {wake : Wake} (hg : Gets t k pair stage wake) (position : Nat)
    (calls : List DeviceCall) :
    Ends (correct p t k position pair calls) w fun flow w' => Does w₀ w' stage wake flow := by
  cases calls with
  | nil => exact keepHalf_deed h₀ hg position
  | cons c calls => exact (startGate_mild p c).calm.mute.next fun _ w₁ h₁ => .pure ⟨_, _, h₀.mute h₁, .correct hg⟩

theorem takeAnswer_deed (p : ProcessId) (t : PairTask) (k position : Nat) (answer : LinkAnswer) :
    Ends (takeAnswer p t k position answer) w fun flow w' =>
      Does w w' (.linking t k position) (.answer answer) flow := by
  refine endCall_mute.next fun _ w₁ h₁ => ?_
  cases answer with
  | refused cause kind => exact takeRefusal_deed h₁ t k position cause kind
  | pair pair =>
    refine (log_mild _ _ _).calm.mute.next fun _ w₂ h₂ => ?_
    have h₂ : Mute w w₂ := h₁.mute h₂
    have hg : Gets t k pair (.linking t k position) (.answer (.pair pair)) := .answered position
    split
    · exact correct_deed h₂ p hg position _
    · exact keepHalf_deed h₂ hg position
    · exact dropHalf_deed h₂ hg position

theorem beginRequest_deed {w₀ : Working (Node n m) n m} (h₀ : Mute w₀ w) (r : EntanglementRequest) (wake : Wake) :
    Ends (beginRequest r) w fun flow w' => Does w₀ w' .idle wake flow := by
  refine (log_mild _ _ _).calm.mute.next fun _ w₁ h₁ => ?_
  have h₁ : Mute w₀ w₁ := h₀.mute h₁
  split
  · rename_i hr
    exact beginCreate_deed h₁ r hr wake
  · rename_i hr
    exact (requireSocket_mild r).calm.mute.next fun _ w₂ h₂ => .pure ⟨_, _, h₁.mute h₂, .attend hr⟩

theorem awaitRequest_deed (p : ProcessId) (wake : Wake) :
    Ends (awaitRequest p) w fun flow w' => Does w w' .idle wake flow := by
  refine service_mild.calm.mute.next fun s w₁ h₁ => ?_
  rcases s.requests.receive p with ⟨r, c⟩
  refine (modifyService_mute (f := fun s => { s with requests := c }) fun _ => rfl).next fun _ w₂ h₂ => ?_
  cases r with
  | some r => exact beginRequest_deed (h₁.mute h₂) r wake
  | none => exact .pure ⟨_, _, h₁.mute h₂, .idle⟩

private theorem settle_flow (r : EntanglementRequest) :
    Yields (fun flow => flow = .go .idle) (settle r : NodeWork n m (Step m)) :=
  .bind fun _ => .bind fun _ => .pure rfl

/-- Every step of a pair service is one of its deeds. -/
theorem step_deed (p : ProcessId) (stage : PairStage) (wake : Wake) :
    Ends (step p stage wake) w fun flow w' => Does w w' stage wake flow := by
  unfold step
  split
  · exact beginRequest_deed (.refl w) _ _
  · exact awaitRequest_deed p _
  · exact awaitReply_deed p _ _ _
  · exact awaitDescriptor_deed p _ _
  · exact beginPair_deed p _ _ _
  · exact (log_mild _ _ _).calm.mute.next fun _ w₁ h₁ => tryPair_deed h₁ p .starving _
  · exact takeAnswer_deed p _ _ _ _
  · rename_i h
    exact .pure ⟨_, _, Mute.refl w, .bide fun a ha => h a ha⟩
  · exact (finishCall_mild _).calm.mute.next fun _ w₁ h₁ => correct_deed h₁ p (.corrected ..) _ _
  · intro flow w' he
    obtain rfl := settle_flow _ w flow w' he
    exact ⟨_, _, ((settle_rousing _).still.of_exec he).toCalm.mute, .settle⟩

end Pairing

/-- The request that a pair service serves. -/
def PairStage.request? : PairStage → Option EntanglementRequest
  | .awaitingReply r _ | .awaitingDescriptor r | .settling r => some r
  | .next t _ | .starving t _ | .linking t .. | .correcting t .. => some t.request
  | .idle => none

/-- What a stage says about its request. -/
def PairStage.Sound : PairStage → Prop
  | .awaitingReply r task => r.role = .create ∧ ∀ t, task = some t → t.request = r
  | .awaitingDescriptor r => r.role = .receive
  | .starving t k | .linking t k _ | .correcting t k .. => (k : Int) < t.count
  | _ => True

namespace Pairing

section

variable {here : Fin n} {port : Int → Option (Fin m × LinkEnd)} {recorded : PairTask → Nat → Pair → Prop}
  {stage : PairStage} {wake : Wake} {took told : Option (Fin n × PeerMessage)} {flow : Step m}

theorem Asks.sound {t : PairTask} {k : Nat} (h : Asks t k stage) (hs : stage.Sound) : (k : Int) < t.count := by
  cases h with
  | next h => exact h
  | starving => exact hs

theorem Gets.sound {t : PairTask} {k : Nat} {pair : Pair} (h : Gets t k pair stage wake) (hs : stage.Sound) :
    (k : Int) < t.count := by
  cases h with
  | answered position => exact hs
  | corrected position c calls wake => exact hs

theorem Deed.sound (h : Deed here port recorded stage wake took told flow) (hs : stage.Sound) : flow.stage.Sound := by
  cases h with
  | attend hr => exact hr
  | offer hr ht hj => exact ⟨hr, ht⟩
  | awaitReply => exact hs
  | @conclude _ r task j message hj hm =>
    unfold EntanglementRequest.concluded
    split
    · trivial
    · trivial
  | awaitDescriptor => exact hs
  | starve ha => exact ha.sound hs
  | ask ha hl hr hc => exact ha.sound hs
  | bide ha => exact hs
  | correct hg => exact hg.sound hs
  | _ => trivial

theorem Asks.request {t : PairTask} {k : Nat} (h : Asks t k stage) : stage.request? = some t.request := by
  cases h with
  | next h => rfl
  | starving => rfl

theorem Gets.request {t : PairTask} {k : Nat} {pair : Pair} (h : Gets t k pair stage wake) :
    stage.request? = some t.request := by
  cases h with
  | answered position => rfl
  | corrected position c calls wake => rfl

theorem concluded_request (r : EntanglementRequest) (task : Option PairTask) (message : PeerMessage)
    (ht : ∀ t, task = some t → t.request = r) : (r.concluded task message).request? = some r := by
  unfold EntanglementRequest.concluded
  split
  · rename_i t socket
    exact congrArg some (ht t rfl)
  · rfl

/-- A request is served until it is settled. -/
theorem Deed.serves (h : Deed here port recorded stage wake took told flow) (hs : stage.Sound) :
    stage = .idle ∨ (∃ r, stage = .settling r ∧ flow = .go .idle) ∨ flow.stage.request? = stage.request? := by
  cases h with
  | idle => exact .inl rfl
  | attend hr => exact .inl rfl
  | offer hr ht hj => exact .inl rfl
  | conclude hj hm => exact .inr (.inr (concluded_request _ _ _ hs.2))
  | abandon ha => exact .inr (.inr ha.request.symm)
  | starve ha => exact .inr (.inr ha.request.symm)
  | ask ha hl hr hc => exact .inr (.inr ha.request.symm)
  | correct hg => exact .inr (.inr hg.request.symm)
  | deliver hg hr => exact .inr (.inr hg.request.symm)
  | lose hg => exact .inr (.inr hg.request.symm)
  | settle => exact .inr (.inl ⟨_, rfl, rfl⟩)
  | _ => exact .inr (.inr rfl)

/-- Where a pair service serves a request before and after a deed, it is the same. -/
theorem Deed.request (h : Deed here port recorded stage wake took told flow) (hs : stage.Sound) :
    stage.request? = none ∨ flow.stage.request? = none ∨ flow.stage.request? = stage.request? := by
  rcases h.serves hs with rfl | ⟨r, rfl, rfl⟩ | hsame
  · exact .inl rfl
  · exact .inr (.inl rfl)
  · exact .inr (.inr hsame)

theorem concluded_ne_linking (r : EntanglementRequest) (task : Option PairTask) (message : PeerMessage) (t : PairTask)
    (k position : Nat) : r.concluded task message ≠ .linking t k position := by
  unfold EntanglementRequest.concluded
  split
  · exact nofun
  · exact nofun

/-- A pair service that waits for a link goes on waiting, or is answered; no other comes to wait without asking. -/
theorem Deed.linking (h : Deed here port recorded stage wake took told flow) (hf : flow.asks = false) :
    (∃ t k position, stage = .linking t k position ∧ flow = .rest stage ∧ took = none ∧ told = none ∧
      ∀ a, wake ≠ .answer a) ∨
    ((∀ t k position, flow.stage ≠ .linking t k position) ∧
      ∀ t k position, stage = .linking t k position → ∃ a, wake = .answer a) := by
  have hasks : ∀ {t : PairTask} {k : Nat} {stage : PairStage}, Asks t k stage → ∀ t k position,
      stage ≠ .linking t k position := by
    intro t k stage h
    cases h with
    | next h => exact fun _ _ _ hs => nomatch hs
    | starving => exact fun _ _ _ hs => nomatch hs
  have hgets : ∀ {t : PairTask} {k : Nat} {pair : Pair}, Gets t k pair stage wake → ∀ t k position,
      stage = .linking t k position → ∃ a, wake = .answer a := by
    intro t k pair h t' k' position' hs
    cases h with
    | answered position => exact ⟨_, rfl⟩
    | corrected position c calls wake => exact nomatch hs
  cases h with
  | bide ha => exact .inl ⟨_, _, _, rfl, rfl, rfl, rfl, ha⟩
  | ask ha hl hr hc => exact nomatch hf
  | conclude hj hm => exact .inr ⟨concluded_ne_linking _ _ _, fun _ _ _ hs => nomatch hs⟩
  | yield => exact .inr ⟨(fun _ _ _ hs => nomatch hs), fun _ _ _ _ => ⟨_, rfl⟩⟩
  | correct hg => exact .inr ⟨(fun _ _ _ hs => nomatch hs), hgets hg⟩
  | deliver hg hr => exact .inr ⟨(fun _ _ _ hs => nomatch hs), hgets hg⟩
  | lose hg => exact .inr ⟨(fun _ _ _ hs => nomatch hs), hgets hg⟩
  | abandon ha => exact .inr ⟨(fun _ _ _ hs => nomatch hs), fun t k position hs => absurd hs (hasks ha t k position)⟩
  | starve ha => exact .inr ⟨(fun _ _ _ hs => nomatch hs), fun t k position hs => absurd hs (hasks ha t k position)⟩
  | _ => exact .inr ⟨(fun _ _ _ hs => nomatch hs), fun _ _ _ hs => nomatch hs⟩

/-- Only a pair service that looks for a slot comes to starve. -/
theorem Deed.starving (h : Deed here port recorded stage wake took told flow) {t : PairTask} {k : Nat}
    (hf : flow.stage = .starving t k) : Asks t k stage := by
  cases h with
  | @conclude _ r task j message hj hm =>
    change r.concluded task message = _ at hf
    unfold EntanglementRequest.concluded at hf
    split at hf
    · exact nomatch hf
    · exact nomatch hf
  | starve hs =>
    cases hf
    exact hs
  | _ => exact nomatch hf

/-- Only a pair that is delivered leads on to the next one. -/
theorem Deed.delivered (h : Deed here port recorded stage wake took told flow) {t : PairTask} {k : Nat}
    (hf : flow = .go (.next t (k + 1))) : ∃ pair, Gets t k pair stage wake ∧ recorded t k pair := by
  cases h with
  | @conclude _ r task j message hj hm =>
    unfold EntanglementRequest.concluded at hf
    split at hf
    · injection hf with hf
      injection hf with _ hk
      exact nomatch hk
    · exact nomatch hf
  | accept hj =>
    injection hf with hf
    injection hf with _ hk
    exact nomatch hk
  | deliver hg hr =>
    cases hf
    exact ⟨_, hg, hr⟩
  | _ => exact nomatch hf

end

end Pairing

end QuantumNode
