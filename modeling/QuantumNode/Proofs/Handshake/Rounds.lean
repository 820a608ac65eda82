import QuantumNode.Proofs.Handshake.Agreement

/-! Handshakes between a node that only creates for another and a node that only receives from it: they pass in
rounds of one offer, one reply and one verdict. -/
namespace QuantumNode

open Work Working

variable {n m : Nat}

/-- The replies of a receive to what a create sends, and the offer on which both go on, if they do. -/
inductive PeerMessage.Replies : PeerMessage → PeerMessage → Option Offer → Prop where
  | declined (socket : Int) : Replies (.cancel socket) (.acknowledge socket) none
  | refused (socket : Int) (o : Offer) : Replies (.descriptor socket o.count o.wanted) (.cancel socket) none
  | accepted (socket : Int) (o : Offer) : Replies (.descriptor socket o.count o.wanted) (.acknowledge socket) (some o)

/-- The offer of the pairs at which a pair service is. -/
def PairStage.entered (stage : PairStage) : Option Offer := stage.task?.map (·.1.offer)

/-- What one pair service exchanges with another in one step: the request that it serves, what it takes and tells,
and the offer whose pairs it goes on to. -/
structure Exchange (n : Nat) where
  node : Fin n
  request : Option EntanglementRequest
  took : Option PeerMessage
  told : Option PeerMessage
  entered : Option Offer

/-- How far a handshake has come. -/
inductive RoundPhase where
  | closed
  /-- A create has sent a message for which it wants a reply. -/
  | opened (r : EntanglementRequest) (m : PeerMessage)
  /-- The reply, and the offer on which the receive has gone on. -/
  | replied (r : EntanglementRequest) (reply : PeerMessage) (entered : Option Offer)

/-- The exchanges between a node that creates and a node that receives, latest first, come in rounds. A create sends a
message, one receive takes it and replies, and the same create takes the reply; both go on to the pairs of one offer, or
neither does. -/
inductive Rounds (a b : Fin n) : RoundPhase → List (Exchange n) → Prop where
  | none : Rounds a b .closed []
  | opened {past : List (Exchange n)} {r : EntanglementRequest} {m : PeerMessage} {o : Option Offer}
      (h : Rounds a b .closed past) (hr : r.role = .create) (hm : m.Opens o) :
      Rounds a b (.opened r m) (⟨a, some r, .none, some m, .none⟩ :: past)
  | replied {past : List (Exchange n)} {r r' : EntanglementRequest} {m reply : PeerMessage} {o : Option Offer}
      (h : Rounds a b (.opened r m) past) (hr : r'.role = .receive) (hm : m.Replies reply o) :
      Rounds a b (.replied r reply o) (⟨b, some r', some m, some reply, o⟩ :: past)
  | closed {past : List (Exchange n)} {r : EntanglementRequest} {reply : PeerMessage} {o : Option Offer}
      (h : Rounds a b (.replied r reply o) past) : Rounds a b .closed (⟨a, some r, some reply, .none, o⟩ :: past)

/-! Exchanges of a run. -/

/-- What is said with a given peer. -/
def PeerMessage.with (j : Fin n) (x : Option (Fin n × PeerMessage)) : Option PeerMessage :=
  x.bind fun (b, message) => if b = j then some message else none

theorem PeerMessage.with_self (j : Fin n) (message : PeerMessage) :
    PeerMessage.with j (some (j, message)) = some message := if_pos rfl

theorem PeerMessage.with_of_ne {b j : Fin n} (h : b ≠ j) (message : PeerMessage) :
    PeerMessage.with j (some (b, message)) = none := if_neg h

/-- What a pair service exchanges with a peer, if anything. -/
def Exchange.of? (i : Fin n) (took told : Option PeerMessage) (stage : PairStage) : Option (Exchange n) :=
  if took.isNone && told.isNone then none else some ⟨i, stage.request?, took, told, stage.entered⟩

def Effect.told? (j : Fin n) : Effect n m → Option PeerMessage
  | .tell _ target message => if target = j then some message else none
  | _ => none

namespace Working

/-- The message that has been taken from a peer. -/
def took? (w w' : Working (Node n m) n m) (j : Fin n) : Option PeerMessage :=
  let items := (w.part.service.inbound.get j).items
  if (w'.part.service.inbound.get j).items.length < items.length then items.head? else none

/-- The message that has been told a peer. -/
def told? (w : Working (Node n m) n m) (j : Fin n) : Option PeerMessage := (w.effects.toList.filterMap (·.told? j)).head?

variable {w w' : Working (Node n m) n m} {took told : Option (Fin n × PeerMessage)}

theorem Exchanges.took?_eq (h : Exchanges took told w w') (j : Fin n) : w.took? w' j = PeerMessage.with j took := by
  have hin := h.inbound
  unfold took?
  cases took with
  | none =>
    dsimp only at hin
    rw [hin, if_neg (Nat.lt_irrefl _)]
    rfl
  | some x =>
    obtain ⟨b, message⟩ := x
    obtain ⟨c, hc, hset⟩ := hin
    have hwith : PeerMessage.with j (some (b, message)) = if b = j then some message else none := rfl
    rw [hset, vector_get_set, hwith]
    by_cases hb : b = j
    · subst hb
      rw [if_pos rfl, if_pos rfl, hc]
      exact if_pos (Nat.lt_succ_self _)
    · rw [if_neg (Ne.symm hb), if_neg hb]
      exact if_neg (Nat.lt_irrefl _)

theorem Exchanges.told?_eq (h : Exchanges took told w w') (hw : w.loud = []) (j : Fin n) :
    w'.told? j = PeerMessage.with j told := by
  have hquiet : ∀ e : Effect n m, (if e.isLoud then e.told? j else none) = e.told? j := fun e => by
    cases e with
    | tell => rfl
    | _ => exact ite_self _
  have hloud : w'.effects.toList.filterMap (·.told? j) = w'.loud.filterMap (·.told? j) := by
    rw [Working.loud, List.filterMap_filter]
    exact congrArg (fun f => w'.effects.toList.filterMap f) (funext hquiet).symm
  unfold told?
  rw [hloud, h.loud, hw, List.nil_append]
  cases told with
  | none => rfl
  | some x =>
    obtain ⟨b, message⟩ := x
    have htold : (Effect.tell w.part.id b message : Effect n m).told? j = if b = j then some message else none := rfl
    have hwith : PeerMessage.with j (some (b, message)) = if b = j then some message else none := rfl
    rw [hwith, ← htold]
    change ([Effect.tell w.part.id b message].filterMap (·.told? j)).head? = _
    cases hx : (Effect.tell w.part.id b message : Effect n m).told? j with
    | none => rw [List.filterMap_cons_none hx, List.filterMap_nil, List.head?_nil]
    | some y => rw [List.filterMap_cons_some hx, List.head?_cons]

end Working

namespace Network

variable {s : Network n m} {a b i j : Fin n}

/-- What the pair service of a node is about to exchange with a peer. -/
def exchangeWith? (s : Network n m) (i j : Fin n) : Option (Exchange n) :=
  match s.current, s.processes.get? (pairId i) with
  | some (p, wake), some ⟨_, .pairing k stage⟩ =>
    if p = pairId i ∧ k = i then
      match (Pairing.step p stage wake).exec (s.working i) with
      | (.ok flow, w) => Exchange.of? i ((s.working i).took? w j) (w.told? j) flow.stage
      | (.error _, _) => none
    else none
  | _, _ => none

/-- What two nodes are about to exchange. -/
def exchange? (s : Network n m) (a b : Fin n) : Option (Exchange n) := (s.exchangeWith? a b).or (s.exchangeWith? b a)

/-- What two nodes have exchanged, latest first. -/
def exchanges (past : List (Moment n m)) (a b : Fin n) : List (Exchange n) := past.filterMap (·.state.exchange? a b)

theorem Does.exchangeWith?_eq {wake : Wake} {took told : Option (Fin n × PeerMessage)} {flow : Pairing.Step m}
    (h : s.Does i wake took told flow) (j : Fin n) :
    s.exchangeWith? i j = Exchange.of? i (PeerMessage.with j took) (PeerMessage.with j told) flow.stage := by
  obtain ⟨hc, ⟨name, hp⟩, w, hx, he⟩ := h
  unfold exchangeWith?
  rw [hc, hp]
  dsimp only
  rw [if_pos ⟨rfl, rfl⟩, hx]
  dsimp only
  rw [he.took?_eq, he.told?_eq (loud_working s i)]

theorem does_of_exchangeWith? {x : Exchange n} (h : s.exchangeWith? i j = some x) :
    ∃ wake took told flow, s.Does i wake took told flow := by
  unfold exchangeWith? at h
  split at h
  · rename_i p wake name k stage hc hp
    split at h
    · rename_i hi
      obtain ⟨rfl, rfl⟩ := hi
      split at h
      · rename_i flow w hx
        obtain ⟨took, told, he, -⟩ := Pairing.step_deed (pairId k) stage wake flow w hx
        have hstage := pairStage_eq hp
        exact ⟨wake, took, told, flow, hc, ⟨name, hstage ▸ hp⟩, w, hstage ▸ hx, he⟩
      · exact nomatch h
    · exact nomatch h
  · exact nomatch h

theorem exchangeWith?_of_silent (h : s.Does.Silent) (i j : Fin n) : s.exchangeWith? i j = none := by
  refine Option.eq_none_iff_forall_ne_some.2 fun x hx => ?_
  obtain ⟨wake, took, told, flow, hd⟩ := does_of_exchangeWith? hx
  obtain ⟨rfl, rfl⟩ := h hd
  rw [hd.exchangeWith?_eq] at hx
  exact nomatch hx

theorem Does.exchangeWith?_of_ne {wake : Wake} {took told : Option (Fin n × PeerMessage)} {flow : Pairing.Step m}
    (h : s.Does i wake took told flow) {k : Fin n} (hk : k ≠ i) (j : Fin n) : s.exchangeWith? k j = none := by
  refine Option.eq_none_iff_forall_ne_some.2 fun x hx => ?_
  obtain ⟨wake', took', told', flow', hd⟩ := does_of_exchangeWith? hx
  exact hk (h.only.2 hd).1

end Network

namespace Pairing

/-- What a deed says to a peer: the stage before it, what is taken and told, and the stage after it. -/
inductive Says (here : Fin n) : PairStage → Option (Fin n × PeerMessage) → Option (Fin n × PeerMessage) → PairStage → Prop where
  | nothing {stage stage' : PairStage}
      (h : ∀ r task, stage' = .awaitingReply r task ↔ stage = .awaitingReply r task) : Says here stage none none stage'
  | opening {r : EntanglementRequest} {task : Option PairTask} {j : Fin n} {message : PeerMessage}
      (hr : r.role = .create) (hj : peer? here r.remote = some j) (hm : message.Opens (task.map PairTask.offer)) :
      Says here .idle none (some (j, message)) (.awaitingReply r task)
  | conclusion {r : EntanglementRequest} {task : Option PairTask} {j : Fin n} {message : PeerMessage}
      (hr : r.role = .create) (hj : peer? here r.remote = some j)
      (hreq : (r.concluded task message).request? = some r) :
      Says here (.awaitingReply r task) (some (j, message)) none (r.concluded task message)
  | reply {r : EntanglementRequest} {j : Fin n} {message reply : PeerMessage} {stage' : PairStage}
      (hr : r.role = .receive) (hj : peer? here r.remote = some j) (hm : message.Replies reply stage'.entered)
      (hreq : stage'.request? = some r) (hn : ∀ r task, stage' ≠ .awaitingReply r task) :
      Says here (.awaitingDescriptor r) (some (j, message)) (some (j, reply)) stage'

section

variable {here : Fin n} {port : Int → Option (Fin m × LinkEnd)} {recorded : PairTask → Nat → Pair → Prop}
  {stage : PairStage} {wake : Wake} {took told : Option (Fin n × PeerMessage)} {flow : Step m}

theorem Asks.ne_awaitingReply {t : PairTask} {k : Nat} (h : Asks t k stage) (r : EntanglementRequest)
    (task : Option PairTask) : stage ≠ .awaitingReply r task := by
  cases h with
  | next h => exact fun hs => nomatch hs
  | starving => exact fun hs => nomatch hs

theorem Gets.ne_awaitingReply {t : PairTask} {k : Nat} {pair : Pair} (h : Gets t k pair stage wake)
    (r : EntanglementRequest) (task : Option PairTask) : stage ≠ .awaitingReply r task := by
  cases h with
  | answered position => exact fun hs => nomatch hs
  | corrected position c calls wake => exact fun hs => nomatch hs

theorem concluded_ne_awaitingReply (r : EntanglementRequest) (task : Option PairTask) (message : PeerMessage)
    (r' : EntanglementRequest) (task' : Option PairTask) : r.concluded task message ≠ .awaitingReply r' task' := by
  unfold EntanglementRequest.concluded
  split
  · exact fun hs => nomatch hs
  · exact fun hs => nomatch hs

theorem opening_opens (r : EntanglementRequest) (task : Option PairTask) :
    (r.opening task).Opens (task.map PairTask.offer) := by
  cases task with
  | none => exact .cancel _
  | some t => exact .descriptor _ t.offer

theorem Deed.said (h : Deed here port recorded stage wake took told flow) (hs : stage.Sound) :
    Says here stage took told flow.stage := by
  -- Most deeds neither begin nor end a wait for a reply.
  have hnothing : ∀ {stage'}, (∀ r task, stage ≠ .awaitingReply r task) → (∀ r task, stage' ≠ .awaitingReply r task) →
      Says here stage none none stage' := fun h h' =>
    .nothing fun r task => ⟨fun he => absurd he (h' r task), fun he => absurd he (h r task)⟩
  cases h with
  | offer hr ht hj => exact .opening hr hj (opening_opens _ _)
  | awaitReply => exact .nothing fun _ _ => .rfl
  | conclude hj hm => exact .conclusion hs.1 hj (concluded_request _ _ _ hs.2)
  | decline hj => exact .reply hs hj (.declined _) rfl fun _ _ he => nomatch he
  | refuse hj => exact .reply hs hj (.refused _ ⟨_, _⟩) rfl fun _ _ he => nomatch he
  | accept hj => exact .reply hs hj (.accepted _ ⟨_, _⟩) rfl fun _ _ he => nomatch he
  | abandon ha => exact hnothing ha.ne_awaitingReply fun _ _ he => nomatch he
  | starve ha => exact hnothing ha.ne_awaitingReply fun _ _ he => nomatch he
  | ask ha hl hr hc => exact hnothing ha.ne_awaitingReply fun _ _ he => nomatch he
  | correct hg => exact hnothing hg.ne_awaitingReply fun _ _ he => nomatch he
  | deliver hg hr => exact hnothing hg.ne_awaitingReply fun _ _ he => nomatch he
  | lose hg => exact hnothing hg.ne_awaitingReply fun _ _ he => nomatch he
  | _ => exact hnothing (fun _ _ he => nomatch he) fun _ _ he => nomatch he

end

end Pairing

namespace View

variable {v v' : View n m} {a b i : Fin n}

/-- Of two pair services one serves only creates for the other, and the other only receives from the one. -/
def Sided (v : View n m) (a b : Fin n) : Prop :=
  (∀ r, (v.stage a).request? = some r → Pairing.peer? a r.remote = some b → r.role = .create) ∧
    ∀ r, (v.stage b).request? = some r → Pairing.peer? b r.remote = some a → r.role = .receive

/-- Where two pair services are in a handshake, and what is under way between them. -/
def InRound (v : View n m) (a b : Fin n) : RoundPhase → Prop
  | .closed => (∀ r task, v.stage a = .awaitingReply r task → Pairing.peer? a r.remote ≠ some b) ∧
      v.underway a b = 0 ∧ v.underway b a = 0
  | .opened r message => ∃ task, v.stage a = .awaitingReply r task ∧ Pairing.peer? a r.remote = some b ∧
      message.Opens (task.map PairTask.offer) ∧ v.underway a b = {message} ∧ v.underway b a = 0
  | .replied r reply o => ∃ task, v.stage a = .awaitingReply r task ∧ Pairing.peer? a r.remote = some b ∧
      (∀ socket count wanted, reply ≠ .descriptor socket count wanted) ∧ (r.concluded task reply).entered = o ∧
      v.underway a b = 0 ∧ v.underway b a = {reply}

/-- Two nodes stay where they are in a handshake while nothing is said between them. -/
theorem InRound.stays {phase : RoundPhase} (h : v.InRound a b phase)
    (hs : ∀ r task, v'.stage a = .awaitingReply r task ↔ v.stage a = .awaitingReply r task)
    (hu : v'.underway a b = v.underway a b) (hu' : v'.underway b a = v.underway b a) : v'.InRound a b phase := by
  cases phase with
  | closed =>
    obtain ⟨hn, h₁, h₂⟩ := h
    exact ⟨fun r task hr => hn r task ((hs r task).1 hr), hu.trans h₁, hu'.trans h₂⟩
  | opened r message =>
    obtain ⟨task, hst, hj, hm, h₁, h₂⟩ := h
    exact ⟨task, (hs r task).2 hst, hj, hm, hu.trans h₁, hu'.trans h₂⟩
  | replied r reply o =>
    obtain ⟨task, hst, hj, hd, he, h₁, h₂⟩ := h
    exact ⟨task, (hs r task).2 hst, hj, hd, he, hu.trans h₁, hu'.trans h₂⟩

/-- Outside of a wait for a reply of the other node a handshake is closed. -/
theorem InRound.closed_of_not {phase : RoundPhase} (h : v.InRound a b phase)
    (hn : ∀ r task, v.stage a = .awaitingReply r task → Pairing.peer? a r.remote ≠ some b) : phase = .closed := by
  cases phase with
  | closed => rfl
  | opened r message =>
    obtain ⟨task, hst, hj, -⟩ := h
    exact absurd hj (hn r task hst)
  | replied r reply o =>
    obtain ⟨task, hst, hj, -⟩ := h
    exact absurd hj (hn r task hst)

/-- Each channel between two nodes that are in rounds holds one message at most. -/
theorem InRound.card_le {phase : RoundPhase} (h : v.InRound a b phase) :
    (v.underway a b).card + (v.underway b a).card ≤ 1 := by
  cases phase with
  | closed =>
    obtain ⟨-, h₁, h₂⟩ := h
    rw [h₁, h₂]
    exact Nat.zero_le 1
  | opened r message =>
    obtain ⟨task, -, -, -, h₁, h₂⟩ := h
    rw [h₁, h₂]
    exact Nat.le_refl 1
  | replied r reply o =>
    obtain ⟨task, -, -, -, -, h₁, h₂⟩ := h
    rw [h₁, h₂]
    exact Nat.le_refl 1

section

variable {wake : Wake} {took told : Option (Fin n × PeerMessage)} {stage' : PairStage} {phase : RoundPhase}

theorem underway_after_own {j : Fin n} (hij : i ≠ j) : (v.after i wake took told stage').underway i j =
    (PeerMessage.with j told).elim (v.underway i j) (· ::ₘ v.underway i j) := by
  rw [underway_after]
  cases told with
  | none => exact underway_exchange_own hij fun _ _ hx => nomatch hx
  | some x =>
    obtain ⟨c, message⟩ := x
    by_cases hc : c = j
    · subst hc
      rw [PeerMessage.with_self]
      refine underway_exchange_own hij fun _ _ hx => ?_
      cases hx
      rfl
    · rw [PeerMessage.with_of_ne hc]
      refine (exchange_apart (fun _ message' hx => ?_) fun hj => absurd hj.symm hij).1
      cases hx
      exact hc rfl

theorem underway_after_peer {j : Fin n} (hij : i ≠ j) : (v.after i wake took told stage').underway j i =
    (PeerMessage.with j took).elim (v.underway j i) fun message => (v.underway j i).erase message := by
  rw [underway_after]
  cases took with
  | none => exact underway_exchange_peer hij fun _ _ hx => nomatch hx
  | some x =>
    obtain ⟨c, message⟩ := x
    by_cases hc : c = j
    · subst hc
      rw [PeerMessage.with_self]
      refine underway_exchange_peer hij fun _ _ hx => ?_
      cases hx
      rfl
    · rw [PeerMessage.with_of_ne hc]
      refine (exchange_apart (fun hj => absurd hj.symm hij) fun _ message' hx => ?_).1
      cases hx
      exact hc rfl

theorem stage_after_self : (v.after i wake took told stage').stage i = stage' := by
  rw [stage_after, if_pos rfl]

/-- What is said in a step adds to the rounds of two nodes. -/
def Adds (v' : View n m) (a b : Fin n) (phase : RoundPhase) (x : Option (Exchange n)) : Prop :=
  ∃ phase', v'.InRound a b phase' ∧ ∀ past, Rounds a b phase past → Rounds a b phase' (x.toList ++ past)

theorem InRound.adds_nothing (h : v'.InRound a b phase) : v'.Adds a b phase none := ⟨phase, h, fun _ hr => hr⟩

/-- The creating node of two has done something. -/
theorem InRound.adds_of_creator (h : v.InRound a b phase) (hab : a ≠ b) (hs : v.Sided a b)
    (ht : ∀ j message, took = some (j, message) → message ∈ v.underway j a)
    (hsaid : Pairing.Says a (v.stage a) took told stage') : (v.after a wake took told stage').Adds a b phase
      (Exchange.of? a (PeerMessage.with b took) (PeerMessage.with b told) stage') := by
  have hout : (v.after a wake took told stage').underway a b = _ := underway_after_own hab
  have hin : (v.after a wake took told stage').underway b a = _ := underway_after_peer hab
  have hstage : (v.after a wake took told stage').stage a = stage' := stage_after_self
  -- What is said to another node leaves a closed handshake closed.
  have haside : phase = .closed → PeerMessage.with b took = none → PeerMessage.with b told = none →
      (∀ r task, stage' = .awaitingReply r task → Pairing.peer? a r.remote ≠ some b) →
      (v.after a wake took told stage').Adds a b phase
        (Exchange.of? a (PeerMessage.with b took) (PeerMessage.with b told) stage') := by
    rintro rfl htook htold hn
    obtain ⟨-, h₁, h₂⟩ := h
    rw [htold] at hout
    rw [htook] at hin
    rw [htook, htold]
    refine InRound.adds_nothing ⟨fun r task hr => hn r task (hstage.symm.trans hr), hout.trans h₁, hin.trans h₂⟩
  generalize hst : v.stage a = stage at hsaid
  cases hsaid with
  | nothing hsame =>
    exact InRound.adds_nothing (h.stays (fun r task => by rw [hstage, hst]; exact hsame r task) hout hin)
  | @opening r task j message hr hj hm =>
    obtain rfl : phase = .closed := h.closed_of_not fun r task hr => nomatch hst.symm.trans hr
    by_cases hjb : j = b
    · subst hjb
      obtain ⟨-, h₁, h₂⟩ := h
      rw [PeerMessage.with_self] at hout ⊢
      refine ⟨.opened r message, ⟨task, hstage, hj, hm, ?_, hin.trans h₂⟩, fun past hp => .opened hp hr hm⟩
      rw [hout, h₁]
      rfl
    · refine haside rfl rfl (PeerMessage.with_of_ne hjb message) fun r' task' he hpeer => ?_
      cases he
      exact hjb (Option.some.inj (hj.symm.trans hpeer))
  | @conclusion r task j message hr hj hreq =>
    have hn := Pairing.concluded_ne_awaitingReply r task message
    by_cases hjb : j = b
    · subst hjb
      have hmem := ht j message rfl
      cases phase with
      | closed => exact absurd hj (h.1 r task hst)
      | opened r₁ m₁ =>
        obtain ⟨-, -, -, -, -, h₂⟩ := h
        rw [h₂] at hmem
        exact absurd hmem (Multiset.notMem_zero message)
      | replied r₁ reply o =>
        obtain ⟨task₁, hst₁, -, -, he, h₁, h₂⟩ := h
        rw [hst] at hst₁
        cases hst₁
        rw [h₂] at hmem
        obtain rfl := Multiset.mem_singleton.1 hmem
        rw [PeerMessage.with_self] at hin ⊢
        refine ⟨.closed, ⟨fun r' task' he' => absurd (hstage.symm.trans he') (hn r' task'), hout.trans h₁, ?_⟩,
          fun past hp => ?_⟩
        · rw [hin, h₂]
          exact Multiset.erase_cons_head message 0
        · have hx : Exchange.of? a (some message) (PeerMessage.with j none) (r.concluded task message) =
              some ⟨a, some r, some message, none, o⟩ := by
            rw [← hreq, ← he]
            rfl
          rw [hx]
          exact .closed hp
    · have hclosed : phase = .closed := h.closed_of_not fun r' task' he hpeer => by
        rw [hst] at he
        cases he
        exact hjb (Option.some.inj (hj.symm.trans hpeer))
      exact haside hclosed (PeerMessage.with_of_ne hjb message) rfl fun r' task' he => absurd he (hn r' task')
  | @reply r j message reply' stage' hr hj hm hreq hn =>
    have hjb : j ≠ b := fun hjb => by
      subst hjb
      have := hs.1 r (by rw [hst]; rfl) hj
      rw [hr] at this
      exact nomatch this
    have hclosed : phase = .closed := h.closed_of_not fun r' task' he => nomatch hst.symm.trans he
    exact haside hclosed (PeerMessage.with_of_ne hjb message) (PeerMessage.with_of_ne hjb reply') fun r' task' he =>
      absurd he (hn r' task')

/-- The receiving node of two has done something. -/
theorem InRound.adds_of_receiver (h : v.InRound a b phase) (hab : a ≠ b) (hs : v.Sided a b)
    (hs' : ∀ r, stage'.request? = some r → Pairing.peer? b r.remote = some a → r.role = .receive)
    (ht : ∀ j message, took = some (j, message) → message ∈ v.underway j b)
    (hsaid : Pairing.Says b (v.stage b) took told stage') : (v.after b wake took told stage').Adds a b phase
      (Exchange.of? b (PeerMessage.with a took) (PeerMessage.with a told) stage') := by
  have hout : (v.after b wake took told stage').underway b a = _ := underway_after_own hab.symm
  have hin : (v.after b wake took told stage').underway a b = _ := underway_after_peer hab.symm
  have hstage : (v.after b wake took told stage').stage a = v.stage a := by rw [stage_after, if_neg hab]
  -- What is said to another node leaves the handshake as it is.
  have haside : PeerMessage.with a took = none → PeerMessage.with a told = none →
      (v.after b wake took told stage').Adds a b phase
        (Exchange.of? b (PeerMessage.with a took) (PeerMessage.with a told) stage') := by
    intro htook htold
    rw [htold] at hout
    rw [htook] at hin
    rw [htook, htold]
    exact InRound.adds_nothing (h.stays (fun r task => by rw [hstage]) hin hout)
  generalize hst : v.stage b = stage at hsaid
  cases hsaid with
  | nothing hsame => exact haside rfl rfl
  | @opening r task j message hr hj hm =>
    refine haside rfl (PeerMessage.with_of_ne (fun hja => ?_) message)
    subst hja
    have := hs' r rfl hj
    rw [hr] at this
    exact nomatch this
  | @conclusion r task j message hr hj hreq =>
    refine haside (PeerMessage.with_of_ne (fun hja => ?_) message) rfl
    subst hja
    have := hs.2 r (by rw [hst]; rfl) hj
    rw [hr] at this
    exact nomatch this
  | @reply r j message reply stage' hr hj hm hreq hn =>
    by_cases hja : j = a
    · subst hja
      have hmem := ht j message rfl
      cases phase with
      | closed =>
        obtain ⟨-, h₁, -⟩ := h
        rw [h₁] at hmem
        exact absurd hmem (Multiset.notMem_zero message)
      | opened r₁ m₁ =>
        obtain ⟨task, hst₁, hj₁, ho, h₁, h₂⟩ := h
        rw [h₁] at hmem
        obtain rfl := Multiset.mem_singleton.1 hmem
        have hentered : (∀ socket count wanted, reply ≠ .descriptor socket count wanted) ∧
            (r₁.concluded task reply).entered = stage'.entered := by
          generalize stage'.entered = o at hm
          generalize hoffer : task.map PairTask.offer = offer at ho
          cases hm with
          | declined socket =>
            cases ho with
            | cancel =>
              obtain rfl := Option.map_eq_none_iff.1 hoffer
              exact ⟨nofun, rfl⟩
          | refused socket o =>
            refine ⟨nofun, ?_⟩
            cases task with
            | none => rfl
            | some t => rfl
          | accepted socket o =>
            refine ⟨nofun, ?_⟩
            obtain ⟨count, wanted⟩ := o
            cases ho with
            | descriptor =>
              obtain ⟨t, rfl, rfl⟩ := Option.map_eq_some_iff.1 hoffer
              rfl
        rw [PeerMessage.with_self] at hin hout ⊢
        refine ⟨.replied r₁ reply stage'.entered, ⟨task, hstage.trans hst₁, hj₁, hentered.1, hentered.2, ?_, ?_⟩,
          fun past hp => ?_⟩
        · rw [hin, h₁]
          exact Multiset.erase_cons_head message 0
        · rw [hout, h₂]
          rfl
        · have hx : Exchange.of? b (some message) (PeerMessage.with j (some (j, reply))) stage' =
              some ⟨b, some r, some message, some reply, stage'.entered⟩ := by
            rw [← hreq, PeerMessage.with_self]
            rfl
          rw [hx]
          exact .replied hp hr hm
      | replied r₁ reply₁ o =>
        obtain ⟨-, -, -, -, -, h₁, -⟩ := h
        rw [h₁] at hmem
        exact absurd hmem (Multiset.notMem_zero message)
    · exact haside (PeerMessage.with_of_ne hja message) (PeerMessage.with_of_ne hja reply)

end

theorem Calls.stage {t : PairTask} {k : Nat} {l : Fin m} {e : LinkEnd} (h : v.Calls i t k l e v') :
    ∃ position, ∀ j, v'.stage j = if j = i then .linking t k position else v.stage j := by
  cases h with
  | refused => exact ⟨_, fun _ => rfl⟩
  | waits => exact ⟨_, fun _ => rfl⟩
  | @turned position c link es kind kind' v' hf hr hc ho hj hv =>
    refine ⟨position, fun j => ?_⟩
    rw [hv.stage]
    rfl

theorem Calls.underway {t : PairTask} {k : Nat} {l : Fin m} {e : LinkEnd} (h : v.Calls i t k l e v') :
    v'.underway = v.underway := by
  cases h with
  | refused => rfl
  | waits => rfl
  | turned hf hr hc ho hj hv => exact hv.underway

/-- Whatever changes, two nodes of which one creates and the other receives go on with their rounds. -/
theorem Changes.adds {does : Doings n m} (hc : v.Changes does v') (hw : v.Wired) (hab : a ≠ b) (hs : v.Sided a b)
    (hs' : v'.Sided a b) {phase : RoundPhase} (h : v.InRound a b phase) :
    (does.Silent ∧ v'.Adds a b phase none) ∨ ∃ i wake took told flow, does i wake took told flow ∧
      v'.Adds a b phase (if i = a then Exchange.of? a (PeerMessage.with b took) (PeerMessage.with b told) flow.stage
        else if i = b then Exchange.of? b (PeerMessage.with a took) (PeerMessage.with a told) flow.stage else none) := by
  cases hc with
  | still hq => exact .inl ⟨hq, h.adds_nothing⟩
  | @deed i wake took told flow recorded hx hwake ht hd hf hl hn =>
    refine .inr ⟨i, wake, took, told, flow, hx.1, ?_⟩
    have hsaid := hd.said (hw.sound i)
    by_cases hia : i = a
    · subst hia
      rw [if_pos rfl]
      exact h.adds_of_creator hab hs ht hsaid
    · rw [if_neg hia]
      by_cases hib : i = b
      · subst hib
        rw [if_pos rfl]
        refine h.adds_of_receiver hab hs (fun r hr => hs'.2 r ?_) ht hsaid
        rw [stage_after_self]
        exact hr
      · rw [if_neg hib]
        refine InRound.adds_nothing (h.stays (fun r task => by rw [stage_after, if_neg (Ne.symm hia)]) ?_ ?_)
        · rw [underway_after]
          exact (exchange_apart (fun h => absurd h.symm hia) fun h => absurd h.symm hib).1
        · rw [underway_after]
          exact (exchange_apart (fun h => absurd h.symm hib) fun h => absurd h.symm hia).1
  | @call i t k l e v' hq hasks hk hp hwait hcall =>
    obtain ⟨position, hstage⟩ := hcall.stage
    refine .inl ⟨hq, InRound.adds_nothing (h.stays (fun r task => ?_) ?_ ?_)⟩
    · rw [hstage]
      split
      · rename_i hai
        subst hai
        exact ⟨fun he => (nomatch he), fun he => absurd he (hasks.ne_awaitingReply r task)⟩
      · rfl
    · rw [hcall.underway]
    · rw [hcall.underway]
  | abort hq hp ha hv =>
    exact .inl ⟨hq, InRound.adds_nothing (h.stays (fun r task => by rw [hv.stage]) (by rw [hv.underway]) (by rw [hv.underway]))⟩
  | join hq hj hv =>
    exact .inl ⟨hq, InRound.adds_nothing (h.stays (fun r task => by rw [hv.stage]) (by rw [hv.underway]) (by rw [hv.underway]))⟩

end View

namespace Network

section

variable {c : NetworkConfig} {may : ClientAct c.nodes.length → Prop} {s s' : Network c.nodes.length c.links.length}
  {past : List (Moment c.nodes.length c.links.length)} {a b : Fin c.nodes.length}

/-- What a step adds to the rounds of two nodes is what these exchange in it. -/
theorem rounds_step {n m : Nat} {s s' : Network n m} {a b : Fin n} (hc : s.view.Changes s.Does s'.view)
    (hw : s.view.Wired) (hab : a ≠ b) (hs : s.view.Sided a b) (hs' : s'.view.Sided a b) {phase : RoundPhase}
    (h : s.view.InRound a b phase) : s'.view.Adds a b phase (s.exchange? a b) := by
  rcases hc.adds hw hab hs hs' h with ⟨hq, hadds⟩ | ⟨i, wake, took, told, flow, hdoes, hadds⟩
  · unfold exchange?
    rw [exchangeWith?_of_silent hq, exchangeWith?_of_silent hq]
    exact hadds
  · have hx : s.exchange? a b = if i = a then Exchange.of? a (PeerMessage.with b took) (PeerMessage.with b told) flow.stage
        else if i = b then Exchange.of? b (PeerMessage.with a took) (PeerMessage.with a told) flow.stage else none := by
      unfold exchange?
      by_cases hia : i = a
      · subst hia
        rw [hdoes.exchangeWith?_eq, hdoes.exchangeWith?_of_ne hab.symm, Option.or_none, if_pos rfl]
      · rw [hdoes.exchangeWith?_of_ne (Ne.symm hia), if_neg hia, Option.none_or]
        by_cases hib : i = b
        · subst hib
          rw [hdoes.exchangeWith?_eq, if_pos rfl]
        · rw [hdoes.exchangeWith?_of_ne (Ne.symm hib), if_neg hib]
    rw [hx]
    exact hadds

theorem exchanges_cons {n m : Nat} (moment : Moment n m) (past : List (Moment n m)) (a b : Fin n) :
    exchanges (moment :: past) a b = (moment.state.exchange? a b).toList ++ exchanges past a b := by
  unfold exchanges
  rw [List.filterMap_cons]
  cases moment.state.exchange? a b with
  | none => rfl
  | some x => rfl

theorem Built.inRound {n m : Nat} {s : Network n m} (h : s.Built) (a b : Fin n) : s.view.InRound a b .closed := by
  exact ⟨fun r task hr => (nomatch (h.pairStage a).symm.trans hr), h.underway a b, h.underway b a⟩

/-- Along a run two nodes of which one creates and the other receives pass through rounds. -/
theorem Trace.rounds (h : Trace c may past s) (hab : a ≠ b) (hp : ∀ m ∈ past, m.state.view.Sided a b)
    (hs : s.view.Sided a b) : ∃ phase, Rounds a b phase (exchanges past a b) ∧ s.view.InRound a b phase := by
  have hstep : ∀ {past : List (Moment c.nodes.length c.links.length)} {s s' : Network c.nodes.length c.links.length}
      {act}, Trace c may past s → s.view.Changes s.Does s'.view →
      (∀ m ∈ (⟨s, act⟩ :: past : List (Moment c.nodes.length c.links.length)), m.state.view.Sided a b) →
      s'.view.Sided a b → (∃ phase, Rounds a b phase (exchanges past a b) ∧ s.view.InRound a b phase) →
      ∃ phase, Rounds a b phase (exchanges (⟨s, act⟩ :: past) a b) ∧ s'.view.InRound a b phase := by
    rintro past s s' act h hc hp hs ⟨phase, hr, hin⟩
    obtain ⟨phase', hin', hadds⟩ := rounds_step hc h.wired hab (hp _ List.mem_cons_self) hs hin
    refine ⟨phase', ?_, hin'⟩
    rw [exchanges_cons]
    exact hadds _ hr
  induction h with
  | built h => exact ⟨.closed, .none, (built_of_build h).inRound a b⟩
  | move h hm ih =>
    exact hstep h (h.changes hm) hp hs (ih (fun m hm => hp m (List.mem_cons_of_mem _ hm)) (hp _ List.mem_cons_self))
  | act h act ha hc hr ih =>
    exact hstep h (h.act_changes hc hr) hp hs
      (ih (fun m hm => hp m (List.mem_cons_of_mem _ hm)) (hp _ List.mem_cons_self))

end

end Network

end QuantumNode
