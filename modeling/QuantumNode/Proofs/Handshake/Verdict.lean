import QuantumNode.Proofs.Handshake.Rounds
import QuantumNode.Proofs.Network.Rehearsal
import QuantumNode.Proofs.Node.Complaint

/-! Handshakes of a node that only creates for another, and of the other that only receives from it: no message is of a
kind that is not expected, and a receive whose application has gone leaves no trace. -/
namespace QuantumNode

open Work Working

variable {n m : Nat}

namespace Pairing

open Node

/-- A receive gives up where nothing has arrived and its socket is gone. -/
theorem exec_awaitDescriptor_gone {w : Working (Node n m) n m} {r : EntanglementRequest} {j : Fin n}
    (hj : peer? w.part.id r.remote = some j) (hitems : (w.part.service.inbound.get j).items = [])
    (hgone : w.part.service.hasSocket r.app r.socket r.remote = false) (p : ProcessId) :
    ∃ w', (awaitDescriptor p r).exec w = (.ok (.go (.settling r)), w') ∧ Mute w w' := by
  have hnext : ∃ w₁, (nextMessage r.remote : NodeWork n m (Option PeerMessage)).exec w = (.ok none, w₁) ∧
      w₁.part.service.sockets = w.part.service.sockets := by
    refine ⟨{ w with part := { w.part with service := { w.part.service with
      inbound := w.part.service.inbound.set j (w.part.service.inbound.get j) j.isLt } } }, ?_, rfl⟩
    unfold nextMessage
    rw [exec_bind, exec_part]
    dsimp only
    split
    · rename_i hnone
      exact nomatch hnone.symm.trans hj
    · rename_i source hsource
      obtain rfl : source = j := Option.some.inj (hsource.symm.trans hj)
      have htry : (w.part.service.inbound.get source).tryReceive = (none, w.part.service.inbound.get source) := by
        unfold Channel.tryReceive
        rw [hitems]
      rw [htry]
      rfl
  obtain ⟨w₁, hx, hsockets⟩ := hnext
  have hmute : Mute w w₁ := nextMessage_ends r.remote none w₁ hx
  have hgone₁ : w₁.part.service.hasSocket r.app r.socket r.remote = false := by
    unfold PairService.hasSocket at hgone ⊢
    rw [hsockets]
    exact hgone
  refine ⟨_, ?_, hmute.mute ((Node.log_mild .info "Netstack"
    s!"app {r.app} stopped while waiting for a request from node {r.remote}").calm w₁).mute⟩
  unfold awaitDescriptor
  rw [exec_bind, hx]
  change (if w₁.part.service.hasSocket r.app r.socket r.remote = true then _ else _ : NodeWork n m (Step m)).exec w₁ = _
  rw [hgone₁]
  rfl

end Pairing

namespace View

variable {v : View n m} {a b : Fin n}

instance (v : View n m) (a b : Fin n) : Decidable (v.Sided a b) :=
  decidable_of_iff ((∀ r ∈ (v.stage a).request?, Pairing.peer? a r.remote = some b → r.role = .create) ∧
    ∀ r ∈ (v.stage b).request?, Pairing.peer? b r.remote = some a → r.role = .receive) Iff.rfl

/-- Of two pair services in rounds neither is sent a message that it does not expect where it waits. -/
theorem InRound.expected {phase : RoundPhase} (h : v.InRound a b phase) (hw : v.Wired) (hs : v.Sided a b) {i j : Fin n}
    (hij : i = a ∧ j = b ∨ i = b ∧ j = a) {r : EntanglementRequest} {message : PeerMessage} {f : Fault}
    (hr : Pairing.peer? i r.remote = some j) (hm : message ∈ v.underway j i) :
    ¬ Pairing.Unexpected r (v.stage i) message f := by
  intro hu
  have hsound := hw.sound i
  generalize hst : v.stage i = stage at hu hsound
  rcases hij with ⟨rfl, rfl⟩ | ⟨rfl, rfl⟩
  · cases hu with
    | descriptor socket => exact nomatch (hs.1 r (by rw [hst]; rfl) hr).symm.trans hsound
    | reply task socket count wanted =>
      -- The only message on its way to a create is a reply.
      cases phase with
      | closed =>
        rw [h.2.2] at hm
        exact Multiset.notMem_zero _ hm
      | opened r' m' =>
        obtain ⟨task', -, -, -, -, h₂⟩ := h
        rw [h₂] at hm
        exact Multiset.notMem_zero _ hm
      | replied r' reply o =>
        obtain ⟨task', -, -, hd, -, -, h₂⟩ := h
        rw [h₂] at hm
        exact hd _ _ _ (Multiset.mem_singleton.1 hm).symm
  · cases hu with
    | reply task socket count wanted => exact nomatch (hs.2 r (by rw [hst]; rfl) hr).symm.trans hsound.1
    | descriptor socket =>
      -- The only message on its way to a receive is one that opens a handshake.
      cases phase with
      | closed =>
        rw [h.2.1] at hm
        exact Multiset.notMem_zero _ hm
      | opened r' m' =>
        obtain ⟨task', -, -, ho, h₁, -⟩ := h
        rw [h₁] at hm
        obtain rfl := Multiset.mem_singleton.1 hm
        exact nomatch ho
      | replied r' reply o =>
        obtain ⟨task', -, -, -, -, h₁, -⟩ := h
        rw [h₁] at hm
        exact Multiset.notMem_zero _ hm

end View

namespace Network

variable {s : Network n m} {i j : Fin n} {r : EntanglementRequest} {wake : Wake}

/-- A receive whose application has gone is settled; nothing is taken from a peer or told to one. -/
theorem proceed_awaitDescriptor_gone (hw : s.view.Wired) (hcrew : s.Crewed) (hc : s.current = some (pairId i, wake))
    (hst : s.pairStage i = .awaitingDescriptor r) (hj : Pairing.peer? i r.remote = some j)
    (hitems : (s.inbound j i).items = []) (hgone : (s.node i).service.hasSocket r.app r.socket r.remote = false) :
    ∃ s', s.proceed = .went s' ∧ s'.pairStage i = .settling r ∧ s'.view.underway = s.view.underway ∧ s.Does.Silent := by
  have hid : (s.node i).id = i := hw.id i
  obtain ⟨w, hx, hmute⟩ := Pairing.exec_awaitDescriptor_gone (w := s.working i) (hid.symm ▸ hj) hitems hgone (pairId i)
  have hprocess : ∃ name, s.processes.get? (pairId i) = some ⟨name, .pairing i (.awaitingDescriptor r)⟩ := by
    rw [← hst]
    unfold pairStage at hst ⊢
    split at hst
    · rename_i name k stage hp
      obtain rfl : i = k := pairId_inj.1 (hcrew.sits hp)
      exact ⟨name, hp⟩
    · cases hst
  obtain ⟨name, hp⟩ := hprocess
  have hstep : (Pairing.step (pairId i) (.awaitingDescriptor r) wake).exec (s.working i) = (.ok (.go (.settling r)), w) :=
    hx
  have hproceed : s.proceed = .went (((s.commit i w).setActivity (pairId i) ⟨name, .pairing i (.awaitingDescriptor r)⟩
      (.pairing i (.settling r))).setCurrent (some (pairId i, .go))) := by
    have hat : s.atNode i (Pairing.step (pairId i) (.awaitingDescriptor r) wake) =
        (.ok (.go (.settling r)), s.commit i w) := by
      rw [atNode_eq, hstep]
    unfold proceed
    rw [hc]
    dsimp only
    rw [hp]
    dsimp only
    unfold stepProcess stepActivity
    dsimp only
    rw [hat]
    rfl
  have hr : (s.commit i w).Resolves (pairId i) ⟨name, .pairing i (.awaitingDescriptor r)⟩
      (.go (.pairing i (.settling r))) _ := .go _
  have hview : (s.commit i w).view = s.view := view_commit_exchange hmute hid hw.listeners
  refine ⟨_, hproceed, Resolves.pairStage (x := .go (.settling r)) hr, ?_, ?_⟩
  · have hcur : (s.commit i w).current = some (pairId i, wake) := (spares_commit s i w).current.trans hc
    rw [Resolves.view_local (x := .go (.settling r)) hr hcur rfl, hview]
    cases wake with
    | answer a => rfl
    | _ => rfl
  · exact View.Doings.Only.silent (Does.only ⟨hc, ⟨name, hst ▸ hp⟩, w, hst ▸ hstep, hmute⟩)

section

variable {c : NetworkConfig} {may : ClientAct c.nodes.length → Prop} {s : Network c.nodes.length c.links.length}
  {past : List (Moment c.nodes.length c.links.length)} {a b : Fin c.nodes.length}

/-- Handshakes pair up one to one and end with the same verdict, along every run in which one node serves only creates
for another and the other only receives from the one. Each channel between the two holds one message at most; what they
exchange comes in rounds of a message that a create sends, of one receive that takes it and replies, and of the same
create that takes the reply, and both go on to the pairs of one offer or neither does. No step complains about a message
that was not expected, and a receive that is dropped since its application has gone takes and tells nothing. -/
theorem handshakes_pair_up (h : Trace c may past s) (hab : a ≠ b) (hp : ∀ m ∈ past, m.state.view.Sided a b)
    (hs : s.view.Sided a b) :
    ((s.underway a b).card ≤ 1 ∧ (s.underway b a).card ≤ 1) ∧
      (∃ phase, Rounds a b phase (exchanges past a b) ∧ s.view.InRound a b phase) ∧
      (∀ i j, i = a ∧ j = b ∨ i = b ∧ j = a → ∀ wake f w,
        (Pairing.step (pairId i) (s.pairStage i) wake).exec (s.working i) = (.error f, w) →
          f ≠ .acknowledgementExpected j.val ∧ f ≠ .descriptorExpected j.val) ∧
      ∀ wake r, s.current = some (pairId b, wake) → s.pairStage b = .awaitingDescriptor r → r.remote = a.val →
        (s.inbound a b).items = [] → (s.node b).service.hasSocket r.app r.socket r.remote = false →
          s.exchange? a b = none ∧ ∃ s', s.proceed = .went s' ∧ s'.pairStage b = .settling r ∧
            s'.underway = s.underway := by
  obtain ⟨phase, hrounds, hin⟩ := h.rounds hab hp hs
  have hcard := hin.card_le
  refine ⟨⟨?_, ?_⟩, ⟨phase, hrounds, hin⟩, ?_, ?_⟩
  · exact (Nat.le_add_right _ _).trans hcard
  · exact (Nat.le_add_left _ _).trans hcard
  · intro i j hij wake f w hx
    have hne : ∀ g : Fault, g.isComplaint = true → (g = .acknowledgementExpected j.val ∨ g = .descriptorExpected j.val) →
        f ≠ g := by
      rintro g hg hremote rfl
      obtain ⟨r, j', message, w₁, hex, hj, hu⟩ := Pairing.step_unexpected hx hg
      have hid : (s.node i).id = i := h.wired.id i
      have hj' : Pairing.peer? i r.remote = some j' := hid ▸ hj
      obtain rfl : j' = j := Fin.ext (Int.ofNat.inj ((Pairing.peer?_eq_some.1 hj').1.symm.trans (hu.remote hremote)))
      exact hin.expected h.wired hs hij hj' (mem_underway hex) hu
    exact ⟨hne _ rfl (.inl rfl), hne _ rfl (.inr rfl)⟩
  · intro wake r hc hst hr hitems hgone
    have hj : Pairing.peer? b r.remote = some a := Pairing.peer?_eq_some.2 ⟨hr, hab⟩
    obtain ⟨s', hproceed, hstage, hunder, hsilent⟩ :=
      proceed_awaitDescriptor_gone h.wired h.crewed hc hst hj hitems hgone
    refine ⟨?_, s', hproceed, hstage, hunder⟩
    unfold exchange?
    rw [exchangeWith?_of_silent hsilent, exchangeWith?_of_silent hsilent]
    rfl

end

/-- The receiving application is aborted, so the first handshake ends with a refusal; the creating application is aborted
by that, and its second handshake is a cancelled one. -/
def duoRefusals : List (Direction duo.nodes.length) :=
  duoOpening ++ [.act (.atNode 1 (.abort 0)), .act (.atNode 0 (.submit (duoRequest 0))),
    .act (.atNode 1 (.submit (duoRequest 1))), .run 0 100, .act (.atNode 0 (.submit (duoRequest 0))),
    .act (.atNode 1 (.submit (duoRequest 1))), .run 0 100]

theorem handshakes_pair_up_twice : ∃ past s, Trace duo (fun _ => True) past s ∧
    (∀ m ∈ past, m.state.view.Sided 0 1) ∧ s.view.Sided 0 1 ∧ (exchanges past 0 1).length = 6 ∧
      ∃ phase, Rounds 0 1 phase (exchanges past 0 1) ∧ s.view.InRound 0 1 phase := by
  obtain ⟨past, s, ht, hs⟩ := Trace.exists_of_rehearse duo (fun _ => True) duoRefusals
    (fun r => (∀ m ∈ r.1, m.state.view.Sided 0 1) ∧ r.2.view.Sided 0 1 ∧ (exchanges r.1 0 1).length = 6)
    (by decide +kernel) (fun _ _ => trivial)
  obtain ⟨hpast, hnow, hlength⟩ := of_decide_eq_true hs
  have hne : (0 : Fin duo.nodes.length) ≠ 1 := by decide
  exact ⟨past, s, ht, hpast, hnow, hlength, (handshakes_pair_up ht hne hpast hnow).2.1⟩

end Network

end QuantumNode
