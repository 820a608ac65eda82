import Mathlib.Data.Multiset.AddSub
import QuantumNode.Node.Pairing
import QuantumNode.Proofs.Entanglement.Link

/-! Two pair services as they see each other: what each is at with the other, what it can do next, and the invariant
that keeps the two ends of a handshake at the same pair. -/
namespace QuantumNode

/-- What a create offers. -/
structure Offer where
  count : Int
  wanted : PairRequest

def PairTask.offer (t : PairTask) : Offer := ⟨t.count, t.wanted⟩

/-- The message that makes an offer, or takes its place. -/
inductive PeerMessage.Opens : PeerMessage → Option Offer → Prop where
  | descriptor (socket : Int) (o : Offer) : Opens (.descriptor socket o.count o.wanted) (some o)
  | cancel (socket : Int) : Opens (.cancel socket) none

/-- How far a pair has come at one end. -/
inductive PairPhase where
  | ready
  | asking
  /-- The link has answered, and the answer is still to be looked at. -/
  | answered (a : LinkAnswer)
  | correcting (p : Pair)

/-- How many pairs the link has settled for an end that is at pair `k`. -/
def PairPhase.got (k : Nat) : PairPhase → Nat
  | .ready | .asking => k
  | .answered a => if a.isAborted then k else k + 1
  | .correcting _ => k + 1

/-- What one pair service is at with another. -/
inductive Engagement where
  | apart
  | offering (o : Option Offer)
  | attending
  | paired (role : PairRole) (o : Offer) (k : Nat) (phase : PairPhase)

namespace Engagement

/-- How many answers a pair service waits for. -/
def offers : Engagement → Nat
  | offering _ => 1
  | _ => 0

/-- Where a create is after the peer has answered. -/
def concluded : Option Offer → PeerMessage → Engagement
  | some o, .acknowledge _ => .paired .create o 0 .ready
  | _, _ => .apart

/-- Nothing has been said, and no pair has been settled. -/
inductive Follows : Engagement → Engagement → Prop where
  | same (e : Engagement) : Follows e e
  | left {e : Engagement} (h : e.offers = 0) : Follows e .apart
  | attend : Follows .apart .attending
  | paired {role : PairRole} {o : Offer} {k k' : Nat} {phase phase' : PairPhase} (h : phase'.got k' = phase.got k) :
      Follows (.paired role o k phase) (.paired role o k' phase')

variable {e e' : Engagement}

theorem Follows.offers (h : Follows e e') : e'.offers = e.offers := by
  cases h with
  | left h => exact h.symm
  | _ => rfl

theorem Follows.offering {o : Option Offer} (h : Follows e e') (he : e' = .offering o) : e = .offering o := by
  cases h with
  | same => exact he
  | _ => exact nomatch he

theorem Follows.paired_of {role : PairRole} {o : Offer} {k' : Nat} {phase' : PairPhase} (h : Follows e e')
    (he : e' = .paired role o k' phase') : ∃ k phase, e = .paired role o k phase ∧ phase'.got k' = phase.got k := by
  cases h with
  | same => exact ⟨k', phase', he, rfl⟩
  | paired h =>
    cases he
    exact ⟨_, _, rfl, h⟩
  | _ => exact nomatch he

theorem offers_concluded (o : Option Offer) (m : PeerMessage) : (concluded o m).offers = 0 := by
  unfold concluded
  split
  · rfl
  · rfl

end Engagement

/-- A pair service as its peer sees it. -/
structure Party where
  engagement : Engagement
  /-- What it has told the peer that the peer has not taken. -/
  out : Multiset PeerMessage
  /-- How much it has told the peer. -/
  told : Nat
  /-- Whether its next call of the link is given up on. -/
  flag : Bool

/-- What a pair service, or the link for it, can do next with a peer. -/
inductive Party.Turn (x y : Party) : Party → Party → Prop where
  | stay : Turn x y x y
  | attend (h : x.engagement = .apart) : Turn x y { x with engagement := .attending } y
  | offer {o : Option Offer} {m : PeerMessage} (h : x.engagement = .apart) (hm : m.Opens o) :
      Turn x y { x with engagement := .offering o, out := m ::ₘ x.out, told := x.told + 1 } y
  | conclude {o : Option Offer} {m : PeerMessage} (h : x.engagement = .offering o) (hm : m ∈ y.out)
      (hd : ∀ socket count wanted, m ≠ .descriptor socket count wanted) :
      Turn x y { x with engagement := .concluded o m } { y with out := y.out.erase m }
  | decline {socket : Int} (h : x.engagement = .attending) (hm : .cancel socket ∈ y.out) :
      Turn x y { x with engagement := .apart, out := .acknowledge socket ::ₘ x.out, told := x.told + 1 }
        { y with out := y.out.erase (.cancel socket) }
  | refuse {socket count : Int} {wanted : PairRequest} (h : x.engagement = .attending)
      (hm : .descriptor socket count wanted ∈ y.out) :
      Turn x y { x with engagement := .apart, out := .cancel socket ::ₘ x.out, told := x.told + 1 }
        { y with out := y.out.erase (.descriptor socket count wanted) }
  | accept {socket count : Int} {wanted : PairRequest} (h : x.engagement = .attending)
      (hm : .descriptor socket count wanted ∈ y.out) :
      Turn x y
        { x with
          engagement := .paired .receive ⟨count, wanted⟩ 0 .ready
          out := .acknowledge socket ::ₘ x.out
          told := x.told + 1 }
        { y with out := y.out.erase (.descriptor socket count wanted) }
  | drop (h : x.engagement = .attending) : Turn x y { x with engagement := .apart } y
  | complete {role : PairRole} {o : Offer} {k : Nat} (h : x.engagement = .paired role o k .ready) (hk : o.count ≤ k) :
      Turn x y { x with engagement := .apart } y
  | quit {role : PairRole} {o : Offer} {k : Nat} {phase : PairPhase} (h : x.engagement = .paired role o k phase)
      (hp : phase = .ready ∨ (∃ p, phase = .answered (.pair p)) ∨ ∃ p, phase = .correcting p) :
      Turn x y { x with engagement := .apart } y
  | yield {role : PairRole} {o : Offer} {k : Nat} {cause : LinkRefusal} {kind : PairKind}
      (h : x.engagement = .paired role o k (.answered (.refused cause kind))) :
      Turn x y { x with engagement := .apart } y
  | take {role : PairRole} {o : Offer} {k : Nat} {p : Pair}
      (h : x.engagement = .paired role o k (.answered (.pair p))) :
      Turn x y { x with engagement := .paired role o k (.correcting p) } y
  | deliver {role : PairRole} {o : Offer} {k : Nat} {phase : PairPhase} {p : Pair}
      (h : x.engagement = .paired role o k phase) (hp : phase = .answered (.pair p) ∨ phase = .correcting p) :
      Turn x y { x with engagement := .paired role o (k + 1) .ready } y
  | turnedAway {role : PairRole} {o : Offer} {k : Nat} (h : x.engagement = .paired role o k .ready)
      (hf : x.flag = true) :
      Turn x y { x with engagement := .paired role o k (.answered (.refused .aborted .keep)), flag := false } y
  | ask {role : PairRole} {o : Offer} {k : Nat} (h : x.engagement = .paired role o k .ready) (hf : x.flag = false)
      (hk : (k : Int) < o.count) : Turn x y { x with engagement := .paired role o k .asking } y
  | turnedDown {role role' : PairRole} {o o' : Offer} {k k' : Nat} (h : x.engagement = .paired role o k .ready)
      (h' : y.engagement = .paired role' o' k' .asking) (hf : x.flag = false) (hk : (k : Int) < o.count) :
      Turn x y { x with engagement := .paired role o k (.answered (.refused .rejected .keep)) }
        { y with engagement := .paired role' o' k' (.answered (.refused .rejected .keep)) }
  | join {role role' : PairRole} {o o' : Offer} {k k' : Nat} {a : LinkAnswer}
      (h : x.engagement = .paired role o k .asking) (h' : y.engagement = .paired role' o' k' .asking)
      (ha : a.isAborted = false) :
      Turn x y { x with engagement := .paired role o k (.answered a) }
        { y with engagement := .paired role' o' k' (.answered a) }
  | abortBoth {role role' : PairRole} {o o' : Offer} {k k' : Nat} (h : x.engagement = .paired role o k .asking)
      (h' : y.engagement = .paired role' o' k' .asking) :
      Turn x y { x with engagement := .paired role o k (.answered (.refused .aborted .keep)) }
        { y with engagement := .paired role' o' k' (.answered (.refused .aborted .keep)) }
  | abortOwn {role : PairRole} {o : Offer} {k : Nat} (h : x.engagement = .paired role o k .asking)
      (h' : ∀ role o k, y.engagement ≠ .paired role o k .asking) :
      Turn x y { x with engagement := .paired role o k (.answered (.refused .aborted .keep)) } { y with flag := true }
  | abortOther {role : PairRole} {o : Offer} {k : Nat} (h : ∀ role o k, x.engagement ≠ .paired role o k .asking)
      (h' : y.engagement = .paired role o k .asking) :
      Turn x y x { y with engagement := .paired role o k (.answered (.refused .aborted .keep)) }

/-- What has been said fits the offer that one of two parties makes. -/
structure Tuned (x y : Party) : Prop where
  accepted : ∀ {o role o' k phase socket}, x.engagement = .offering (some o) → .acknowledge socket ∈ y.out →
    y.engagement = .paired role o' k phase → role = .receive ∧ o' = o ∧ phase.got k = 0
  opened : ∀ {o m}, x.engagement = .offering (some o) → y.engagement.offers = 0 → m ∈ x.out → m.Opens (some o)
  crossed : ∀ {o}, x.engagement = .offering (some o) → x.out.card = 2 → ∃ m ∈ x.out, m.Opens (some o)
  facing : ∀ {o o' m}, x.engagement = .offering (some o) → y.engagement = .offering (some o') → x.out.card = 1 →
    m ∈ x.out → m.Opens (some o)

/-- Two parties agree: for each answer that is waited for one message is under way, and if both are at pairs they are
at the pairs of one offer, in different roles, and as many have been settled for either. -/
structure Attuned (x y : Party) : Prop where
  balance : x.out.card + y.out.card = x.engagement.offers + y.engagement.offers
  paired : ∀ {role o k phase role' o' k' phase'}, x.engagement = .paired role o k phase →
    y.engagement = .paired role' o' k' phase' → role ≠ role' ∧ o = o' ∧ phase.got k = phase'.got k'
  left : Tuned x y
  right : Tuned y x

namespace Attuned

variable {x y x' y' : Party}

theorem symm (h : Attuned x y) : Attuned y x where
  balance := by
    have := h.balance
    omega
  paired hx hy := by
    obtain ⟨hr, ho, hk⟩ := h.paired hy hx
    exact ⟨hr.symm, ho.symm, hk.symm⟩
  left := h.right
  right := h.left

end Attuned

theorem Tuned.of_not_offering {x y : Party} (h : x.engagement.offers = 0) : Tuned x y := by
  have hne : ∀ {o}, x.engagement ≠ .offering (some o) := fun {o} he => by
    rw [he] at h
    exact nomatch h
  exact ⟨fun hx => absurd hx hne, fun hx => absurd hx hne, fun hx => absurd hx hne, fun hx => absurd hx hne⟩

theorem Tuned.follows {x y x' y' : Party} (h : Tuned x y) (hx : x.engagement.Follows x'.engagement)
    (hy : y.engagement.Follows y'.engagement) (hox : x'.out = x.out) (hoy : y'.out = y.out) : Tuned x' y' := by
  refine ⟨fun hx' ha hy' => ?_, fun hx' hy' hm => ?_, fun hx' hc => ?_, fun hx' hy' hc hm => ?_⟩
  · obtain ⟨k, phase, he, hg⟩ := hy.paired_of hy'
    obtain ⟨hr, ho, hk⟩ := h.accepted (hx.offering hx') (hoy ▸ ha) he
    exact ⟨hr, ho, hg.trans hk⟩
  · rw [hy.offers] at hy'
    exact h.opened (hx.offering hx') hy' (hox ▸ hm)
  · rw [hox] at hc ⊢
    exact h.crossed (hx.offering hx') hc
  · rw [hox] at hc hm
    exact h.facing (hx.offering hx') (hy.offering hy') hc hm

namespace Attuned

variable {x y x' y' : Party}

theorem follows (h : Attuned x y) (hx : x.engagement.Follows x'.engagement)
    (hy : y.engagement.Follows y'.engagement) (hox : x'.out = x.out) (hoy : y'.out = y.out) : Attuned x' y' := by
  refine ⟨?_, fun hx' hy' => ?_, h.left.follows hx hy hox hoy, h.right.follows hy hx hoy hox⟩
  · rw [hx.offers, hy.offers, hox, hoy]
    exact h.balance
  · obtain ⟨k, phase, he, hg⟩ := hx.paired_of hx'
    obtain ⟨k', phase', he', hg'⟩ := hy.paired_of hy'
    obtain ⟨hr, ho, hk⟩ := h.paired he he'
    exact ⟨hr, ho, by rw [hg, hg', hk]⟩

/-- The link has settled a pair for both. -/
theorem joined (h : Attuned x y) {role role' : PairRole} {o o' : Offer} {k k' : Nat}
    {phase phase' phase₁ phase₁' : PairPhase} (hx : x.engagement = .paired role o k phase)
    (hy : y.engagement = .paired role' o' k' phase') (hx' : x'.engagement = .paired role o k phase₁)
    (hy' : y'.engagement = .paired role' o' k' phase₁') (hg : phase₁.got k = phase.got k + 1)
    (hg' : phase₁'.got k' = phase'.got k' + 1) (hox : x'.out = x.out) (hoy : y'.out = y.out) : Attuned x' y' := by
  obtain ⟨hr, ho, hk⟩ := h.paired hx hy
  refine ⟨?_, fun he he' => ?_, .of_not_offering (by rw [hx']; rfl), .of_not_offering (by rw [hy']; rfl)⟩
  · have := h.balance
    rw [hx, hy] at this
    rw [hx', hy', hox, hoy]
    exact this
  · rw [hx'] at he
    rw [hy'] at he'
    cases he
    cases he'
    exact ⟨hr, ho, by rw [hg, hg', hk]⟩

/-- An offer is made, or something in the place of one. -/
theorem offered (h : Attuned x y) {o : Option Offer} {m : PeerMessage} (hx : x.engagement = .apart)
    (hm : m.Opens o) (hx' : x'.engagement = .offering o) (hox : x'.out = m ::ₘ x.out) : Attuned x' y := by
  have hbalance := h.balance
  rw [hx] at hbalance
  have hzero : (Engagement.apart).offers = 0 := rfl
  have hone : (Engagement.offering o).offers = 1 := rfl
  refine ⟨?_, fun he => ?_, ⟨fun he ha hy => ?_, fun he hy hm' => ?_, fun he hc => ?_, fun he hy hc hm' => ?_⟩,
    fun hy ha he => ?_, fun hy he => ?_, fun hy hc => h.right.crossed hy hc, fun hy he hc hm' => ?_⟩
  · rw [hx', hox, Multiset.card_cons]
    omega
  · rw [hx'] at he
    exact nomatch he
  · rw [hy] at hbalance
    have hcard := Multiset.card_pos_iff_exists_mem.2 ⟨_, ha⟩
    have hpaired : ∀ role o k phase, (Engagement.paired role o k phase).offers = 0 := fun _ _ _ _ => rfl
    rw [hpaired] at hbalance
    omega
  · rw [hx'] at he
    cases he
    have hout : x.out = 0 := Multiset.card_eq_zero.1 (by omega)
    rw [hox, hout] at hm'
    rwa [Multiset.mem_singleton.1 hm']
  · rw [hx'] at he
    cases he
    exact ⟨m, by rw [hox]; exact Multiset.mem_cons_self m _, hm⟩
  · rw [hx'] at he
    cases he
    rw [hox, Multiset.card_cons] at hc
    have hout : x.out = 0 := Multiset.card_eq_zero.1 (by omega)
    rw [hox, hout] at hm'
    rwa [Multiset.mem_singleton.1 hm']
  · rw [hx'] at he
    exact nomatch he
  · rw [hx', hone] at he
    exact nomatch he
  · exact h.right.opened hy (by rw [hx]; rfl) hm'

private theorem card_erase {m : PeerMessage} {out : Multiset PeerMessage} (hm : m ∈ out) :
    (out.erase m).card + 1 = out.card := by
  have := Multiset.card_erase_add_one hm
  exact this

/-- A create has been answered. -/
theorem concluded (h : Attuned x y) {o : Option Offer} {m : PeerMessage} (hx : x.engagement = .offering o)
    (hm : m ∈ y.out) (hd : ∀ socket count wanted, m ≠ .descriptor socket count wanted)
    (hx' : x'.engagement = .concluded o m) (hox : x'.out = x.out) (hy' : y'.engagement = y.engagement)
    (hoy : y'.out = y.out.erase m) : Attuned x' y' := by
  have hbalance := h.balance
  have hone : ∀ o, (Engagement.offering o).offers = 1 := fun _ => rfl
  rw [hx, hone] at hbalance
  have hzero : x'.engagement.offers = 0 := by rw [hx', Engagement.offers_concluded]
  have hcard := card_erase hm
  have hopens : ∀ {o}, ¬ m.Opens (some o) := fun {o} ho => by
    cases ho with
    | descriptor socket o => exact hd _ _ _ rfl
  have hack : ∀ {role o₁ k phase}, x'.engagement = .paired role o₁ k phase →
      o = some o₁ ∧ role = .create ∧ phase.got k = 0 ∧ ∃ socket, m = .acknowledge socket := by
    intro role o₁ k phase he
    rw [hx'] at he
    unfold Engagement.concluded at he
    split at he
    · cases he
      exact ⟨rfl, rfl, rfl, _, rfl⟩
    · exact nomatch he
  refine ⟨?_, fun he hy => ?_, .of_not_offering hzero, fun hy ha he => ?_, fun hy _ hm' => ?_, fun hy hc => ?_,
    fun hy he => ?_⟩
  · rw [hzero, hox, hoy, hy']
    omega
  · obtain ⟨rfl, rfl, hk, socket, rfl⟩ := hack he
    rw [hy'] at hy
    obtain ⟨rfl, ho, hk'⟩ := h.left.accepted hx hm hy
    exact ⟨nofun, ho.symm, hk.trans hk'.symm⟩
  · -- An acknowledgement would face the offer that it does not answer.
    obtain ⟨rfl, -, -, socket, rfl⟩ := hack he
    rw [hy'] at hy
    rw [hox] at ha
    have h₁ := Multiset.card_pos_iff_exists_mem.2 ⟨_, ha⟩
    have h₂ := Multiset.card_pos_iff_exists_mem.2 ⟨_, hm⟩
    rw [hy, hone] at hbalance
    exact nomatch h.left.facing hx hy (by omega) ha
  · rw [hy'] at hy
    rw [hoy] at hm'
    have h₁ := Multiset.card_pos_iff_exists_mem.2 ⟨_, hm'⟩
    rw [hy, hone] at hbalance
    obtain ⟨m', hmem, ho⟩ := h.right.crossed hy (by omega)
    have hne : m' ≠ m := fun he => hopens (he ▸ ho)
    have hmem' : m' ∈ y.out.erase m := (Multiset.mem_erase_of_ne hne).2 hmem
    obtain ⟨z, hz⟩ := Multiset.card_eq_one.1 (show (y.out.erase m).card = 1 by omega)
    rw [hz] at hm' hmem'
    rw [Multiset.mem_singleton.1 hm', ← Multiset.mem_singleton.1 hmem']
    exact ho
  · rw [hy'] at hy
    rw [hoy] at hc
    rw [hy, hone] at hbalance
    omega
  · rw [he] at hzero
    exact nomatch hzero

/-- An offer has been answered. -/
theorem replied (h : Attuned x y) {m r : PeerMessage} (hx : x.engagement.offers = 0) (hm : m ∈ y.out)
    (hx' : x'.engagement.offers = 0) (hox : x'.out = r ::ₘ x.out) (hy' : y'.engagement = y.engagement)
    (hoy : y'.out = y.out.erase m)
    (hp : ∀ {o role o' k phase}, y.engagement = .offering (some o) → x'.engagement = .paired role o' k phase →
      role = .receive ∧ o' = o ∧ phase.got k = 0) : Attuned x' y' := by
  have hbalance := h.balance
  have hcard := card_erase hm
  have hle : y.engagement.offers ≤ 1 := by
    cases y.engagement with
    | offering o => exact Nat.le_refl 1
    | _ => exact Nat.zero_le 1
  refine ⟨?_, fun he hy => ?_, .of_not_offering hx', fun hy ha he => ?_, fun hy _ hm' => ?_, fun hy hc => ?_,
    fun hy he => ?_⟩
  · rw [hx', hox, hoy, hy', Multiset.card_cons]
    omega
  · rw [hy'] at hy
    have hnone : y.engagement.offers = 0 := by
      rw [hy]
      rfl
    omega
  · rw [hy'] at hy
    exact hp hy he
  · rw [hoy] at hm'
    have := Multiset.card_pos_iff_exists_mem.2 ⟨_, hm'⟩
    omega
  · rw [hoy] at hc
    omega
  · rw [he] at hx'
    exact nomatch hx'

/-- Whatever one of two parties does, they go on agreeing. -/
theorem turn (h : Attuned x y) (ht : x.Turn y x' y') : Attuned x' y' := by
  have hgot : ∀ {k : Nat} {a : LinkAnswer}, a.isAborted = true → (PairPhase.answered a).got k = k := fun ha => if_pos ha
  have hgot' : ∀ {k : Nat} {a : LinkAnswer}, a.isAborted = false → (PairPhase.answered a).got k = k + 1 := fun ha =>
    if_neg fun h => Bool.noConfusion (ha.symm.trans h)
  have hsame : ∀ {e : Engagement}, e.Follows e := fun {e} => .same e
  cases ht with
  | stay => exact h
  | attend hx => exact h.follows (hx ▸ .attend) hsame rfl rfl
  | offer hx hm => exact h.offered hx hm rfl rfl
  | conclude hx hm hd => exact h.concluded hx hm hd rfl rfl rfl rfl
  | decline hx hm => exact h.replied (hx ▸ rfl) hm rfl rfl rfl rfl fun _ he => nomatch he
  | refuse hx hm => exact h.replied (hx ▸ rfl) hm rfl rfl rfl rfl fun _ he => nomatch he
  | accept hx hm =>
    refine h.replied (hx ▸ rfl) hm rfl rfl rfl rfl fun hy he => ?_
    cases he
    cases h.right.opened hy (hx ▸ rfl) hm with
    | descriptor socket o => exact ⟨rfl, rfl, rfl⟩
  | drop hx => exact h.follows (.left (hx ▸ rfl)) hsame rfl rfl
  | complete hx hk => exact h.follows (.left (hx ▸ rfl)) hsame rfl rfl
  | quit hx hp => exact h.follows (.left (hx ▸ rfl)) hsame rfl rfl
  | yield hx => exact h.follows (.left (hx ▸ rfl)) hsame rfl rfl
  | take hx => exact h.follows (hx ▸ .paired (hgot' rfl).symm) hsame rfl rfl
  | deliver hx hp =>
    refine h.follows (hx ▸ .paired ?_) hsame rfl rfl
    rcases hp with rfl | rfl
    · exact (hgot' rfl).symm
    · rfl
  | turnedAway hx hf => exact h.follows (hx ▸ .paired (hgot rfl)) hsame rfl rfl
  | ask hx hf hk => exact h.follows (hx ▸ .paired rfl) hsame rfl rfl
  | turnedDown hx hy hf hk => exact h.joined hx hy rfl rfl (hgot' rfl) (hgot' rfl) rfl rfl
  | join hx hy ha => exact h.joined hx hy rfl rfl (hgot' ha) (hgot' ha) rfl rfl
  | abortBoth hx hy => exact h.follows (hx ▸ .paired (hgot rfl)) (hy ▸ .paired (hgot rfl)) rfl rfl
  | abortOwn hx hy => exact h.follows (hx ▸ .paired (hgot rfl)) hsame rfl rfl
  | abortOther hx hy => exact h.follows hsame (hy ▸ .paired (hgot rfl)) rfl rfl

end Attuned

end QuantumNode
