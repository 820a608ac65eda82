import QuantumNode.Proofs.Handshake.Party

/-! How two parties get from pair to pair: what the link has settled for one of them it has settled for the other, and
it settles no pair twice. -/
namespace QuantumNode

/-- What the link has settled for an end that has not finished with it. -/
def PairPhase.settled? : PairPhase → Option LinkAnswer
  | .answered a => if a.isAborted then none else some a
  | .correcting p => some (.pair p)
  | .ready | .asking => none

theorem PairPhase.settled?_answered {a : LinkAnswer} (h : a.isAborted = false) :
    (PairPhase.answered a).settled? = some a :=
  if_neg fun ha => Bool.noConfusion (h.symm.trans ha)

def Engagement.isPaired : Engagement → Bool
  | .paired .. => true
  | _ => false

theorem PairPhase.got_of_none {phase : PairPhase} (h : phase.settled? = none) (k : Nat) : phase.got k = k := by
  cases phase with
  | answered a =>
    change (if a.isAborted then none else some a) = none at h
    split at h
    · rename_i ha
      exact if_pos ha
    · exact nomatch h
  | correcting p => exact nomatch h
  | _ => rfl

theorem PairPhase.got_of_some {phase : PairPhase} {a : LinkAnswer} (h : phase.settled? = some a) (k : Nat) :
    phase.got k = k + 1 := by
  cases phase with
  | answered b =>
    change (if b.isAborted then none else some b) = some a at h
    split at h
    · exact nomatch h
    · rename_i ha
      exact if_neg ha
  | correcting p => rfl
  | ready => exact nomatch h
  | asking => exact nomatch h

namespace Party

/-- The number of the handshake that a party is in, by its role: a create has told so many messages, a receive has
taken so many. -/
def number (x y : Party) : PairRole → Nat
  | .create => x.told
  | .receive => y.told - y.out.card

/-- The link has settled pair `k` for a party that has not finished with it. -/
def Holds (x : Party) (role : PairRole) (k : Nat) (a : LinkAnswer) : Prop :=
  ∃ o phase, x.engagement = .paired role o k phase ∧ phase.settled? = some a

/-- Nothing has been settled yet for pair `k`, at which a party is. -/
def At (x : Party) (role : PairRole) (k : Nat) : Prop :=
  ∃ o phase, x.engagement = .paired role o k phase ∧ phase.settled? = none

variable {x y x' y' : Party}

theorem Holds.unique {role role' : PairRole} {k k' : Nat} {a a' : LinkAnswer} (h : x.Holds role k a)
    (h' : x.Holds role' k' a') : role = role' ∧ k = k' ∧ a = a' := by
  obtain ⟨o, phase, he, ha⟩ := h
  obtain ⟨o', phase', he', ha'⟩ := h'
  rw [he] at he'
  cases he'
  rw [ha] at ha'
  cases ha'
  exact ⟨rfl, rfl, rfl⟩

/-- The link settles pair `k` for two parties in different roles. -/
def Meet (x y x' y' : Party) : Prop :=
  ∃ role role' k a, role ≠ role' ∧ x.At role k ∧ y.At role' k ∧ x'.Holds role k a ∧ y'.Holds role' k a

theorem Meet.symm (h : Meet x y x' y') : Meet y x y' x' := by
  obtain ⟨role, role', k, a, hr, hx, hy, hx', hy'⟩ := h
  exact ⟨role', role, k, a, hr.symm, hy, hx, hy', hx'⟩

/-- What is settled for a party has been settled before, or has just been settled for both. -/
theorem Turn.settled (ht : x.Turn y x' y') (ha : Attuned x y) :
    Meet x y x' y' ∨ (∀ role k a, x'.Holds role k a → x.Holds role k a) ∧ ∀ role k a, y'.Holds role k a → y.Holds role k a := by
  have hmeet : ∀ {role role' : PairRole} {o o' : Offer} {k k' : Nat} {phase phase' : PairPhase} {a : LinkAnswer},
      x.engagement = .paired role o k phase → y.engagement = .paired role' o' k' phase' → phase.settled? = none →
      phase'.settled? = none → a.isAborted = false → x'.engagement = .paired role o k (.answered a) →
      y'.engagement = .paired role' o' k' (.answered a) → Meet x y x' y' := by
    intro role role' o o' k k' phase phase' a hx hy hs hs' hab hx' hy'
    obtain ⟨hr, -, hk⟩ := ha.paired hx hy
    rw [PairPhase.got_of_none hs, PairPhase.got_of_none hs'] at hk
    subst hk
    have hsettled := PairPhase.settled?_answered hab
    exact ⟨role, role', k, a, hr, ⟨o, phase, hx, hs⟩, ⟨o', phase', hy, hs'⟩, ⟨o, _, hx', hsettled⟩, ⟨o', _, hy', hsettled⟩⟩
  have hkeep : ∀ {z z' : Party}, z'.engagement = z.engagement → ∀ role k a, z'.Holds role k a → z.Holds role k a :=
    fun he role k a ⟨o, phase, hz, hs⟩ => ⟨o, phase, he ▸ hz, hs⟩
  have hnone : ∀ {z' : Party}, (∀ role o k phase a, z'.engagement = .paired role o k phase → phase.settled? ≠ some a) →
      ∀ {z : Party}, ∀ role k a, z'.Holds role k a → z.Holds role k a :=
    fun hz' _ role k a ⟨o, phase, hz, hs⟩ => absurd hs (hz' role o k phase a hz)
  have hnot : ∀ {z z' : Party}, z'.engagement.isPaired = false → ∀ role k a, z'.Holds role k a → z.Holds role k a := by
    intro z z' hz role k a ⟨o, phase, he, hs⟩
    rw [he] at hz
    exact nomatch hz
  have hempty : ∀ {z' : Party} {role o k phase}, z'.engagement = .paired role o k phase → phase.settled? = none →
      ∀ role o k phase a, z'.engagement = .paired role o k phase → phase.settled? ≠ some a := by
    intro z' role o k phase hz hs role' o' k' phase' a hz' hs'
    rw [hz] at hz'
    cases hz'
    exact nomatch hs.symm.trans hs'
  cases ht with
  | stay => exact .inr ⟨hkeep rfl, hkeep rfl⟩
  | attend hx => exact .inr ⟨hnot rfl, hkeep rfl⟩
  | offer hx hm => exact .inr ⟨hnot rfl, hkeep rfl⟩
  | @conclude o m hx hm hd =>
    refine .inr ⟨hnone fun role o' k phase a h hs => ?_, hkeep rfl⟩
    change Engagement.concluded o m = _ at h
    unfold Engagement.concluded at h
    split at h
    · cases h
      exact nomatch hs
    · exact nomatch h
  | decline hx hm => exact .inr ⟨hnot rfl, hkeep rfl⟩
  | refuse hx hm => exact .inr ⟨hnot rfl, hkeep rfl⟩
  | accept hx hm => exact .inr ⟨hnone (hempty rfl rfl), hkeep rfl⟩
  | drop hx => exact .inr ⟨hnot rfl, hkeep rfl⟩
  | complete hx hk => exact .inr ⟨hnot rfl, hkeep rfl⟩
  | quit hx hp => exact .inr ⟨hnot rfl, hkeep rfl⟩
  | yield hx => exact .inr ⟨hnot rfl, hkeep rfl⟩
  | @take role o k p hx =>
    refine .inr ⟨fun role' k' a ⟨o', phase, he, hs⟩ => ?_, hkeep rfl⟩
    cases he
    cases hs
    exact ⟨o, _, hx, rfl⟩
  | deliver hx hp => exact .inr ⟨hnone (hempty rfl rfl), hkeep rfl⟩
  | turnedAway hx hf => exact .inr ⟨hnone (hempty rfl rfl), hkeep rfl⟩
  | ask hx hf hk => exact .inr ⟨hnone (hempty rfl rfl), hkeep rfl⟩
  | turnedDown hx hy hf hk => exact .inl (hmeet hx hy rfl rfl rfl rfl rfl)
  | join hx hy hab => exact .inl (hmeet hx hy rfl rfl hab rfl rfl)
  | abortBoth hx hy => exact .inr ⟨hnone (hempty rfl rfl), hnone (hempty rfl rfl)⟩
  | abortOwn hx hy => exact .inr ⟨hnone (hempty rfl rfl), hkeep rfl⟩
  | abortOther hx hy => exact .inr ⟨hkeep rfl, hnone (hempty rfl rfl)⟩

/-- The number of a handshake stays the same while a party is in it. -/
theorem Turn.number_own (ht : x.Turn y x' y') {role : PairRole} {o o' : Offer} {k k' : Nat} {phase phase' : PairPhase}
    (hx : x.engagement = .paired role o k phase) (hx' : x'.engagement = .paired role o' k' phase') :
    x'.number y' role = x.number y role := by
  cases ht with
  | offer h hm => exact nomatch hx'
  | conclude h hm hd => exact nomatch hx.symm.trans h
  | decline h hm => exact nomatch hx.symm.trans h
  | refuse h hm => exact nomatch hx.symm.trans h
  | accept h hm => exact nomatch hx.symm.trans h
  | _ =>
    cases role with
    | create => rfl
    | receive => rfl

theorem Turn.number_peer (ht : x.Turn y x' y') (role : PairRole) : y'.number x' role = y.number x role := by
  have htell : ∀ (m : PeerMessage) (out : Multiset PeerMessage) (t : Nat),
      t + 1 - (m ::ₘ out).card = t - out.card := fun m out t => by
    rw [Multiset.card_cons]
    omega
  cases role with
  | create =>
    cases ht with
    | _ => rfl
  | receive =>
    cases ht with
    | offer h hm => exact htell ..
    | decline h hm => exact htell ..
    | refuse h hm => exact htell ..
    | accept h hm => exact htell ..
    | _ => rfl

/-- Pair `k` of the creating party's handshake `number` is behind it. -/
structure Past (x : Party) (number k : Nat) : Prop where
  le : number ≤ x.told
  concluded : number = x.told → ∀ o, x.engagement ≠ .offering o
  behind : number = x.told → ∀ o k' phase, x.engagement = .paired .create o k' phase → k < phase.got k'

theorem Turn.past_own (ht : x.Turn y x' y') {number k : Nat} (h : x.Past number k) : x'.Past number k := by
  have htell : ∀ {z : Party}, z.told = x.told + 1 → z.Past number k := fun {z} hz => by
    have := h.le
    exact ⟨by omega, fun hn => by omega, fun hn => by omega⟩
  have hkeep : ∀ {z : Party}, z.told = x.told → x.engagement.Follows z.engagement → z.Past number k := fun {z} hz hf => by
    refine ⟨hz ▸ h.le, fun hn o he => h.concluded (hn.trans hz) o (hf.offering he), fun hn o k' phase he => ?_⟩
    obtain ⟨k₀, phase₀, he₀, hg⟩ := hf.paired_of he
    rw [hg]
    exact h.behind (hn.trans hz) _ _ _ he₀
  have hjoin : ∀ {z : Party} {role o k' phase phase'}, z.told = x.told → x.engagement = .paired role o k' phase →
      z.engagement = .paired role o k' phase' → phase.got k' ≤ phase'.got k' → z.Past number k := by
    intro z role o k' phase phase' hz hx hz' hg
    refine ⟨hz ▸ h.le, fun _ o he => ?_, fun hn o₁ k₁ phase₁ he => ?_⟩
    · exact nomatch hz'.symm.trans he
    · rw [hz'] at he
      cases he
      exact Nat.lt_of_lt_of_le (h.behind (hn.trans hz) _ _ _ hx) hg
  cases ht with
  | stay => exact h
  | attend hx => exact hkeep rfl (hx ▸ .attend)
  | offer hx hm => exact htell rfl
  | @conclude o m hx hm hd =>
    -- What has been settled belongs to an earlier offer.
    have hne : number ≠ x.told := fun hn => h.concluded hn o hx
    exact ⟨h.le, fun hn => absurd hn hne, fun hn => absurd hn hne⟩
  | decline hx hm => exact htell rfl
  | refuse hx hm => exact htell rfl
  | accept hx hm => exact htell rfl
  | drop hx => exact hkeep rfl (.left (hx ▸ rfl))
  | complete hx hk => exact hkeep rfl (.left (hx ▸ rfl))
  | quit hx hp => exact hkeep rfl (.left (hx ▸ rfl))
  | yield hx => exact hkeep rfl (.left (hx ▸ rfl))
  | take hx => exact hkeep rfl (hx ▸ .paired rfl)
  | deliver hx hp =>
    refine hkeep rfl (hx ▸ .paired ?_)
    rcases hp with rfl | rfl
    · rfl
    · rfl
  | turnedAway hx hf => exact hkeep rfl (hx ▸ .paired rfl)
  | ask hx hf hk => exact hkeep rfl (hx ▸ .paired rfl)
  | turnedDown hx hy hf hk => exact hjoin rfl hx rfl (Nat.le_succ _)
  | @join role role' o o' k' k₂ a hx hy hab =>
    refine hjoin rfl hx rfl ?_
    rw [PairPhase.got_of_some (PairPhase.settled?_answered hab)]
    exact Nat.le_succ _
  | abortBoth hx hy => exact hkeep rfl (hx ▸ .paired rfl)
  | abortOwn hx hy => exact hkeep rfl (hx ▸ .paired rfl)
  | abortOther hx hy => exact h

theorem Turn.past_peer (ht : x.Turn y x' y') {number k : Nat} (h : y.Past number k) : y'.Past number k := by
  have hsame : ∀ {z : Party}, z.told = y.told → z.engagement = y.engagement → z.Past number k := fun {z} hz he => by
    obtain ⟨h₁, h₂, h₃⟩ := h
    rw [← hz, ← he] at h₂ h₃
    rw [← hz] at h₁
    exact ⟨h₁, h₂, h₃⟩
  have hjoin : ∀ {z : Party} {role o k' phase phase'}, z.told = y.told → y.engagement = .paired role o k' phase →
      z.engagement = .paired role o k' phase' → phase.got k' ≤ phase'.got k' → z.Past number k := by
    intro z role o k' phase phase' hz hy hz' hg
    refine ⟨hz ▸ h.le, fun _ o he => ?_, fun hn o₁ k₁ phase₁ he => ?_⟩
    · exact nomatch hz'.symm.trans he
    · rw [hz'] at he
      cases he
      exact Nat.lt_of_lt_of_le (h.behind (hn.trans hz) _ _ _ hy) hg
  cases ht with
  | turnedDown hx hy hf hk => exact hjoin rfl hy rfl (Nat.le_succ _)
  | @join role role' o o' k' k₂ a hx hy hab =>
    refine hjoin rfl hy rfl ?_
    rw [PairPhase.got_of_some (PairPhase.settled?_answered hab)]
    exact Nat.le_succ _
  | abortBoth hx hy => exact hjoin rfl hy rfl (Nat.le_refl _)
  | abortOther hx hy => exact hjoin rfl hy rfl (Nat.le_refl _)
  | _ => exact hsame rfl rfl

end Party

end QuantumNode
