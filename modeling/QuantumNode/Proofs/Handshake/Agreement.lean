import QuantumNode.Proofs.Handshake.Peers
import QuantumNode.Proofs.Handshake.Progress

/-! The two ends of a handshake agree on every pair: they ask for the same one, and the link settles it for both
alike. -/
namespace QuantumNode

open Work Working

variable {n m : Nat}

/-- A handshake is known by the node that creates, the node that receives, and the number of the message with which
the one has opened it for the other. -/
structure Handshake (n : Nat) where
  creator : Fin n
  receiver : Fin n
  number : Nat
  deriving DecidableEq

/-- A node is one of the two ends. -/
def Handshake.Has (h : Handshake n) (i : Fin n) : Prop := i = h.creator ∨ i = h.receiver

/-- The handshake of a node with a peer, by the role of the node. -/
def Handshake.of (i j : Fin n) (number : Nat) : PairRole → Handshake n
  | .create => ⟨i, j, number⟩
  | .receive => ⟨j, i, number⟩

/-- The task of a pair service, and the pair that it is at. -/
def PairStage.task? : PairStage → Option (PairTask × Nat)
  | .next t k | .starving t k | .linking t k _ | .correcting t k .. => some (t, k)
  | _ => none

/-- The handshake that a pair service is in: a create has sent so many messages, a receive has taken so many. -/
def View.handshake? (v : View n m) (i : Fin n) : Option (Handshake n) :=
  (v.stage i).task?.bind fun (t, _) => (Pairing.peer? i t.request.remote).map fun j =>
    match t.request.role with
    | .create => ⟨i, j, v.told i j⟩
    | .receive => ⟨j, i, v.told j i - (v.underway j i).card⟩

namespace View

variable {v v' : View n m} {i j : Fin n}

/-- What a pair service that is paired with a peer is working on. -/
theorem task_of_engagement {role : PairRole} {o : Offer} {k : Nat} {phase : PairPhase}
    (h : v.engagement i j = .paired role o k phase) : ∃ t, (v.stage i).task? = some (t, k) ∧ t.request.role = role ∧
      t.offer = o ∧ Pairing.peer? i t.request.remote = some j := by
  unfold engagement at h
  split at h
  · rename_i hf
    obtain ⟨r, hr, hj⟩ := hf
    cases hst : v.stage i with
    | next t k' =>
      rw [hst] at h hr
      cases hr
      cases h
      exact ⟨t, rfl, rfl, rfl, hj⟩
    | starving t k' =>
      rw [hst] at h hr
      cases hr
      cases h
      exact ⟨t, rfl, rfl, rfl, hj⟩
    | linking t k' position =>
      rw [hst] at h hr
      cases hr
      cases h
      exact ⟨t, rfl, rfl, rfl, hj⟩
    | correcting t k' position pair c calls =>
      rw [hst] at h hr
      cases hr
      cases h
      exact ⟨t, rfl, rfl, rfl, hj⟩
    | _ =>
      rw [hst] at h
      exact nomatch h
  · exact nomatch h

theorem handshake_of_engagement {role : PairRole} {o : Offer} {k : Nat} {phase : PairPhase}
    (h : v.engagement i j = .paired role o k phase) :
    v.handshake? i = some (.of i j ((v.party i j).number (v.party j i) role) role) := by
  obtain ⟨t, ht, rfl, -, hj⟩ := task_of_engagement h
  unfold handshake?
  rw [ht, Option.bind_some]
  dsimp only
  rw [hj, Option.map_some]
  cases t.request.role with
  | create => rfl
  | receive => rfl

theorem ne_of_paired {role : PairRole} {o : Offer} {k : Nat} {phase : PairPhase}
    (h : v.engagement i j = .paired role o k phase) : i ≠ j := by
  obtain ⟨t, -, -, -, hj⟩ := task_of_engagement h
  exact fun hij => (Pairing.peer?_eq_some.1 hj).2 hij.symm

/-- The link has settled pair `k` of a handshake for a node that has not finished with it. -/
def Holds (v : View n m) (i : Fin n) (h : Handshake n) (k : Nat) (a : LinkAnswer) : Prop :=
  ∃ j role, (v.party i j).Holds role k a ∧ h = .of i j ((v.party i j).number (v.party j i) role) role

end View

theorem Handshake.of_swap {i j : Fin n} {number : Nat} {role role' : PairRole} (h : role ≠ role') :
    Handshake.of j i number role' = .of i j number role := by
  cases role with
  | create =>
    cases role' with
    | create => exact absurd rfl h
    | receive => rfl
  | receive =>
    cases role' with
    | create => rfl
    | receive => exact absurd rfl h

/-- Two parties at a pair are in one handshake. -/
theorem Attuned.number_eq {x y : Party} (h : Attuned x y) {role role' : PairRole} {o o' : Offer} {k k' : Nat}
    {phase phase' : PairPhase} (hx : x.engagement = .paired role o k phase)
    (hy : y.engagement = .paired role' o' k' phase') : y.number x role' = x.number y role := by
  obtain ⟨hr, -, -⟩ := h.paired hx hy
  have hb := h.balance
  rw [hx, hy] at hb
  change _ = 0 + 0 at hb
  cases role with
  | create =>
    cases role' with
    | create => exact absurd rfl hr
    | receive =>
      change x.told - x.out.card = x.told
      omega
  | receive =>
    cases role' with
    | create =>
      change y.told = y.told - y.out.card
      omega
    | receive => exact absurd rfl hr

namespace View

variable {v v' : View n m} {i j : Fin n} {does : Doings n m}

/-- What is settled for a node after a step has been settled for it before, or has just been settled for both ends. -/
theorem Changes.holds (hc : v.Changes does v') (hw : v.Wired) (ha : v.Agreed) {h : Handshake n} {k : Nat}
    {a : LinkAnswer} (hh : v'.Holds i h k a) : v.Holds i h k a ∨
      (¬ (v.party h.creator h.receiver).Past h.number k ∧ ∀ e, h.Has e → v'.Holds e h k a) := by
  obtain ⟨j, role, hholds, rfl⟩ := hh
  have ⟨o, phase, he', hs⟩ := hholds
  have hij : i ≠ j := ne_of_paired he'
  have hnumber : ∀ {role o k phase}, v.engagement i j = .paired role o k phase →
      (∃ o' k' phase', v'.engagement i j = .paired role o' k' phase') →
      (v'.party i j).number (v'.party j i) role = (v.party i j).number (v.party j i) role := by
    rintro role o k phase he ⟨o', k', phase', he'⟩
    rcases hc.turn hw hij with ht | ht
    · exact ht.number_own he he'
    · exact ht.number_peer role
  have hold : (v.party i j).Holds role k a → v.Holds i (.of i j ((v'.party i j).number (v'.party j i) role) role) k a :=
    fun hx => by
      have ⟨o₀, phase₀, he, hs₀⟩ := hx
      exact ⟨j, role, hx, by rw [hnumber he ⟨_, _, _, he'⟩]⟩
  have hmeet : Party.Meet (v.party i j) (v.party j i) (v'.party i j) (v'.party j i) ∨ (v.party i j).Holds role k a := by
    rcases hc.turn hw hij with ht | ht
    · rcases ht.settled (ha i j hij) with hm | hm
      · exact .inl hm
      · exact .inr (hm.1 _ _ _ hholds)
    · rcases ht.settled (ha j i hij.symm) with hm | hm
      · exact .inl hm.symm
      · exact .inr (hm.2 _ _ _ hholds)
  rcases hmeet with ⟨role₁, role', k₁, a₁, hr, ⟨o₁, phase₁, hx, hs₁⟩, ⟨o₂, phase₂, hy, hs₂⟩, hx', hy'⟩ | hx
  · obtain ⟨rfl, rfl, rfl⟩ := hx'.unique hholds
    refine .inr ⟨?_, ?_⟩
    · -- Whoever creates is at pair `k`, for which nothing has been settled.
      have ⟨o₃, phase₃, hy'', _⟩ := hy'
      have hown := hnumber hx ⟨_, _, _, he'⟩
      have heq := (ha i j hij).number_eq hx hy
      rw [hown]
      cases hrole : role₁ with
      | create =>
        subst hrole
        intro hpast
        have := hpast.behind rfl _ _ _ hx
        rw [PairPhase.got_of_none hs₁] at this
        exact Nat.lt_irrefl _ this
      | receive =>
        subst hrole
        obtain rfl : role' = .create := by
          cases role' with
          | create => rfl
          | receive => exact absurd rfl hr
        intro hpast
        have := hpast.behind heq.symm _ _ _ hy
        rw [PairPhase.got_of_none hs₂] at this
        exact Nat.lt_irrefl _ this
    · have hother : v'.Holds j (.of i j ((v'.party i j).number (v'.party j i) role₁) role₁) k₁ a₁ := by
        have ⟨o₃, phase₃, hy'', _⟩ := hy'
        refine ⟨i, role', hy', ?_⟩
        have hagreed : Attuned (v'.party i j) (v'.party j i) := hc.agreed hw ha i j hij
        rw [hagreed.number_eq he' hy'', Handshake.of_swap hr]
      have hself : v'.Holds i (.of i j ((v'.party i j).number (v'.party j i) role₁) role₁) k₁ a₁ := ⟨j, role₁, hx', rfl⟩
      intro e he
      cases role₁ with
      | create =>
        rcases he with rfl | rfl
        · exact hself
        · exact hother
      | receive =>
        rcases he with rfl | rfl
        · exact hother
        · exact hself
  · exact .inl (hold hx)

theorem Relinked.keeps_answer {l : Fin m} {link : Link} {es : List LinkEffect}
    (hv : v.Relinked l link (LinkEffect.replies es) v') (hw : v.Wired) (hr : Link.Replies (v.link l) link es)
    (hi : v.answers i ≠ 0) : v'.answers i = v.answers i ∧ v'.stage i = v.stage i := by
  refine ⟨hv.unanswered i fun x hx hnode => ?_, by rw [hv.stage]⟩
  obtain ⟨c, -, hs⟩ := hw.seated_of_reply hr hx hnode
  exact hi hs.answers

/-- An answer stays with a pair service until this goes on with it. -/
theorem Changes.keeps_answer (hc : v.Changes does v') (hw : v.Wired) {a : LinkAnswer} (ha : v.answers i = {a}) :
    (v'.answers i = {a} ∧ v'.stage i = v.stage i) ∨ ∃ took told flow, does i (.answer a) took told flow := by
  have hi : v.answers i ≠ 0 := by
    rw [ha]
    exact Multiset.singleton_ne_zero a
  have hlinking : ∃ t k position, v.stage i = .linking t k position := by
    refine Classical.byContradiction fun hnot => hi (hw.quiet i fun t k position hst => hnot ⟨t, k, position, hst⟩)
  obtain ⟨t, k, position, hst⟩ := hlinking
  have hsame : v'.answers i = v.answers i ∧ v'.stage i = v.stage i → (v'.answers i = {a} ∧ v'.stage i = v.stage i) ∨
      ∃ took told flow, does i (.answer a) took told flow := fun h => .inl ⟨h.1.trans ha, h.2⟩
  cases hc with
  | still => exact hsame ⟨rfl, rfl⟩
  | @deed b wake took told flow recorded hx hwake ht hd hf hl hn =>
    by_cases hib : i = b
    · subst hib
      obtain ⟨a', rfl⟩ := hl t k position hst
      have hmem := hwake a' rfl
      rw [ha] at hmem
      rw [Multiset.mem_singleton.1 hmem] at hx
      exact .inr ⟨_, _, _, hx.1⟩
    · exact hsame ⟨answers_after_of_ne v b wake took told flow.stage hib, by rw [stage_after, if_neg hib]⟩
  | @call b t' k' l e v' hq hs hk hp hwait hcall =>
    have hib : i ≠ b := fun hib => asks_ne_linking hs t k position (hib ▸ hst)
    have hquiet := hw.quiet b (asks_ne_linking hs)
    have hplaced : ∀ {stage answers link v₁}, v.Placed b stage answers l link v₁ →
        v₁.answers i = v.answers i ∧ v₁.stage i = v.stage i := fun hv =>
      ⟨by rw [hv.answers, if_neg hib], by rw [hv.stage, if_neg hib]⟩
    cases hcall with
    | refused hf hl => exact hsame (hplaced (placed_refused hquiet _ _ _))
    | waits hf hr hreq hn hlw hlf hm => exact hsame (hplaced (placed_sit hquiet _ _))
    | @turned position' c link es kind kind' _ hf hr hreq ho hj hv =>
      have hsit := hplaced (placed_sit (l := l) (e := e) hquiet (.linking t' k' position') ((v.link l).await e c))
      have hreplies := hj.toReplies
      rw [← (link_sit v b (.linking t' k' position') l l e ((v.link l).await e c)).trans (if_pos rfl)] at hreplies
      obtain ⟨h₁, h₂⟩ := hv.keeps_answer (hw.await _ hp (asks_ne_linking hs) hk hwait hf hr hreq) hreplies
        (by rw [hsit.1]; exact hi)
      exact hsame ⟨h₁.trans hsit.1, h₂.trans hsit.2⟩
  | abort hq hp hab hv => exact hsame (hv.keeps_answer hw hab.toReplies hi)
  | join hq hj hv => exact hsame (hv.keeps_answer hw hj.toReplies hi)

/-- An answer at a pair is one that the pair service is still to look at. -/
theorem linking_of_answered {role : PairRole} {o : Offer} {k : Nat} {a : LinkAnswer}
    (h : v.engagement i j = .paired role o k (.answered a)) :
    ∃ t position b, v.stage i = .linking t k position ∧ v.answers i = {b} ∧ b.plain = a := by
  unfold engagement at h
  split at h
  · cases hst : v.stage i with
    | linking t k' position =>
      rw [hst] at h
      injection h with _ _ hk hph
      subst hk
      unfold phase at hph
      split at hph
      · rename_i hex
        exact ⟨t, position, _, rfl, hex.choose_spec, by injection hph⟩
      · exact nomatch hph
    | next t k' =>
      rw [hst] at h
      injection h with _ _ _ hph
      exact nomatch hph
    | starving t k' =>
      rw [hst] at h
      injection h with _ _ _ hph
      exact nomatch hph
    | correcting t k' position pair c calls =>
      rw [hst] at h
      injection h with _ _ _ hph
      exact nomatch hph
    | _ =>
      rw [hst] at h
      exact nomatch h
  · exact nomatch h

/-- A pair for which the link has settled a refusal. -/
theorem Holds.refused {h : Handshake n} {k : Nat} {cause : LinkRefusal} (hh : v.Holds i h k (.refused cause .keep)) :
    ∃ t position kind, v.stage i = .linking t k position ∧ v.answers i = {.refused cause kind} ∧
      v.handshake? i = some h := by
  obtain ⟨j, role, ⟨o, phase, he, hs⟩, rfl⟩ := hh
  have he' : v.engagement i j = .paired role o k phase := he
  have hhand := handshake_of_engagement he'
  have hphase : phase = .answered (.refused cause .keep) := by
    cases phase with
    | answered a =>
      change (if a.isAborted then none else some a) = _ at hs
      split at hs
      · exact nomatch hs
      · exact congrArg _ (Option.some.inj hs)
    | correcting p => exact nomatch hs
    | ready => exact nomatch hs
    | asking => exact nomatch hs
  subst hphase
  obtain ⟨t, position, b, hst, hb, hplain⟩ := linking_of_answered he'
  cases b with
  | refused cause' kind =>
    cases hplain
    exact ⟨t, position, kind, hst, hb, hhand⟩
  | pair p => exact nomatch hplain

end View

namespace Network

/-- The handshake that the pair service of a node is in. -/
def handshake? (s : Network n m) (i : Fin n) : Option (Handshake n) := s.view.handshake? i

/-- A pair service goes on with a refusal of its link, at pair `k` of a handshake. -/
def Sees (s : Network n m) (i : Fin n) (h : Handshake n) (k : Nat) (cause : LinkRefusal) : Prop :=
  ∃ kind t position, s.current = some (pairId i, .answer (.refused cause kind)) ∧
    s.pairStage i = .linking t k position ∧ s.handshake? i = some h

/-- A refusal of its link is on the way to a pair service, at pair `k` of a handshake. -/
def Awaits (s : Network n m) (i : Fin n) (h : Handshake n) (k : Nat) (cause : LinkRefusal) : Prop :=
  ∃ kind t position, .refused cause kind ∈ s.answers i ∧ s.pairStage i = .linking t k position ∧
    s.handshake? i = some h

/-- A pair service writes the row of results for pair `k` of a handshake. -/
def Writes (s : Network n m) (i : Fin n) (h : Handshake n) (k : Nat) (row : List (Except Fault (Option Int))) : Prop :=
  ∃ wake t w mem, s.current = some (pairId i, wake) ∧ (s.pairStage i).task? = some (t, k) ∧ s.handshake? i = some h ∧
    (Pairing.step (pairId i) (s.pairStage i) wake).exec (s.working i) = (.ok (.go (.next t (k + 1))), w) ∧
    w.part.apps.get? t.request.app = some mem ∧ mem.row t.request.resultArray k = row

/-- The link has settled pair `k` of a handshake for an end, in a state or before it. -/
def Settled (past : List (Moment n m)) (s : Network n m) (h : Handshake n) (k : Nat) (a : LinkAnswer) : Prop :=
  ∃ u, (u = s ∨ ∃ moment ∈ past, u = moment.state) ∧ ∃ i, u.view.Holds i h k a

/-- What has become of the pairs of a run. -/
structure Settles (past : List (Moment n m)) (s : Network n m) : Prop where
  unique : ∀ {h k a a'}, Settled past s h k a → Settled past s h k a' → a = a'
  behind : ∀ {h k a}, Settled past s h k a → h.creator ≠ h.receiver ∧
    (s.view.party h.creator h.receiver).Past h.number k
  kept : ∀ {h k cause i}, Settled past s h k (.refused cause .keep) → h.Has i →
    s.view.Holds i h k (.refused cause .keep) ∨ ∃ moment ∈ past, moment.state.Sees i h k cause

end Network

namespace View

variable {v v' : View n m} {i j : Fin n} {does : Doings n m}

theorem Holds.unique {h : Handshake n} {k k' : Nat} {a a' : LinkAnswer} {h' : Handshake n} (hh : v.Holds i h k a)
    (hh' : v.Holds i h' k' a') : k = k' ∧ a = a' := by
  obtain ⟨j, role, hx, -⟩ := hh
  obtain ⟨j', role', hx', -⟩ := hh'
  have ⟨o, phase, he, _⟩ := hx
  have ⟨o', phase', he', _⟩ := hx'
  have he : v.engagement i j = .paired role o k phase := he
  have he' : v.engagement i j' = .paired role' o' k' phase' := he'
  obtain ⟨t, ht, -, -, hj⟩ := task_of_engagement he
  obtain ⟨t', ht', -, -, hj'⟩ := task_of_engagement he'
  rw [ht] at ht'
  cases ht'
  rw [hj] at hj'
  cases hj'
  exact (hx.unique hx').2

theorem Holds.ne {h : Handshake n} {k : Nat} {a : LinkAnswer} (hh : v.Holds i h k a) :
    h.creator ≠ h.receiver ∧ h.Has i := by
  obtain ⟨j, role, ⟨o, phase, he, -⟩, rfl⟩ := hh
  have hij : i ≠ j := ne_of_paired he
  cases role with
  | create => exact ⟨hij, .inl rfl⟩
  | receive => exact ⟨hij.symm, .inr rfl⟩

theorem Changes.past (hc : v.Changes does v') (hw : v.Wired) (hij : i ≠ j) {number k : Nat}
    (h : (v.party i j).Past number k) : (v'.party i j).Past number k := by
  rcases hc.turn hw hij with ht | ht
  · exact ht.past_own h
  · exact ht.past_peer h

/-- What the creating end holds is behind it. -/
theorem Holds.past {h : Handshake n} {k : Nat} {a : LinkAnswer} (hh : v.Holds h.creator h k a) :
    (v.party h.creator h.receiver).Past h.number k := by
  have hne := hh.ne.1
  obtain ⟨j, role, ⟨o, phase, he, hs⟩, hof⟩ := hh
  cases role with
  | receive =>
    have hr : h.creator = j := congrArg Handshake.creator hof
    exact absurd hr (ne_of_paired he)
  | create =>
    have hr : h.receiver = j := congrArg Handshake.receiver hof
    have hn : h.number = (v.party h.creator j).told := congrArg Handshake.number hof
    rw [hr, hn]
    refine ⟨Nat.le_refl _, fun _ o' ho => (nomatch he.symm.trans ho), fun _ o' k' phase' he' => ?_⟩
    rw [he] at he'
    cases he'
    rw [PairPhase.got_of_some hs]
    exact Nat.lt_succ_self k

/-- A refusal that has been settled stays with a pair service until this sees it. -/
theorem Changes.keeps_refusal (hc : v.Changes does v') (hw : v.Wired) {h : Handshake n} {k : Nat} {cause : LinkRefusal}
    (hh : v.Holds i h k (.refused cause .keep)) : v'.Holds i h k (.refused cause .keep) ∨
      ∃ kind took told flow, does i (.answer (.refused cause kind)) took told flow := by
  obtain ⟨t, position, kind, hst, ha, -⟩ := hh.refused
  rcases hc.keeps_answer hw ha with ⟨ha', hst'⟩ | hdoes
  · obtain ⟨j, role, ⟨o, phase, he, hs⟩, rfl⟩ := hh
    have he : v.engagement i j = .paired role o k phase := he
    have he' : v'.engagement i j = .paired role o k phase := (engagement_congr hst' (ha'.trans ha.symm) j).trans he
    refine .inl ⟨j, role, ⟨o, phase, he', hs⟩, ?_⟩
    rcases hc.turn hw (ne_of_paired he) with ht | ht
    · rw [ht.number_own he he']
    · rw [ht.number_peer]
  · exact .inr ⟨kind, hdoes⟩

end View

namespace Network

theorem Settles.step {past : List (Moment n m)} {s s' : Network n m} (h : Settles past s) (hw : s.view.Wired)
    (ha : s.view.Agreed) (hc : s.view.Changes s.Does s'.view) (act : Option (ClientAct n)) :
    Settles (⟨s, act⟩ :: past) s' := by
  have hcases : ∀ {h k a}, Settled (⟨s, act⟩ :: past) s' h k a → Settled past s h k a ∨ ∃ i, s'.view.Holds i h k a := by
    rintro h k a ⟨u, rfl | ⟨moment, hmem, rfl⟩, i, hi⟩
    · exact .inr ⟨i, hi⟩
    · rcases List.mem_cons.1 hmem with rfl | hmem
      · exact .inl ⟨s, .inl rfl, i, hi⟩
      · exact .inl ⟨_, .inr ⟨moment, hmem, rfl⟩, i, hi⟩
  -- What has not been settled before is settled for both ends at once.
  have hnew : ∀ {h' k a}, Settled (⟨s, act⟩ :: past) s' h' k a → Settled past s h' k a ∨
      ((∀ a', ¬ Settled past s h' k a') ∧ h'.creator ≠ h'.receiver ∧ ∀ e, h'.Has e → s'.view.Holds e h' k a) := by
    intro h' k a hset
    rcases hcases hset with hold | ⟨i, hi⟩
    · exact .inl hold
    · rcases hc.holds hw ha hi with hold | ⟨hpast, hboth⟩
      · exact .inl ⟨s, .inl rfl, i, hold⟩
      · exact .inr ⟨fun a' hold => hpast (h.behind hold).2, hi.ne.1, hboth⟩
  refine ⟨fun {h' k a a'} hset hset' => ?_, fun {h' k a} hset => ?_, fun {h' k cause i} hset hi => ?_⟩
  · rcases hnew hset with hold | ⟨hnone, -, hboth⟩
    · rcases hnew hset' with hold' | ⟨hnone', -⟩
      · exact h.unique hold hold'
      · exact absurd hold (hnone' a)
    · rcases hnew hset' with hold' | ⟨-, -, hboth'⟩
      · exact absurd hold' (hnone a')
      · exact ((hboth _ (.inl rfl)).unique (hboth' _ (.inl rfl))).2
  · rcases hnew hset with hold | ⟨-, hne, hboth⟩
    · obtain ⟨hne, hpast⟩ := h.behind hold
      exact ⟨hne, hc.past hw hne hpast⟩
    · exact ⟨hne, (hboth _ (.inl rfl)).past⟩
  · rcases hnew hset with hold | ⟨-, -, hboth⟩
    · rcases h.kept hold hi with hholds | ⟨moment, hmem, hsees⟩
      · rcases hc.keeps_refusal hw hholds with hholds' | ⟨kind, took, told, flow, hcur, -⟩
        · exact .inl hholds'
        · obtain ⟨t, position, kind', hst, hans, hhand⟩ := hholds.refused
          exact .inr ⟨_, List.mem_cons_self, kind, t, position, hcur, hst, hhand⟩
      · exact .inr ⟨moment, List.mem_cons_of_mem _ hmem, hsees⟩
    · exact .inl (hboth i hi)

theorem Built.settles {s : Network n m} (h : s.Built) : Settles [] s := by
  have hnone : ∀ {h' k a}, ¬ Settled [] s h' k a := by
    rintro h' k a ⟨u, rfl | ⟨moment, hmem, -⟩, i, j, role, ⟨o, phase, he, -⟩, -⟩
    · obtain ⟨t, ht, -⟩ := View.task_of_engagement he
      have hstage : u.view.stage i = .idle := h.pairStage i
      rw [hstage] at ht
      exact nomatch ht
    · exact nomatch hmem
  exact ⟨fun hset => absurd hset hnone, fun hset => absurd hset hnone, fun hset => absurd hset hnone⟩

section

variable {c : NetworkConfig} {may : ClientAct c.nodes.length → Prop} {s : Network c.nodes.length c.links.length}
  {past : List (Moment c.nodes.length c.links.length)}

/-- Along every run the link settles each pair once, and for both ends. -/
theorem Trace.settles (h : Trace c may past s) : Settles past s := by
  induction h with
  | built h => exact (built_of_build h).settles
  | move h hm ih => exact ih.step h.wired h.agreed (h.changes hm) none
  | act h a ha hc hr ih => exact ih.step h.wired h.agreed (h.act_changes hc hr) (some a)

end

end Network

end QuantumNode
