import QuantumNode.Proofs.Handshake.Agreement
import QuantumNode.Proofs.Network.Rehearsal

/-! What the two ends of a handshake can see of each other's pairs. -/
namespace QuantumNode

open Work Working

variable {n m : Nat}

namespace View

variable {v : View n m} {i j : Fin n} {l : Fin m} {e : LinkEnd}

/-- Two pair services at pairs of each other are in one handshake, at its sides. -/
theorem Agreed.handshake (h : v.Agreed) {role role' : PairRole} {o o' : Offer} {k k' : Nat} {phase phase' : PairPhase}
    (hi : v.engagement i j = .paired role o k phase) (hj : v.engagement j i = .paired role' o' k' phase') :
    role ≠ role' ∧ o = o' ∧ phase.got k = phase'.got k' ∧ v.handshake? j = v.handshake? i := by
  have ha := h i j (ne_of_paired hi)
  obtain ⟨hr, ho, hk⟩ := ha.paired hi hj
  refine ⟨hr, ho, hk, ?_⟩
  rw [handshake_of_engagement hi, handshake_of_engagement hj, ha.number_eq hi hj, Handshake.of_swap hr]

/-- A call that waits for an answer at the far end of a link. -/
theorem Wired.far_call (h : v.Wired) (hp : v.port i j.val = some (l, e)) {c : LinkCall}
    (hc : (v.link l).waiting e.opposite = some c) : ∃ t k position, v.stage j = .linking t k position ∧
      v.engagement j i = .paired t.request.role t.offer k .asking ∧ c.role = t.request.role := by
  obtain ⟨j', hs⟩ := h.seated hc
  obtain rfl : j' = j := Fin.ext ((hs.nodeAt h).symm.trans (h.ends (h.shared hp)).1)
  obtain ⟨t, k, position, hst, hport, hrole, -⟩ := hs.stage
  obtain ⟨b, hb, -, hpeer⟩ := h.peer_of_port hport
  rw [hb] at hport
  obtain ⟨-, rfl⟩ := h.port_inj (h.shared hp) hport
  refine ⟨t, k, position, hst, (engagement_linking hst hpeer).trans ?_, hrole⟩
  rw [phase_of_quiet hs.answers]

end View

/-- The entries of a row that do not depend on the half of a pair. -/
theorem Pairing.resultRow_shared {r r' : EntanglementRequest} {pair pair' : Pair} {virt virt' : Option Int}
    (h : ({ pair with reading := none } : Pair) = { pair' with reading := none }) {x : Nat} (hx : x ∈ [0, 1, 4, 7, 8, 9]) :
    (resultRow r pair virt)[x]? = (resultRow r' pair' virt')[x]? := by
  obtain ⟨kind, createId, sequence, bellIndex, duration, goodness, reading⟩ := pair
  obtain ⟨kind', createId', sequence', bellIndex', duration', goodness', reading'⟩ := pair'
  cases h
  simp only [List.mem_cons, List.not_mem_nil, or_false] at hx
  rcases hx with rfl | rfl | rfl | rfl | rfl | rfl
  all_goals cases kind <;> cases reading <;> cases reading' <;> rfl

namespace Network

section

variable {c : NetworkConfig} {may : ClientAct c.nodes.length → Prop} {s : Network c.nodes.length c.links.length}
  {past : List (Moment c.nodes.length c.links.length)}

/-- A link that is asked has no call pending at that end, and if a call waits at the other end it is the one for the
same pair of the same handshake, made by the other side. -/
theorem Trace.call_meets (h : Trace c may past s) {i : Fin c.nodes.length} {wake : Wake} {t : PairTask}
    {k position : Nat} {l : Fin c.links.length} {e : LinkEnd} {call : LinkCall}
    {w : Working (Node c.nodes.length c.links.length) c.nodes.length c.links.length}
    (hx : (Pairing.step (pairId i) (s.pairStage i) wake).exec (s.working i) =
      (.ok (.call (.linking t k position) l e call), w)) :
    (∀ f, (s.commit i w).askLink (pairId i) l e call ≠ .error f) ∧
      ∀ other, (s.link l).waiting e.opposite = some other → ∃ j t' position',
        s.pairStage j = .linking t' k position' ∧ (s.handshake? i).isSome ∧ s.handshake? j = s.handshake? i ∧
          call.role = t.request.role ∧ other.role = t'.request.role ∧ call.role ≠ other.role := by
  have hw := h.wired
  obtain ⟨took, told, hexchange, hd⟩ := Pairing.step_deed (pairId i) (s.pairStage i) wake _ w hx
  have hid : (s.working i).part.id = i := hw.id i
  have hview := view_commit_exchange hexchange (hw.id i) hw.listeners
  rw [hid] at hd
  generalize hst : s.pairStage i = stage at hd
  cases hd with
  | ask hs hl hr hc =>
    subst hst
    have hlink : (s.commit i w).link l = s.link l := congrFun (congrArg View.link hview) l
    obtain ⟨j, hj, hji, hpeer⟩ := hw.peer_of_port hl
    have hp : s.view.port i j.val = some (l, e) := by
      rw [← hj]
      exact hl
    have hengaged : s.view.engagement i j = .paired t.request.role t.offer k .ready := View.engagement_asks hs hpeer
    have hfree : (s.link l).waiting e = none := by
      cases hwait : (s.link l).waiting e with
      | none => rfl
      | some other =>
        obtain ⟨role, o, k', he⟩ := hw.asking hp (Option.isSome_of_eq_some hwait)
        rw [hengaged] at he
        injection he with _ _ _ hph
        exact nomatch hph
    refine ⟨fun f hf => ?_, fun other hother => ?_⟩
    · unfold askLink at hf
      rw [hlink] at hf
      obtain ⟨r, hr⟩ := Link.request_ok hfree call (s.commit i w).quantum
      rw [hr] at hf
      cases r with
      | _ => exact nomatch hf
    · obtain ⟨t', k', position', hst', hengaged', hrole'⟩ := hw.far_call hp hother
      obtain ⟨hroles, -, hk, hhand⟩ := h.agreed.handshake hengaged hengaged'
      obtain rfl : k = k' := hk
      refine ⟨j, t', position', hst', ?_, hhand, hr, hrole', ?_⟩
      · exact Option.isSome_of_eq_some (View.handshake_of_engagement hengaged)
      · rw [hr, hrole']
        exact hroles

/-- Two calls that wait at the ends of a link are those of the two sides for one pair. -/
theorem Trace.waiting_meet (h : Trace c may past s) {l : Fin c.links.length} {a b : LinkCall}
    (ha : (s.link l).waiting .left = some a) (hb : (s.link l).waiting .right = some b) :
    ∃ i j t t' k position position', s.pairStage i = .linking t k position ∧
      s.pairStage j = .linking t' k position' ∧ (s.handshake? i).isSome ∧ s.handshake? j = s.handshake? i ∧
        a.role = t.request.role ∧ b.role = t'.request.role ∧ a.role ≠ b.role := by
  have hw := h.wired
  obtain ⟨i, hseat⟩ := hw.seated ha
  obtain ⟨t, k, position, hst, hport, hrole, -⟩ := hseat.stage
  obtain ⟨j, hr, hji, hpeer⟩ := hw.peer_of_port hport
  rw [hr] at hport
  have hengaged := View.engagement_linking hst hpeer
  rw [View.phase_of_quiet hseat.answers] at hengaged
  obtain ⟨t', k', position', hst', hengaged', hrole'⟩ := hw.far_call hport hb
  obtain ⟨hroles, -, hk, hhand⟩ := h.agreed.handshake hengaged hengaged'
  obtain rfl : k = k' := hk
  refine ⟨i, j, t, t', k, position, position', hst, hst', ?_, hhand, hrole, hrole', ?_⟩
  · exact Option.isSome_of_eq_some (View.handshake_of_engagement hengaged)
  · rw [hrole, hrole']
    exact hroles

/-- A node that writes a row has not finished with what the link has settled for that pair. -/
theorem Trace.holds_of_writes (h : Trace c may past s) {i : Fin c.nodes.length} {hand : Handshake c.nodes.length}
    {k : Nat} {row : List (Except Fault (Option Int))} (hwr : s.Writes i hand k row) : ∃ r pair virt,
      s.view.Holds i hand k (.pair { pair with reading := none }) ∧
        row = (Pairing.resultRow r pair virt).map fun v => .ok (some v) := by
  obtain ⟨wake, t, w, mem, hcur, ht, hhand, hx, hmem, rfl⟩ := hwr
  have hw := h.wired
  obtain ⟨took, told, -, hd⟩ := Pairing.step_deed (pairId i) (s.pairStage i) wake _ w hx
  obtain ⟨pair, hgets, mem', virt, hmem', hrow⟩ := hd.delivered rfl
  rw [hmem] at hmem'
  cases hmem'
  refine ⟨t.request, pair, virt, ?_, hrow⟩
  obtain ⟨j, hj⟩ : ∃ j, Pairing.peer? i t.request.remote = some j := by
    unfold handshake? View.handshake? at hhand
    rw [show (s.view.stage i).task? = some (t, k) from ht] at hhand
    obtain ⟨j, hj, -⟩ := Option.map_eq_some_iff.1 hhand
    exact ⟨j, hj⟩
  have hengaged : s.view.engagement i j =
      .paired t.request.role t.offer k (.answered (.pair { pair with reading := none })) ∨
      s.view.engagement i j = .paired t.request.role t.offer k (.correcting { pair with reading := none }) := by
    generalize hst : s.pairStage i = stage at hgets
    have hst : s.view.stage i = stage := hst
    cases hgets with
    | answered position =>
      have hans := (hw.answer_of_linking hst (mem_answers hcur)).1
      have he := View.engagement_linking hst hj
      rw [View.phase_of_answers hans] at he
      exact .inl he
    | corrected position call calls wake =>
      refine .inr ((View.engagement_of_faces (by rw [hst]; exact ⟨_, rfl, hj⟩)).trans ?_)
      rw [hst]
      rfl
  have hof : ∀ {phase}, s.view.engagement i j = .paired t.request.role t.offer k phase →
      phase.settled? = some (.pair { pair with reading := none }) →
      s.view.Holds i hand k (.pair { pair with reading := none }) := fun he hs =>
    ⟨j, t.request.role, ⟨_, _, he, hs⟩, Option.some.inj (hhand.symm.trans (View.handshake_of_engagement he))⟩
  rcases hengaged with he | he
  · exact hof he rfl
  · exact hof he rfl

theorem Trace.holds_of_sees (h : Trace c may past s) {i : Fin c.nodes.length} {hand : Handshake c.nodes.length}
    {k : Nat} {cause : LinkRefusal} (hc : cause ≠ .aborted) (hs : s.Sees i hand k cause) :
    s.view.Holds i hand k (.refused cause .keep) := by
  obtain ⟨kind, t, position, hcur, hst, hhand⟩ := hs
  have hst : s.view.stage i = .linking t k position := hst
  obtain ⟨j, hj⟩ : ∃ j, Pairing.peer? i t.request.remote = some j := by
    unfold handshake? View.handshake? at hhand
    rw [hst] at hhand
    obtain ⟨j, hj, -⟩ := Option.map_eq_some_iff.1 hhand
    exact ⟨j, hj⟩
  have he := View.engagement_linking hst hj
  rw [View.phase_of_answers (h.wired.answer_of_linking hst (mem_answers hcur)).1] at he
  have hsettled : (PairPhase.answered (LinkAnswer.refused cause kind).plain).settled? = some (.refused cause .keep) := by
    refine PairPhase.settled?_answered ?_
    cases cause with
    | aborted => exact absurd rfl hc
    | _ => rfl
  exact ⟨j, t.request.role, ⟨_, _, he, hsettled⟩,
    Option.some.inj (hhand.symm.trans (View.handshake_of_engagement he))⟩

/-- Moments of a run are reached by runs. -/
theorem Trace.of_mem (h : Trace c may past s) {moment : Moment c.nodes.length c.links.length} (hm : moment ∈ past) :
    ∃ before, Trace c may before moment.state := by
  induction h with
  | built h => exact nomatch hm
  | @move past s s' h hmove ih =>
    rcases List.mem_cons.1 hm with rfl | hm
    · exact ⟨past, h⟩
    · exact ih hm
  | @act past s s' h a ha hc hr ih =>
    rcases List.mem_cons.1 hm with rfl | hm
    · exact ⟨past, h⟩
    · exact ih hm

/-- Both ends of a request agree pair by pair, in every state that a run can reach. A link that is asked has no call of
that end pending; if the other end waits, its call is for the same pair of the same handshake and in the other role, and
so are any two calls that wait. Rows that have been written for one pair agree but for the outcomes at the halves and
what names them. A timeout or a rejection that one end has seen has been seen at the same pair by the other end, or is
on its way there. -/
theorem ends_agree_pair_by_pair (h : Trace c may past s) :
    (∀ i wake t k position l e call w,
      (Pairing.step (pairId i) (s.pairStage i) wake).exec (s.working i) =
        (.ok (.call (.linking t k position) l e call), w) →
      (∀ f, (s.commit i w).askLink (pairId i) l e call ≠ .error f) ∧
        ∀ other, (s.link l).waiting e.opposite = some other → ∃ j t' position',
          s.pairStage j = .linking t' k position' ∧ (s.handshake? i).isSome ∧ s.handshake? j = s.handshake? i ∧
            call.role = t.request.role ∧ other.role = t'.request.role ∧ call.role ≠ other.role) ∧
      (∀ l a b, (s.link l).waiting .left = some a → (s.link l).waiting .right = some b →
        ∃ i j t t' k position position', s.pairStage i = .linking t k position ∧
          s.pairStage j = .linking t' k position' ∧ (s.handshake? i).isSome ∧ s.handshake? j = s.handshake? i ∧
            a.role = t.request.role ∧ b.role = t'.request.role ∧ a.role ≠ b.role) ∧
      (∀ m ∈ past, ∀ m' ∈ past, ∀ i j hand k row row', m.state.Writes i hand k row → m'.state.Writes j hand k row' →
        ∀ x ∈ [0, 1, 4, 7, 8, 9], row[x]? = row'[x]?) ∧
      ∀ m ∈ past, ∀ i j hand k cause, cause ≠ .aborted → m.state.Sees i hand k cause → hand.Has j →
        (∃ m' ∈ past, m'.state.Sees j hand k cause) ∨ s.Awaits j hand k cause := by
  refine ⟨fun i wake t k position l e call w hx => h.call_meets hx, fun l a b ha hb => h.waiting_meet ha hb,
    fun m hm m' hm' i j hand k row row' hwr hwr' x hxs => ?_, fun m hm i j hand k cause hc hs hj => ?_⟩
  · obtain ⟨before, ht⟩ := h.of_mem hm
    obtain ⟨before', ht'⟩ := h.of_mem hm'
    obtain ⟨r, pair, virt, hholds, rfl⟩ := ht.holds_of_writes hwr
    obtain ⟨r', pair', virt', hholds', rfl⟩ := ht'.holds_of_writes hwr'
    have hsame := h.settles.unique ⟨_, .inr ⟨m, hm, rfl⟩, i, hholds⟩ ⟨_, .inr ⟨m', hm', rfl⟩, j, hholds'⟩
    rw [List.getElem?_map, List.getElem?_map, Pairing.resultRow_shared (LinkAnswer.pair.inj hsame) hxs]
  · obtain ⟨before, ht⟩ := h.of_mem hm
    have hset : Settled past s hand k (.refused cause .keep) := ⟨_, .inr ⟨m, hm, rfl⟩, i, ht.holds_of_sees hc hs⟩
    rcases h.settles.kept hset hj with hholds | hsees
    · obtain ⟨t, position, kind, hst, ha, hhand⟩ := hholds.refused
      refine .inr ⟨kind, t, position, ?_, hst, hhand⟩
      change _ ∈ s.view.answers j
      rw [ha]
      exact Multiset.mem_singleton_self _
    · exact .inl hsees

end

/-- The receiving end waits in the link, and the creating end is about to ask it. -/
def duoMeeting : List (Direction duo.nodes.length) :=
  duoOpening ++ [.act (.atNode 0 (.submit (duoRequest 0))), .act (.atNode 1 (.submit (duoRequest 1))), .run 0 11]

/-- The pair service of the first node is about to ask a link at whose other end a call waits. -/
def duoAsks (s : Network duo.nodes.length duo.links.length) : Bool :=
  match (Pairing.step (pairId (0 : Fin duo.nodes.length)) (s.pairStage 0) .go).exec (s.working 0) with
  | (.ok (.call (.linking ..) l e _), _) => ((s.link l).waiting e.opposite).isSome
  | _ => false

theorem ends_agree_when_second_asks : ∃ past s, Trace duo (fun _ => True) past s ∧
    ∃ t k position l e call w other,
      (Pairing.step (pairId (0 : Fin duo.nodes.length)) (s.pairStage 0) .go).exec (s.working 0) =
        (.ok (.call (.linking t k position) l e call), w) ∧
      (s.link l).waiting e.opposite = some other ∧ call.role ≠ other.role ∧
        ∃ j t' position', s.pairStage j = .linking t' k position' ∧ s.handshake? j = s.handshake? 0 := by
  obtain ⟨past, s, ht, hs⟩ := Trace.exists_of_rehearse duo (fun _ => True) duoMeeting (fun r => duoAsks r.2)
    (by decide +kernel) (fun _ _ => trivial)
  dsimp only [duoAsks] at hs
  split at hs
  · rename_i t k position l e call w hx
    obtain ⟨other, ho⟩ := Option.isSome_iff_exists.1 hs
    obtain ⟨j, t', position', hj, -, hhand, -, -, hne⟩ :=
      ((ends_agree_pair_by_pair ht).1 0 .go t k position l e call w hx).2 other ho
    exact ⟨past, s, ht, t, k, position, l, e, call, w, other, hx, ho, hne, j, t', position', hj, hhand⟩
  · cases hs

end Network

end QuantumNode
