import QuantumNode.Proofs.Handshake.Party
import QuantumNode.Proofs.Handshake.Rewiring

/-! The pair services of two nodes as parties: each step of a network is a turn of one of them. -/
namespace QuantumNode

variable {n m : Nat}

/-- A pair service serves a request for a peer. -/
def PairStage.Faces (stage : PairStage) (i j : Fin n) : Prop :=
  ∃ r, stage.request? = some r ∧ Pairing.peer? i r.remote = some j

theorem PairStage.Faces.eq_peer {stage : PairStage} {i j b : Fin n} {r : EntanglementRequest} (h : stage.Faces i j)
    (hr : stage.request? = some r) (hb : Pairing.peer? i r.remote = some b) : b = j := by
  obtain ⟨r', hr', hj⟩ := h
  rw [hr] at hr'
  cases hr'
  rw [hb] at hj
  exact Option.some.inj hj

/-- What a pair service is at with the peer of its request, where the link has come so far with a pair. -/
def PairStage.engagement (phase : PairPhase) : PairStage → Engagement
  | .awaitingReply _ task => .offering (task.map PairTask.offer)
  | .awaitingDescriptor _ => .attending
  | .next t k | .starving t k => .paired t.request.role t.offer k .ready
  | .linking t k _ => .paired t.request.role t.offer k phase
  | .correcting t k _ pair .. => .paired t.request.role t.offer k (.correcting { pair with reading := none })
  | .idle | .settling _ => .apart

namespace View

variable (v : View n m) (i j : Fin n)

/-- How far the link has come with the pair that a pair service waits for. -/
noncomputable def phase : PairPhase :=
  open Classical in if h : ∃ a, v.answers i = {a} then .answered h.choose.plain else .asking

open Classical in
noncomputable def engagement : Engagement :=
  if (v.stage i).Faces i j then (v.stage i).engagement (v.phase i) else .apart

/-- Whether the next call that a pair service makes for a peer is given up on. -/
def flag : Bool :=
  match v.port i j.val with
  | some (l, e) => (v.link l).flagged e
  | none => false

/-- A pair service as a peer sees it. -/
noncomputable def party : Party := ⟨v.engagement i j, v.underway i j, v.told i j, v.flag i j⟩

end View

namespace View

variable {v v' : View n m} {i j : Fin n}

theorem phase_of_answers {a : LinkAnswer} (h : v.answers i = {a}) : v.phase i = .answered a.plain := by
  unfold phase
  have hex : ∃ a, v.answers i = {a} := ⟨a, h⟩
  rw [dif_pos hex, ← Multiset.singleton_inj.1 (h.symm.trans hex.choose_spec)]

theorem phase_of_quiet (h : v.answers i = 0) : v.phase i = .asking := by
  unfold phase
  refine dif_neg ?_
  rintro ⟨a, ha⟩
  rw [h] at ha
  exact Multiset.singleton_ne_zero a ha.symm

theorem phase_congr (h : v'.answers i = v.answers i) : v'.phase i = v.phase i := by
  unfold phase
  rw [h]

theorem engagement_of_faces (h : (v.stage i).Faces i j) : v.engagement i j = (v.stage i).engagement (v.phase i) :=
  if_pos h

theorem engagement_of_not (h : ¬ (v.stage i).Faces i j) : v.engagement i j = .apart := if_neg h

theorem engagement_congr (hs : v'.stage i = v.stage i) (ha : v'.answers i = v.answers i) (j : Fin n) :
    v'.engagement i j = v.engagement i j := by
  unfold engagement
  rw [hs, phase_congr ha]

end View

namespace Pairing

variable {here : Fin n} {port : Int → Option (Fin m × LinkEnd)} {recorded : PairTask → Nat → Pair → Prop}
  {stage : PairStage} {wake : Wake} {took told : Option (Fin n × PeerMessage)} {flow : Step m}

theorem Asks.engagement {t : PairTask} {k : Nat} (h : Asks t k stage) (phase : PairPhase) :
    stage.engagement phase = .paired t.request.role t.offer k .ready := by
  cases h with
  | next h => rfl
  | starving => rfl

/-- Messages are exchanged with the peer of the request. -/
theorem Deed.peer (h : Deed here port recorded stage wake took told flow) {b : Fin n} {message : PeerMessage}
    (hx : took = some (b, message) ∨ told = some (b, message)) : stage.Faces here b ∨ flow.stage.Faces here b := by
  cases h with
  | offer hr ht hj =>
    rcases hx with hx | hx
    · exact nomatch hx
    · cases hx
      exact .inr ⟨_, rfl, hj⟩
  | conclude hj hm =>
    rcases hx with hx | hx
    · cases hx
      exact .inl ⟨_, rfl, hj⟩
    · exact nomatch hx
  | decline hj =>
    rcases hx with hx | hx
    all_goals
      cases hx
      exact .inl ⟨_, rfl, hj⟩
  | refuse hj =>
    rcases hx with hx | hx
    all_goals
      cases hx
      exact .inl ⟨_, rfl, hj⟩
  | accept hj =>
    rcases hx with hx | hx
    all_goals
      cases hx
      exact .inl ⟨_, rfl, hj⟩
  | _ =>
    rcases hx with hx | hx
    all_goals exact nomatch hx

/-- What is served for one peer is served for no other. -/
theorem Deed.faces_unique (h : Deed here port recorded stage wake took told flow) (hs : stage.Sound) {j b : Fin n}
    (hj : stage.Faces here j ∨ flow.stage.Faces here j) (hb : stage.Faces here b ∨ flow.stage.Faces here b) : b = j := by
  have hidle : ∀ {st : PairStage} {x}, st.request? = none → ¬ st.Faces here x := by
    rintro st x hnone ⟨r, hr, -⟩
    exact nomatch hnone.symm.trans hr
  rcases h.request hs with hnone | hnone | hsame
  · obtain ⟨r, hr, hj⟩ := hj.resolve_left (hidle hnone)
    exact ((hb.resolve_left (hidle hnone)).eq_peer hr hj).symm
  · obtain ⟨r, hr, hj⟩ := hj.resolve_right (hidle hnone)
    exact ((hb.resolve_right (hidle hnone)).eq_peer hr hj).symm
  · have hboth : ∀ {c}, stage.Faces here c ∨ flow.stage.Faces here c → stage.Faces here c := by
      rintro c (hc | ⟨r, hr, hc⟩)
      · exact hc
      · exact ⟨r, hsame ▸ hr, hc⟩
    obtain ⟨r, hr, hj⟩ := hboth hj
    exact ((hboth hb).eq_peer hr hj).symm

/-- A deed that asks no link is a turn of the party that does it. -/
theorem Deed.turn (h : Deed here port recorded stage wake took told flow) (hs : stage.Sound) (hf : flow.asks = false)
    (hl : ∀ t k position, stage = .linking t k position → ∃ a, wake = .answer a) {b : Fin n} {phase : PairPhase}
    (phase' : PairPhase) (hp : ∀ a, wake = .answer a → phase = .answered a.plain)
    (hb : stage.Faces here b ∨ flow.stage.Faces here b)
    {x y : Party} (hx : x.engagement = stage.engagement phase)
    (hm : ∀ message, took = some (b, message) → message ∈ y.out) :
    x.Turn y
      { x with
        engagement := flow.stage.engagement phase'
        out := (told.elim x.out fun message => message.2 ::ₘ x.out)
        told := told.elim x.told fun _ => x.told + 1 }
      { y with out := took.elim y.out fun message => y.out.erase message.2 } := by
  have hstay : x.engagement = flow.stage.engagement phase' → took = none → told = none → x.Turn y
      { x with
        engagement := flow.stage.engagement phase'
        out := (told.elim x.out fun message => message.2 ::ₘ x.out)
        told := told.elim x.told fun _ => x.told + 1 }
      { y with out := took.elim y.out fun message => y.out.erase message.2 } := by
    rintro he rfl rfl
    rw [← he]
    exact .stay
  have hasks : ∀ {t k}, Asks t k stage → x.engagement = .paired t.request.role t.offer k .ready := fun ha =>
    hx.trans (ha.engagement phase)
  have hgets : ∀ {t k pair}, Gets t k pair stage wake →
      x.engagement = .paired t.request.role t.offer k (.answered (.pair { pair with reading := none })) ∨
        x.engagement = .paired t.request.role t.offer k (.correcting { pair with reading := none }) := by
    intro t k pair hg
    cases hg with
    | answered position =>
      rw [hp _ rfl] at hx
      exact .inl hx
    | corrected position c calls wake => exact .inr hx
  cases h with
  | idle => exact hstay hx rfl rfl
  | attend hr => exact .attend hx
  | @offer _ r task j hr ht hj =>
    refine .offer hx ?_
    cases task with
    | none => exact .cancel r.socket
    | some t => exact .descriptor r.socket t.offer
  | awaitReply => exact hstay hx rfl rfl
  | @conclude _ r task j message hj hmessage =>
    have hjb : j = b := by
      rcases hb with hb | hb
      · exact hb.eq_peer rfl hj
      · exact hb.eq_peer (concluded_request r task message hs.2) hj
    subst hjb
    have he : (r.concluded task message).engagement phase' = .concluded (task.map PairTask.offer) message := by
      unfold EntanglementRequest.concluded
      split
      · rename_i t socket
        change Engagement.paired t.request.role t.offer 0 .ready = .paired .create t.offer 0 .ready
        rw [hs.2 t rfl, hs.1]
      · rename_i hnot
        unfold Engagement.concluded
        split
        · rename_i o socket ho
          cases task with
          | none => exact nomatch ho
          | some t => exact (hnot t socket rfl rfl).elim
        · rfl
    have := Party.Turn.conclude (x := x) hx (hm message rfl) hmessage
    rw [← he] at this
    exact this
  | awaitDescriptor => exact hstay hx rfl rfl
  | drop => exact .drop hx
  | @decline _ r j hj =>
    obtain rfl : j = b := by
      rcases hb with hb | hb
      · exact hb.eq_peer rfl hj
      · exact hb.eq_peer rfl hj
    exact .decline hx (hm _ rfl)
  | @refuse _ r j count wanted hj =>
    obtain rfl : j = b := by
      rcases hb with hb | hb
      · exact hb.eq_peer rfl hj
      · exact hb.eq_peer rfl hj
    exact .refuse hx (hm _ rfl)
  | @accept _ r j count wanted hj =>
    obtain rfl : j = b := by
      rcases hb with hb | hb
      · exact hb.eq_peer rfl hj
      · exact hb.eq_peer rfl hj
    have := Party.Turn.accept (x := x) hx (hm _ rfl)
    rw [show PairRole.receive = r.role from hs.symm] at this
    exact this
  | complete hk => exact .complete hx hk
  | abandon ha => exact .quit (hasks ha) (.inl rfl)
  | starve ha => exact hstay (hasks ha) rfl rfl
  | ask ha hport hr hc => exact nomatch hf
  | bide ha =>
    obtain ⟨a, hwake⟩ := hl _ _ _ rfl
    exact absurd hwake (ha a)
  | yield =>
    rw [hp _ rfl] at hx
    exact .yield hx
  | correct hg =>
    rcases hgets hg with he | he
    · exact .take he
    · exact hstay he rfl rfl
  | deliver hg hr =>
    rcases hgets hg with he | he
    · exact .deliver he (.inl rfl)
    · exact .deliver he (.inr rfl)
  | lose hg =>
    rcases hgets hg with he | he
    · exact .quit he (.inr (.inl ⟨_, rfl⟩))
    · exact .quit he (.inr (.inr ⟨_, rfl⟩))
  | settle => exact hstay hx rfl rfl

end Pairing

namespace View

variable {v v' : View n m} {i j : Fin n} {wake : Wake} {took told : Option (Fin n × PeerMessage)} {stage : PairStage}

/-! What a deed does to what is under way between two nodes. -/

theorem underway_exchange_own (hij : i ≠ j) (ht : ∀ b message, told = some (b, message) → b = j) :
    (v.exchange i took told).underway i j = told.elim (v.underway i j) fun message => message.2 ::ₘ v.underway i j := by
  have htakes : (v.takes i took).underway i j = v.underway i j := by
    cases took with
    | none => rfl
    | some x => exact if_neg fun h => hij h.2.symm
  cases told with
  | none => exact htakes
  | some x =>
    obtain ⟨b, message⟩ := x
    obtain rfl := ht b message rfl
    change (if i = i ∧ b = b then message ::ₘ (v.takes i took).underway i b else _) = message ::ₘ v.underway i b
    rw [if_pos ⟨rfl, rfl⟩, htakes]

theorem told_exchange_own (ht : ∀ b message, told = some (b, message) → b = j) :
    (v.exchange i took told).told i j = told.elim (v.told i j) fun _ => v.told i j + 1 := by
  have htakes : (v.takes i took).told = v.told := by
    cases took with
    | _ => rfl
  cases told with
  | none => exact congrFun (congrFun htakes i) j
  | some x =>
    obtain ⟨b, message⟩ := x
    obtain rfl := ht b message rfl
    change (if i = i ∧ b = b then (v.takes i took).told i b + 1 else _) = v.told i b + 1
    rw [if_pos ⟨rfl, rfl⟩, htakes]

theorem underway_exchange_peer (hij : i ≠ j) (ht : ∀ b message, took = some (b, message) → b = j) :
    (v.exchange i took told).underway j i = took.elim (v.underway j i) fun message => (v.underway j i).erase message.2 := by
  have htells : (v.exchange i took told).underway j i = (v.takes i took).underway j i := by
    cases told with
    | none => rfl
    | some x => exact if_neg fun h => hij h.1.symm
  rw [htells]
  cases took with
  | none => rfl
  | some x =>
    obtain ⟨b, message⟩ := x
    obtain rfl := ht b message rfl
    exact if_pos ⟨rfl, rfl⟩

theorem told_exchange_peer (hij : i ≠ j) : (v.exchange i took told).told j i = v.told j i := by
  have htakes : (v.takes i took).told = v.told := by
    cases took with
    | _ => rfl
  cases told with
  | none => exact congrFun (congrFun htakes j) i
  | some x =>
    refine (if_neg fun h => hij h.1.symm).trans ?_
    rw [htakes]

/-- Nothing is under way between two nodes because of what a third one does. -/
theorem exchange_apart {x y : Fin n} (hx : x = i → ∀ message, told ≠ some (y, message))
    (hy : y = i → ∀ message, took ≠ some (x, message)) :
    (v.exchange i took told).underway x y = v.underway x y ∧ (v.exchange i took told).told x y = v.told x y := by
  have htakes : (v.takes i took).underway x y = v.underway x y ∧ (v.takes i took).told = v.told := by
    cases took with
    | none => exact ⟨rfl, rfl⟩
    | some z =>
      refine ⟨if_neg fun h => hy h.2 z.2 ?_, rfl⟩
      rw [h.1]
  cases told with
  | none => exact ⟨htakes.1, congrFun (congrFun htakes.2 x) y⟩
  | some z =>
    have hne : ¬ (x = i ∧ y = z.1) := fun h => hx h.1 z.2 (by rw [h.2])
    refine ⟨(if_neg hne).trans htakes.1, (if_neg hne).trans ?_⟩
    rw [htakes.2]

theorem flag_congr (hp : v'.port = v.port) (hl : v'.link = v.link) (i j : Fin n) : v'.flag i j = v.flag i j := by
  unfold flag
  rw [hp, hl]

theorem party_eq {x y : Fin n} (he : v'.engagement x y = v.engagement x y)
    (hu : v'.underway x y = v.underway x y) (ht : v'.told x y = v.told x y) (hf : v'.flag x y = v.flag x y) :
    v'.party x y = v.party x y := by
  unfold party
  rw [he, hu, ht, hf]

theorem link_after : (v.after i wake took told stage).link = v.link := by
  unfold link
  rw [wired_after]

theorem engagement_after_of_ne {x : Fin n} (hx : x ≠ i) (y : Fin n) :
    (v.after i wake took told stage).engagement x y = v.engagement x y :=
  engagement_congr (by rw [stage_after, if_neg hx]) (answers_after_of_ne v i wake took told stage hx) y

theorem flag_after (x y : Fin n) : (v.after i wake took told stage).flag x y = v.flag x y :=
  flag_congr (port_after ..) link_after x y

/-- A deed that asks no link is a turn between the node and each other node. -/
theorem Wired.turn_after (h : v.Wired) {flow : Pairing.Step m} {recorded : PairTask → Nat → Pair → Prop}
    (hw : ∀ a, wake = .answer a → a ∈ v.answers i)
    (ht : ∀ j message, took = some (j, message) → message ∈ v.underway j i)
    (hd : Pairing.Deed i (v.port i) recorded (v.stage i) wake took told flow) (hf : flow.asks = false)
    (hl : ∀ t k position, v.stage i = .linking t k position → ∃ a, wake = .answer a) (hij : i ≠ j) :
    (v.party i j).Turn (v.party j i) ((v.after i wake took told flow.stage).party i j)
      ((v.after i wake took told flow.stage).party j i) := by
  have hs := h.sound i
  have hstage : (v.after i wake took told flow.stage).stage i = flow.stage := by rw [stage_after, if_pos rfl]
  have hback : (v.after i wake took told flow.stage).engagement j i = v.engagement j i :=
    engagement_after_of_ne hij.symm i
  have hflag : ∀ x y, (v.after i wake took told flow.stage).flag x y = v.flag x y := flag_after
  by_cases hface : (v.stage i).Faces i j ∨ flow.stage.Faces i j
  · -- The messages are exchanged with `j`, and what is served for `j` is served for no other node.
    have htook : ∀ b message, took = some (b, message) → b = j := fun b message hx =>
      hd.faces_unique hs hface (hd.peer (.inl hx))
    have htold : ∀ b message, told = some (b, message) → b = j := fun b message hx =>
      hd.faces_unique hs hface (hd.peer (.inr hx))
    -- A stage that does not serve a request is apart from everybody.
    have hapart : ∀ {st : PairStage} {phase}, st.request? = none → st.engagement phase = .apart := by
      intro st phase hst
      cases st with
      | idle => rfl
      | _ => exact nomatch hst
    have hx : v.engagement i j = (v.stage i).engagement (v.phase i) := by
      by_cases hf : (v.stage i).Faces i j
      · exact engagement_of_faces hf
      · rw [engagement_of_not hf]
        rcases hd.request hs with hnone | hnone | hsame
        · exact (hapart hnone).symm
        · obtain ⟨r, hr, -⟩ := hface.resolve_left hf
          exact nomatch hnone.symm.trans hr
        · obtain ⟨r, hr, hj⟩ := hface.resolve_left hf
          exact absurd ⟨r, hsame ▸ hr, hj⟩ hf
    have hx' : (v.after i wake took told flow.stage).engagement i j =
        flow.stage.engagement ((v.after i wake took told flow.stage).phase i) := by
      by_cases hf : flow.stage.Faces i j
      · rw [engagement_of_faces (by rw [hstage]; exact hf), hstage]
      · rw [engagement_of_not (by rw [hstage]; exact hf)]
        rcases hd.request hs with hnone | hnone | hsame
        · obtain ⟨r, hr, -⟩ := hface.resolve_right hf
          exact nomatch hnone.symm.trans hr
        · exact (hapart hnone).symm
        · obtain ⟨r, hr, hj⟩ := hface.resolve_right hf
          exact absurd ⟨r, hsame ▸ hr, hj⟩ hf
    have hp : ∀ a, wake = .answer a → v.phase i = .answered a.plain := by
      rintro a rfl
      have ha := hw a rfl
      by_cases hlink : ∃ t k position, v.stage i = .linking t k position
      · obtain ⟨t, k, position, hst⟩ := hlink
        exact phase_of_answers (h.answer_of_linking hst ha).1
      · rw [h.quiet i fun t k position hst => hlink ⟨t, k, position, hst⟩] at ha
        exact absurd ha (Multiset.notMem_zero a)
    have hturn := hd.turn hs hf hl ((v.after i wake took told flow.stage).phase i) hp hface (x := v.party i j)
      (y := v.party j i) hx fun message hx => ht j message hx
    have hown : (v.after i wake took told flow.stage).party i j =
        { v.party i j with
          engagement := flow.stage.engagement ((v.after i wake took told flow.stage).phase i)
          out := told.elim (v.party i j).out fun message => message.2 ::ₘ (v.party i j).out
          told := told.elim (v.party i j).told fun _ => (v.party i j).told + 1 } := by
      unfold party
      rw [hx', underway_after, told_after, underway_exchange_own hij htold, told_exchange_own htold, hflag]
    have hpeer : (v.after i wake took told flow.stage).party j i =
        { v.party j i with out := took.elim (v.party j i).out fun message => (v.party j i).out.erase message.2 } := by
      unfold party
      rw [hback, underway_after, told_after, underway_exchange_peer hij htook, told_exchange_peer hij, hflag]
    rw [hown, hpeer]
    exact hturn
  · have hnone : ∀ b message, took = some (b, message) ∨ told = some (b, message) → b ≠ j := fun b message hx hb =>
      hface (hb ▸ hd.peer hx)
    have hown : (v.exchange i took told).underway i j = v.underway i j ∧
        (v.exchange i took told).told i j = v.told i j :=
      exchange_apart (fun _ message hx => hnone _ _ (.inr hx) rfl) fun hji => absurd hji.symm hij
    have hpeer : (v.exchange i took told).underway j i = v.underway j i ∧
        (v.exchange i took told).told j i = v.told j i :=
      exchange_apart (fun hji => absurd hji.symm hij) fun _ message hx => hnone _ _ (.inl hx) rfl
    have hi : (v.after i wake took told flow.stage).party i j = v.party i j := by
      refine party_eq ?_ ?_ ?_ (hflag i j)
      · rw [engagement_of_not fun hf => hface (.inl hf), engagement_of_not]
        rw [hstage]
        exact fun hf => hface (.inr hf)
      · rw [underway_after, hown.1]
      · rw [told_after, hown.2]
    have hj : (v.after i wake took told flow.stage).party j i = v.party j i := by
      refine party_eq hback ?_ ?_ (hflag j i)
      · rw [underway_after, hpeer.1]
      · rw [told_after, hpeer.2]
    rw [hi, hj]
    exact .stay

/-! What links do. -/

section

variable {l : Fin m} {e : LinkEnd}

theorem Wired.peer_of_port (h : v.Wired) {r : Int} (hp : v.port i r = some (l, e)) :
    ∃ j : Fin n, r = j.val ∧ j ≠ i ∧ Pairing.peer? i r = some j := by
  obtain ⟨-, j, hj⟩ := h.ends hp
  obtain ⟨hr, hne⟩ := Pairing.peer?_eq_some.1 hj
  exact ⟨j, hr, hne, hj⟩

/-- An end of a link is that of one node towards one other. -/
theorem Wired.port_inj (h : v.Wired) {i' j' : Fin n} (hp : v.port i j.val = some (l, e))
    (hp' : v.port i' j'.val = some (l, e)) : i = i' ∧ j = j' := by
  refine ⟨Fin.ext ((h.ends hp).1.symm.trans (h.ends hp').1), Fin.ext ?_⟩
  exact (h.ends (h.shared hp)).1.symm.trans (h.ends (h.shared hp')).1

theorem Seated.faces {c : LinkCall} (hs : v.Seated l e c i) (h : v.Wired) (hp : v.port i j.val = some (l, e)) :
    ∃ t k position, v.stage i = .linking t k position ∧ Pairing.peer? i t.request.remote = some j := by
  obtain ⟨t, k, position, hst, hport, -⟩ := hs.stage
  obtain ⟨b, hr, -, hb⟩ := h.peer_of_port hport
  rw [hr] at hport
  obtain ⟨-, rfl⟩ := h.port_inj hp hport
  exact ⟨t, k, position, hst, hb⟩

theorem engagement_linking {t : PairTask} {k position : Nat} (hs : v.stage i = .linking t k position)
    (hj : Pairing.peer? i t.request.remote = some j) :
    v.engagement i j = .paired t.request.role t.offer k (v.phase i) := by
  rw [engagement_of_faces (by rw [hs]; exact ⟨_, rfl, hj⟩), hs]
  rfl

/-- An end at which a call waits is asking. -/
theorem Wired.asking (h : v.Wired) (hp : v.port i j.val = some (l, e)) (hw : ((v.link l).waiting e).isSome) :
    ∃ role o k, v.engagement i j = .paired role o k .asking := by
  obtain ⟨c, hc⟩ := Option.isSome_iff_exists.1 hw
  obtain ⟨i', hs⟩ := h.seated hc
  obtain rfl : i' = i := Fin.ext ((hs.nodeAt h).symm.trans (h.ends hp).1)
  obtain ⟨t, k, position, hst, hj⟩ := hs.faces h hp
  have he := engagement_linking hst hj
  rw [phase_of_quiet hs.answers] at he
  exact ⟨_, _, _, he⟩

theorem Wired.not_asking (h : v.Wired) (hp : v.port i j.val = some (l, e)) (hw : (v.link l).waiting e = none)
    (role : PairRole) (o : Offer) (k : Nat) : v.engagement i j ≠ .paired role o k .asking := by
  intro he
  unfold engagement at he
  split at he
  · rename_i hf
    obtain ⟨r, hr, hj⟩ := hf
    cases hst : v.stage i with
    | linking t k' position =>
      rw [hst] at he hr
      cases hr
      obtain ⟨l', e', hp', ha⟩ := h.linking hst
      obtain ⟨b, hb, -, hpeer⟩ := h.peer_of_port hp'
      rw [hj] at hpeer
      cases hpeer
      rw [hb] at hp'
      rw [hp] at hp'
      cases hp'
      obtain ⟨a, ha⟩ := ha hw
      rw [phase_of_answers ha] at he
      exact nomatch he
    | _ =>
      rw [hst] at he
      exact nomatch he
  · exact nomatch he

section

variable {link : Link} {es : List LinkEffect}

/-- An end that is answered was asking. -/
theorem Relinked.answered_engagement (hv : v.Relinked l link (LinkEffect.replies es) v') (h : v.Wired)
    (hr : Link.Replies (v.link l) link es) (hp : v.port i j.val = some (l, e)) {a : LinkAnswer}
    (ha : (e, a) ∈ LinkEffect.replies es) : ∃ role o k, v.engagement i j = .paired role o k .asking ∧
      v'.engagement i j = .paired role o k (.answered a.plain) := by
  obtain ⟨c, -, hs⟩ := h.seated_of_reply hr ha (h.ends hp).1
  obtain ⟨t, k, position, hst, hj⟩ := hs.faces h hp
  have hst' : v'.stage i = .linking t k position := by rw [hv.stage, hst]
  have hanswers : v'.answers i = {a} := by rw [hv.answered i _ ha (h.ends hp).1, hs.answers, Multiset.zero_add]
  have he := engagement_linking hst hj
  have he' := engagement_linking hst' hj
  rw [phase_of_quiet hs.answers] at he
  rw [phase_of_answers hanswers] at he'
  exact ⟨_, _, _, he, he'⟩

/-- Nothing changes towards a node that is not at the far end of an answer. -/
theorem Relinked.unanswered_engagement (hv : v.Relinked l link (LinkEffect.replies es) v') (h : v.Wired)
    (hr : Link.Replies (v.link l) link es)
    (ha : ∀ e a, (e, a) ∈ LinkEffect.replies es → v.port i j.val ≠ some (l, e)) :
    v'.engagement i j = v.engagement i j := by
  have hstage : v'.stage i = v.stage i := by rw [hv.stage]
  by_cases hx : ∃ x ∈ LinkEffect.replies es, (v.link l).nodeAt x.1 = i.val
  · obtain ⟨x, hx, hi⟩ := hx
    obtain ⟨c, -, hs⟩ := h.seated_of_reply hr hx hi
    obtain ⟨t, k, position, hst, hp, -⟩ := hs.stage
    have hnot : ¬ (v.stage i).Faces i j := by
      rintro ⟨r, hr, hj⟩
      rw [hst] at hr
      cases hr
      rw [(Pairing.peer?_eq_some.1 hj).1] at hp
      exact ha x.1 x.2 hx hp
    rw [engagement_of_not hnot, engagement_of_not (by rw [hstage]; exact hnot)]
  · exact engagement_congr hstage (hv.unanswered i fun x hxs hi => hx ⟨x, hxs, hi⟩) j

theorem Relinked.flag_of_port (hv : v.Relinked l link (LinkEffect.replies es) v')
    (hp : v.port i j.val = some (l, e)) : v'.flag i j = link.flagged e := by
  unfold flag
  rw [hv.port, hp]
  dsimp only
  rw [hv.link, if_pos rfl]

theorem Relinked.flag_of_ne (hv : v.Relinked l link (LinkEffect.replies es) v')
    (hp : ∀ e, v.port i j.val ≠ some (l, e)) : v'.flag i j = v.flag i j := by
  unfold flag
  rw [hv.port]
  cases hport : v.port i j.val with
  | none => rfl
  | some x =>
    obtain ⟨k, e⟩ := x
    dsimp only
    rw [hv.link, if_neg]
    rintro rfl
    exact hp e hport

/-- Two nodes with no port at a link notice nothing of it. -/
theorem Relinked.party_of_ne (hv : v.Relinked l link (LinkEffect.replies es) v') (h : v.Wired)
    (hr : Link.Replies (v.link l) link es) (hp : ∀ e, v.port i j.val ≠ some (l, e)) : v'.party i j = v.party i j :=
  party_eq (hv.unanswered_engagement h hr fun e _ _ => hp e) (by rw [hv.underway]) (by rw [hv.told]) (hv.flag_of_ne hp)

end

theorem flag_of_port (hp : v.port i j.val = some (l, e)) : v.flag i j = (v.link l).flagged e := by
  unfold flag
  rw [hp]

end

theorem Relinked.party_of_port {l : Fin m} {e : LinkEnd} {link : Link} {es : List LinkEffect}
    (hv : v.Relinked l link (LinkEffect.replies es) v') (hp : v.port i j.val = some (l, e)) :
    v'.party i j = { v.party i j with engagement := v'.engagement i j, flag := link.flagged e } := by
  unfold party
  rw [hv.underway, hv.told, hv.flag_of_port hp]

section

variable {l : Fin m} {e : LinkEnd} {link : Link} {es : List LinkEffect}

/-- A link that answers both its ends alike lets both nodes turn. -/
theorem Wired.turn_join (h : v.Wired) {first second : LinkAnswer} (hj : Link.Joins (v.link l) link es first second)
    (hv : v.Relinked l link (LinkEffect.replies es) v') (i j : Fin n) :
    (v.party i j).Turn (v.party j i) (v'.party i j) (v'.party j i) := by
  by_cases hport : ∃ e, v.port i j.val = some (l, e)
  · obtain ⟨e, hp⟩ := hport
    obtain ⟨a, b, ha, hb, hplain, hsettled⟩ : ∃ a b, (e, a) ∈ LinkEffect.replies es ∧
        (e.opposite, b) ∈ LinkEffect.replies es ∧ a.plain = b.plain ∧ a.isAborted = false := by
      cases e with
      | left => exact ⟨_, _, hj.left, hj.right, hj.plain, hj.settled.1⟩
      | right => exact ⟨_, _, hj.right, hj.left, hj.plain.symm, hj.settled.2⟩
    have hp' := h.shared hp
    obtain ⟨role, o, k, he, he'⟩ := hv.answered_engagement h hj.toReplies hp ha
    obtain ⟨role₂, o₂, k₂, he₂, he₂'⟩ := hv.answered_engagement h hj.toReplies hp' hb
    rw [hv.party_of_port hp, hv.party_of_port hp', hj.flagged, hj.flagged, ← flag_of_port hp, ← flag_of_port hp', he',
      he₂', ← hplain]
    exact .join he he₂ (a.isAborted_plain.trans hsettled)
  · have hne : ∀ e, v.port i j.val ≠ some (l, e) := fun e hp => hport ⟨e, hp⟩
    rw [hv.party_of_ne h hj.toReplies hne, hv.party_of_ne h hj.toReplies fun e hp => hne _ (h.shared hp)]
    exact .stay

/-- Giving up on a link is a turn of the node that does. -/
theorem Wired.turn_abort (h : v.Wired) (hp : v.port i j.val = some (l, e)) (ha : Link.Aborts (v.link l) link e es)
    (hv : v.Relinked l link (LinkEffect.replies es) v') :
    (v.party i j).Turn (v.party j i) (v'.party i j) (v'.party j i) := by
  have hp' := h.shared hp
  have hsilent : ∀ {i j : Fin n} {o}, v.port i j.val = some (l, o) → (v.link l).waiting o = none →
      v'.engagement i j = v.engagement i j := fun hp hw =>
    hv.unanswered_engagement h ha.toReplies fun o' a hmem hport => by
      rw [hp] at hport
      cases hport
      have := (ha.answered _ a hmem).1
      rw [hw] at this
      exact nomatch this
  rw [hv.party_of_port hp, hv.party_of_port hp', ha.own, ha.other, ← flag_of_port hp, ← flag_of_port hp']
  cases hw : (v.link l).waiting e with
  | some c =>
    have hsome : ((v.link l).waiting e).isSome := by
      rw [hw]
      rfl
    obtain ⟨role, o, k, he, he'⟩ := hv.answered_engagement h ha.toReplies hp (ha.reply hsome)
    rw [he']
    cases hw' : (v.link l).waiting e.opposite with
    | some c' =>
      have hsome' : ((v.link l).waiting e.opposite).isSome := by
        rw [hw']
        rfl
      obtain ⟨role₂, o₂, k₂, he₂, he₂'⟩ := hv.answered_engagement h ha.toReplies hp' (ha.reply hsome')
      rw [he₂', Option.isNone_some, Bool.false_and, Bool.or_false]
      exact .abortBoth he he₂
    | none =>
      rw [hsilent hp' hw', Option.isNone_none, Option.isSome_some, Bool.true_or, Bool.and_self, Bool.or_true]
      exact .abortOwn he (h.not_asking hp' hw')
  | none =>
    have hgen : (v.link l).generating = false := (h.matched l).idle hw
    rw [hsilent hp hw, hgen, Option.isSome_none, Bool.or_self, Bool.and_false, Bool.or_false]
    cases hw' : (v.link l).waiting e.opposite with
    | some c' =>
      have hsome' : ((v.link l).waiting e.opposite).isSome := by
        rw [hw']
        rfl
      obtain ⟨role₂, o₂, k₂, he₂, he₂'⟩ := hv.answered_engagement h ha.toReplies hp' (ha.reply hsome')
      rw [he₂']
      exact .abortOther (h.not_asking hp hw) he₂
    | none =>
      rw [hsilent hp' hw']
      exact .stay

end

/-! Calls. -/

section

variable {l : Fin m} {e : LinkEnd} {t : PairTask} {k : Nat}

theorem engagement_asks (hs : Pairing.Asks t k (v.stage i)) (hj : Pairing.peer? i t.request.remote = some j) :
    v.engagement i j = .paired t.request.role t.offer k .ready := by
  rw [engagement_of_faces ⟨_, hs.request, hj⟩, hs.engagement]

/-- A node has come to wait for a link, or for an answer that it has got from it at once. -/
structure Placed (v : View n m) (i : Fin n) (stage : PairStage) (answers : Multiset LinkAnswer) (l : Fin m) (link : Link)
    (v' : View n m) : Prop where
  stage : ∀ x, v'.stage x = if x = i then stage else v.stage x
  answers : ∀ x, v'.answers x = if x = i then answers else v.answers x
  underway : v'.underway = v.underway
  told : v'.told = v.told
  port : v'.port = v.port
  link : ∀ x, v'.link x = if x = l then link else v.link x

theorem placed_sit (hi : v.answers i = 0) (stage : PairStage) (link : Link) :
    v.Placed i stage 0 l link (v.sit i stage l e link) := by
  refine ⟨fun _ => rfl, fun x => ?_, rfl, rfl, rfl, fun x => link_sit ..⟩
  split
  · rename_i hx
    rw [hx]
    exact hi
  · rfl

theorem placed_refused (hi : v.answers i = 0) (stage : PairStage) (a : LinkAnswer) (link : Link) :
    v.Placed i stage {a} l link (((v.setLink l link).setStage i stage).wake (pairId i) a) := by
  refine ⟨fun _ => rfl, fun x => ?_, rfl, rfl, rfl, fun x => ?_⟩
  · refine ite_congr (propext pairId_inj) (fun hx => ?_) fun _ => rfl
    change a ::ₘ v.answers x = _
    rw [hx, hi]
    rfl
  · change (if x = l then _ else _ : WiredLink).link = _
    split
    · rfl
    · rfl

section

variable {stage : PairStage} {answers : Multiset LinkAnswer} {link : Link}

theorem Placed.party_own (hv : v.Placed i stage answers l link v') (hp : v.port i j.val = some (l, e))
    (hf : stage.Faces i j) :
    v'.party i j = { v.party i j with engagement := stage.engagement (v'.phase i), flag := link.flagged e } := by
  have hst : v'.stage i = stage := by rw [hv.stage, if_pos rfl]
  unfold party
  rw [engagement_of_faces (by rw [hst]; exact hf), hst, hv.underway, hv.told, flag_of_port (by rw [hv.port]; exact hp),
    hv.link, if_pos rfl]

theorem Placed.party_peer (hv : v.Placed i stage answers l link v') (h : v.Wired) (hp : v.port i j.val = some (l, e))
    (hji : j ≠ i) : v'.party j i = { v.party j i with flag := link.flagged e.opposite } := by
  have he : v'.engagement j i = v.engagement j i :=
    engagement_congr (by rw [hv.stage, if_neg hji]) (by rw [hv.answers, if_neg hji]) i
  unfold party
  rw [he, hv.underway, hv.told, flag_of_port (by rw [hv.port]; exact h.shared hp), hv.link, if_pos rfl]

theorem Placed.party_of_ne (hv : v.Placed i stage answers l link v') (h : v.Wired) (hp : v.port i j.val = some (l, e))
    (hb : ∀ y, y ≠ j → ¬ (v.stage i).Faces i y ∧ ¬ stage.Faces i y) {x y : Fin n} (hxy : ¬ (x = i ∧ y = j))
    (hyx : ¬ (x = j ∧ y = i)) : v'.party x y = v.party x y := by
  refine party_eq ?_ (by rw [hv.underway]) (by rw [hv.told]) ?_
  · by_cases hx : x = i
    · subst hx
      have hy := hb y fun hy => hxy ⟨rfl, hy⟩
      rw [engagement_of_not hy.1, engagement_of_not (by rw [hv.stage, if_pos rfl]; exact hy.2)]
    · exact engagement_congr (by rw [hv.stage, if_neg hx]) (by rw [hv.answers, if_neg hx]) y
  · unfold flag
    rw [hv.port]
    cases hport : v.port x y.val with
    | none => rfl
    | some z =>
      obtain ⟨l', o⟩ := z
      dsimp only
      rw [hv.link, if_neg]
      rintro rfl
      rcases LinkEnd.eq_or_opposite e o with rfl | rfl
      · obtain ⟨rfl, rfl⟩ := h.port_inj hp hport
        exact hxy ⟨rfl, rfl⟩
      · obtain ⟨rfl, rfl⟩ := h.port_inj (h.shared hp) hport
        exact hyx ⟨rfl, rfl⟩

end

/-- A node that asks a link for a pair takes a turn with the node at the far end. -/
theorem Calls.turn (hc : v.Calls i t k l e v') (h : v.Wired) (hs : Pairing.Asks t k (v.stage i))
    (hk : (k : Int) < t.count) (hw : (v.link l).waiting e = none) (hp : v.port i j.val = some (l, e))
    (hr : t.request.remote = j.val) (hji : j ≠ i) : (v.party i j).Turn (v.party j i) (v'.party i j) (v'.party j i) := by
  have hj : Pairing.peer? i t.request.remote = some j := Pairing.peer?_eq_some.2 ⟨hr, hji⟩
  have hquiet := h.quiet i (asks_ne_linking hs)
  have hasks := engagement_asks hs hj
  have hfaces : ∀ position, (PairStage.linking t k position).Faces i j := fun position => ⟨_, rfl, hj⟩
  cases hc with
  | @refused position kind link hf hl =>
    have hv := placed_refused (l := l) hquiet (.linking t k position) (.refused .aborted kind) link
    have hph := phase_of_answers ((hv.answers i).trans (if_pos rfl))
    have hown : link.flagged e = false := by rw [hl, Link.flagged_flag, if_pos rfl]
    have hother : link.flagged e.opposite = (v.party j i).flag := by
      rw [hl, Link.flagged_flag, if_neg (LinkEnd.opposite_ne e)]
      exact (flag_of_port (h.shared hp)).symm
    rw [hv.party_own hp (hfaces position), hv.party_peer h hp hji, hph, hown, hother]
    exact .turnedAway hasks ((flag_of_port hp).trans hf)
  | @waits position c link hf hrole hreq hn hlw hlf hm =>
    have hv := placed_sit (l := l) (e := e) hquiet (.linking t k position) link
    have hph := phase_of_quiet ((hv.answers i).trans (if_pos rfl))
    rw [hv.party_own hp (hfaces position), hv.party_peer h hp hji, hph, hlf, hlf, ← flag_of_port hp,
      ← flag_of_port (h.shared hp)]
    exact .ask hasks ((flag_of_port hp).trans hf) hk
  | @turned position c link es kind kind' v' hf hrole hreq ho hjoin hv =>
    have hplaced := placed_sit (l := l) (e := e) hquiet (.linking t k position) ((v.link l).await e c)
    have hport : t.request.remote = j.val := hr
    have hwired := h.await position (hport ▸ hp) (asks_ne_linking hs) hk hw hf hrole hreq
    have hlink : (v.sit i (.linking t k position) l e ((v.link l).await e c)).link l = (v.link l).await e c :=
      (link_sit ..).trans (if_pos rfl)
    have hp₁ : (v.sit i (.linking t k position) l e ((v.link l).await e c)).port i j.val = some (l, e) := hp
    have hreplies := hjoin.toReplies
    rw [← hlink] at hreplies
    obtain ⟨a, b, ha, hb, hpa, hpb⟩ : ∃ a b, (e, a) ∈ LinkEffect.replies es ∧
        (e.opposite, b) ∈ LinkEffect.replies es ∧ a.plain = .refused .rejected .keep ∧
        b.plain = .refused .rejected .keep := by
      cases e with
      | left => exact ⟨_, _, hjoin.left, hjoin.right, rfl, rfl⟩
      | right => exact ⟨_, _, hjoin.right, hjoin.left, rfl, rfl⟩
    have hown := hplaced.party_own hp (hfaces position)
    have hpeer := hplaced.party_peer h hp hji
    rw [phase_of_quiet ((hplaced.answers i).trans (if_pos rfl)), Link.flagged_await, ← flag_of_port hp] at hown
    rw [Link.flagged_await, ← flag_of_port (h.shared hp)] at hpeer
    obtain ⟨role, o, k₁, he, he'⟩ := hv.answered_engagement hwired hreplies hp₁ ha
    obtain ⟨role₂, o₂, k₂, he₂, he₂'⟩ := hv.answered_engagement hwired hreplies (hwired.shared hp₁) hb
    have hex : (v.sit i (.linking t k position) l e ((v.link l).await e c)).engagement i j =
        .paired t.request.role t.offer k .asking := congrArg Party.engagement hown
    have hey : (v.sit i (.linking t k position) l e ((v.link l).await e c)).engagement j i = v.engagement j i :=
      congrArg Party.engagement hpeer
    rw [hex] at he
    cases he
    rw [hey] at he₂
    rw [hv.party_of_port hp₁, hv.party_of_port (hwired.shared hp₁), hown, hpeer, he', he₂', hpa, hpb, hjoin.flagged,
      hjoin.flagged, Link.flagged_await, Link.flagged_await, ← flag_of_port hp, ← flag_of_port (h.shared hp)]
    exact .turnedDown hasks he₂ ((flag_of_port hp).trans hf) hk

theorem Calls.party_of_ne (hc : v.Calls i t k l e v') (h : v.Wired) (hs : Pairing.Asks t k (v.stage i))
    (hk : (k : Int) < t.count) (hw : (v.link l).waiting e = none) (hp : v.port i j.val = some (l, e))
    (hr : t.request.remote = j.val) (hji : j ≠ i) {x y : Fin n} (hxy : ¬ (x = i ∧ y = j)) (hyx : ¬ (x = j ∧ y = i)) :
    v'.party x y = v.party x y := by
  have hj : Pairing.peer? i t.request.remote = some j := Pairing.peer?_eq_some.2 ⟨hr, hji⟩
  have hquiet := h.quiet i (asks_ne_linking hs)
  have hb : ∀ position, ∀ y, y ≠ j → ¬ (v.stage i).Faces i y ∧ ¬ (PairStage.linking t k position).Faces i y :=
    fun position y hy => ⟨fun hf => hy (hf.eq_peer hs.request hj).symm, fun hf => hy (hf.eq_peer rfl hj).symm⟩
  cases hc with
  | @refused position kind link hf hl => exact (placed_refused hquiet _ _ _).party_of_ne h hp (hb position) hxy hyx
  | @waits position c link hf hrole hreq hn hlw hlf hm =>
    exact (placed_sit hquiet _ _).party_of_ne h hp (hb position) hxy hyx
  | @turned position c link es kind kind' v' hf hrole hreq ho hjoin hv =>
    have hport : t.request.remote = j.val := hr
    have hwired := h.await position (hport ▸ hp) (asks_ne_linking hs) hk hw hf hrole hreq
    have hlink : (v.sit i (.linking t k position) l e ((v.link l).await e c)).link l = (v.link l).await e c :=
      (link_sit ..).trans (if_pos rfl)
    have hreplies := hjoin.toReplies
    rw [← hlink] at hreplies
    rw [← (placed_sit hquiet (.linking t k position) _).party_of_ne h hp (hb position) hxy hyx]
    refine hv.party_of_ne hwired hreplies fun o hport => ?_
    have hport : v.port x y.val = some (l, o) := hport
    rcases LinkEnd.eq_or_opposite e o with rfl | rfl
    · obtain ⟨rfl, rfl⟩ := h.port_inj hp hport
      exact hxy ⟨rfl, rfl⟩
    · obtain ⟨rfl, rfl⟩ := h.port_inj (h.shared hp) hport
      exact hyx ⟨rfl, rfl⟩

end

/-- Each step is a turn of one of two nodes, as these see each other. -/
theorem Changes.turn {does : Doings n m} (hc : v.Changes does v') (h : v.Wired) (hij : i ≠ j) :
    (v.party i j).Turn (v.party j i) (v'.party i j) (v'.party j i) ∨
      (v.party j i).Turn (v.party i j) (v'.party j i) (v'.party i j) := by
  cases hc with
  | still => exact .inl .stay
  | @deed a wake took told flow recorded hx hw ht hd hf hl hn =>
    by_cases hi : i = a
    · subst hi
      exact .inl (h.turn_after hw ht hd hf hl hij)
    · by_cases hj : j = a
      · subst hj
        exact .inr (h.turn_after hw ht hd hf hl hij.symm)
      · have hsame : ∀ {x y : Fin n}, x ≠ a → y ≠ a →
            (v.after a wake took told flow.stage).party x y = v.party x y := fun {x y} hx hy => by
          have hapart : (v.exchange a took told).underway x y = v.underway x y ∧
              (v.exchange a took told).told x y = v.told x y :=
            exchange_apart (fun hxa => absurd hxa hx) fun hya => absurd hya hy
          refine party_eq (engagement_after_of_ne hx y) ?_ ?_ (flag_after x y)
          · rw [underway_after, hapart.1]
          · rw [told_after, hapart.2]
        rw [hsame hi hj, hsame hj hi]
        exact .inl .stay
  | @call a t k l e v' hq hs hk hp hw hcall =>
    obtain ⟨b, hr, hba, -⟩ := h.peer_of_port hp
    rw [hr] at hp
    by_cases hab : i = a ∧ j = b
    · obtain ⟨rfl, rfl⟩ := hab
      exact .inl (hcall.turn h hs hk hw hp hr hba)
    · by_cases hba' : j = a ∧ i = b
      · obtain ⟨rfl, rfl⟩ := hba'
        exact .inr (hcall.turn h hs hk hw hp hr hba)
      · rw [hcall.party_of_ne h hs hk hw hp hr hba hab fun hx => hba' ⟨hx.2, hx.1⟩,
          hcall.party_of_ne h hs hk hw hp hr hba hba' fun hx => hab ⟨hx.2, hx.1⟩]
        exact .inl .stay
  | @abort a remote l e link es v' hq hp ha hv =>
    obtain ⟨b, rfl, hba, -⟩ := h.peer_of_port hp
    have hends : ∀ {x y : Fin n}, ¬ (x = a ∧ y = b) → ¬ (x = b ∧ y = a) → ∀ o, v.port x y.val ≠ some (l, o) := by
      intro x y hxy hyx o hport
      rcases LinkEnd.eq_or_opposite e o with rfl | rfl
      · obtain ⟨rfl, rfl⟩ := h.port_inj hp hport
        exact hxy ⟨rfl, rfl⟩
      · obtain ⟨rfl, rfl⟩ := h.port_inj (h.shared hp) hport
        exact hyx ⟨rfl, rfl⟩
    by_cases hab : i = a ∧ j = b
    · obtain ⟨rfl, rfl⟩ := hab
      exact .inl (h.turn_abort hp ha hv)
    · by_cases hba' : j = a ∧ i = b
      · obtain ⟨rfl, rfl⟩ := hba'
        exact .inr (h.turn_abort hp ha hv)
      · rw [hv.party_of_ne h ha.toReplies (hends hab fun hx => hba' ⟨hx.2, hx.1⟩),
          hv.party_of_ne h ha.toReplies (hends hba' fun hx => hab ⟨hx.2, hx.1⟩)]
        exact .inl .stay
  | join hq hj hv => exact .inl (h.turn_join hj hv i j)

/-- All pair services agree with each other. -/
def Agreed (v : View n m) : Prop := ∀ i j, i ≠ j → Attuned (v.party i j) (v.party j i)

theorem Changes.agreed {does : Doings n m} (hc : v.Changes does v') (h : v.Wired) (ha : v.Agreed) : v'.Agreed := by
  intro i j hij
  rcases hc.turn h hij with ht | ht
  · exact (ha i j hij).turn ht
  · exact ((ha j i hij.symm).turn ht).symm

end View

namespace Network

theorem Built.underway {s : Network n m} (h : s.Built) (x y : Fin n) : s.view.underway x y = 0 := by
  change ((s.inbound x y).items : Multiset PeerMessage) + _ = 0
  rw [h.ahead]
  obtain ⟨latencies, hs⟩ := h.service y
  have hin : s.inbound x y = .new (latencies.get x) := by
    unfold inbound
    rw [hs]
    exact Vector.getElem_map ..
  rw [hin]
  rfl

theorem Built.agreed {s : Network n m} (h : s.Built) : s.view.Agreed := by
  have hengagement : ∀ x y, s.view.engagement x y = .apart := fun x y => by
    refine View.engagement_of_not ?_
    rintro ⟨r, hr, -⟩
    have hstage : s.view.stage x = .idle := h.pairStage x
    rw [hstage] at hr
    exact nomatch hr
  have hunder := h.underway
  intro i j _
  refine ⟨?_, fun he => ?_, .of_not_offering ?_, .of_not_offering ?_⟩
  · change (s.view.underway i j).card + (s.view.underway j i).card =
      (s.view.engagement i j).offers + (s.view.engagement j i).offers
    rw [hunder, hunder, hengagement, hengagement]
    rfl
  · exact nomatch (hengagement i j).symm.trans he
  · change (s.view.engagement i j).offers = 0
    rw [hengagement]
    rfl
  · change (s.view.engagement j i).offers = 0
    rw [hengagement]
    rfl

section

variable {c : NetworkConfig} {may : ClientAct c.nodes.length → Prop} {s s' : Network c.nodes.length c.links.length}

/-- What a move of a network comes to, along a run. -/
theorem Trace.changes {past : List (Moment c.nodes.length c.links.length)} (h : Trace c may past s) (hm : s.Moves s') :
    s.view.Changes s.Does s'.view :=
  h.wired.changes (hm.steps h.crewed h.wired.regular)

theorem Trace.act_changes {past : List (Moment c.nodes.length c.links.length)} (h : Trace c may past s)
    {a : ClientAct c.nodes.length} (hc : s.current = none) (hr : a.run s = (.ok (), s')) : s.view.Changes s.Does s'.view :=
  h.wired.changes (act_steps hc hr h.wired.regular)

/-- Along every run pair services agree with each other. -/
theorem Trace.agreed {past : List (Moment c.nodes.length c.links.length)} (h : Trace c may past s) : s.view.Agreed := by
  induction h with
  | built h => exact (built_of_build h).agreed
  | move h hm ih => exact (h.changes hm).agreed h.wired ih
  | act h a ha hc hr ih => exact (h.act_changes hc hr).agreed h.wired ih

end

end Network

end QuantumNode
