import QuantumNode.Proofs.Entanglement.Link
import QuantumNode.Proofs.Network.Step

/-! How pair services are wired to links: an end of a link waits exactly as long as the pair service of its node
waits for an answer that is not on its way yet. -/
namespace QuantumNode

open Work Working

variable {n m : Nat}

namespace View

def channel (v : View n m) (l : Fin m) (e : LinkEnd) : Channel LinkAnswer ProcessId := (v.wired l).answers e

/-! Answering the ends of a link. -/

/-- The answer that a pair service gets when an end is answered, if it is the one that waits there. -/
def answerFor? (v : View n m) (l : Fin m) (i : Fin n) (x : LinkEnd × LinkAnswer) : Option LinkAnswer :=
  if (v.channel l x.1).waiters = [pairId i] then some x.2 else none

/-- The ends of a link have been answered. -/
structure Answered (v : View n m) (l : Fin m) (xs : List (LinkEnd × LinkAnswer)) (v' : View n m) : Prop where
  id : v'.id = v.id
  stage : v'.stage = v.stage
  underway : v'.underway = v.underway
  told : v'.told = v.told
  listeners : v'.listeners = v.listeners
  port : v'.port = v.port
  link : v'.link = v.link
  other : ∀ k e, k ≠ l → v'.channel k e = v.channel k e
  served : ∀ x ∈ xs, (v'.channel l x.1).waiters = []
  items : ∀ x ∈ xs, (v'.channel l x.1).items =
    (v.channel l x.1).items ++ if (v.channel l x.1).waiters = [] then [x.2] else []
  unserved : ∀ e, e ∉ xs.map Prod.fst → v'.channel l e = v.channel l e
  answers : ∀ i, v'.answers i = v.answers i + xs.filterMap (v.answerFor? l i)

theorem answers_setAnswers (w : WiredLink) (e o : LinkEnd) (c : Channel LinkAnswer ProcessId) :
    (w.setAnswers e c).answers o = if o = e then c else w.answers o := by
  cases e with
  | left =>
    cases o with
    | left => rfl
    | right => rfl
  | right =>
    cases o with
    | left => rfl
    | right => rfl

theorem link_setAnswers (w : WiredLink) (e : LinkEnd) (c : Channel LinkAnswer ProcessId) :
    (w.setAnswers e c).link = w.link := by
  cases e with
  | left => rfl
  | right => rfl

theorem channel_setAnswers (v : View n m) (l k : Fin m) (e o : LinkEnd) (c : Channel LinkAnswer ProcessId) :
    (v.setWired l ((v.wired l).setAnswers e c)).channel k o = if k = l ∧ o = e then c else v.channel k o := by
  change (if k = l then _ else _ : WiredLink).answers o = _
  by_cases hk : k = l
  · subst hk
    rw [if_pos rfl, answers_setAnswers]
    simp [channel]
  · rw [if_neg hk, if_neg fun h => hk h.1]
    rfl

theorem link_setAnswers_wired (v : View n m) (l : Fin m) (e : LinkEnd) (c : Channel LinkAnswer ProcessId) :
    (v.setWired l ((v.wired l).setAnswers e c)).link = v.link := by
  funext k
  change (if k = l then _ else _ : WiredLink).link = _
  split
  · rename_i hk
    rw [hk, link_setAnswers]
    rfl
  · rfl

/-- An end for which nobody waits, or one process. -/
theorem answer_channel {v : View n m} {l : Fin m} {e : LinkEnd} (h : (v.channel l e).waiters.length ≤ 1)
    (a : LinkAnswer) : ∃ c v', c.waiters = [] ∧
      c.items = (v.channel l e).items ++ (if (v.channel l e).waiters = [] then [a] else []) ∧
      v' = v.setWired l ((v.wired l).setAnswers e c) ∧
      v.answer l e a =
        { v' with answers := fun i => v.answers i + if (v.channel l e).waiters = [pairId i] then {a} else 0 } := by
  unfold channel at h ⊢
  unfold answer
  dsimp only
  rcases hc : (v.wired l).answers e with ⟨latency, items, waiters, sent⟩
  rw [hc] at h
  match waiters, h with
  | [], _ =>
    refine ⟨⟨latency, items ++ [a], [], sent + 1⟩, _, rfl, rfl, rfl, ?_⟩
    ext1
    iterate 2 rfl
    · exact funext fun i => (Multiset.add_zero _).symm
    iterate 5 rfl
  | [p], _ =>
    refine ⟨⟨latency, items, [], sent + 1⟩, _, rfl, (List.append_nil _).symm, rfl, ?_⟩
    ext1
    iterate 2 rfl
    · funext i
      change (if pairId i = p then a ::ₘ v.answers i else v.answers i) = v.answers i + if [p] = [pairId i] then {a} else 0
      by_cases hi : pairId i = p
      · rw [if_pos hi, if_pos (by rw [hi]), Multiset.add_comm, Multiset.singleton_add]
      · rw [if_neg hi, if_neg fun h => hi (List.cons.inj h).1.symm, Multiset.add_zero]
    iterate 5 rfl

theorem answered_foldl (l : Fin m) (xs : List (LinkEnd × LinkAnswer)) (hn : (xs.map Prod.fst).Nodup) {v : View n m}
    (hw : ∀ x ∈ xs, (v.channel l x.1).waiters.length ≤ 1) :
    v.Answered l xs (xs.foldl (fun v x => v.answer l x.1 x.2) v) := by
  induction xs generalizing v with
  | nil =>
    exact ⟨rfl, rfl, rfl, rfl, rfl, rfl, rfl, fun _ _ _ => rfl, fun _ h => absurd h List.not_mem_nil,
      fun _ h => absurd h List.not_mem_nil, fun _ _ => rfl, fun _ => (Multiset.add_zero _).symm⟩
  | cons x xs ih =>
    obtain ⟨e, a⟩ := x
    rw [List.map_cons, List.nodup_cons] at hn
    obtain ⟨c, v', hc, hitems, hv', hstep⟩ := answer_channel (hw (e, a) List.mem_cons_self) a
    dsimp only at hstep hitems
    have hchannel : ∀ k o, (v.answer l e a).channel k o = if k = l ∧ o = e then c else v.channel k o := by
      intro k o
      rw [hstep, ← channel_setAnswers, ← hv']
      rfl
    have hlink : (v.answer l e a).link = v.link := by
      rw [hstep, ← link_setAnswers_wired v l e c, ← hv']
      rfl
    have hne : ∀ x ∈ xs, x.1 ≠ e := fun x hx he => hn.1 (he ▸ List.mem_map.2 ⟨x, hx, rfl⟩)
    have hsame : ∀ x ∈ xs, (v.answer l e a).channel l x.1 = v.channel l x.1 := fun x hx => by
      rw [hchannel, if_neg fun h => hne x hx h.2]
    have h := ih hn.2 (v := v.answer l e a) fun x hx => by
      rw [hsame x hx]
      exact hw x (List.mem_cons_of_mem _ hx)
    have hown : (xs.foldl (fun v x => v.answer l x.1 x.2) (v.answer l e a)).channel l e = c := by
      rw [h.unserved e hn.1, hchannel, if_pos ⟨rfl, rfl⟩]
    rw [List.foldl_cons]
    refine ⟨?_, ?_, ?_, ?_, ?_, ?_, h.link.trans hlink, fun k o hk => ?_, fun x hx => ?_, fun x hx => ?_, fun o ho => ?_,
      fun i => ?_⟩
    · rw [h.id, hstep, hv']
      rfl
    · rw [h.stage, hstep, hv']
      rfl
    · rw [h.underway, hstep, hv']
      rfl
    · rw [h.told, hstep, hv']
      rfl
    · rw [h.listeners, hstep, hv']
      rfl
    · rw [h.port, hstep, hv']
      rfl
    · rw [h.other k o hk, hchannel, if_neg fun h => hk h.1]
    · rcases List.mem_cons.1 hx with rfl | hx
      · rw [hown, hc]
      · exact h.served x hx
    · rcases List.mem_cons.1 hx with rfl | hx
      · rw [hown, hitems]
      · rw [h.items x hx, hsame x hx]
    · rw [h.unserved o fun hmem => ho (List.mem_cons_of_mem _ hmem), hchannel,
        if_neg fun (he : l = l ∧ o = e) => ho (he.2 ▸ List.mem_cons_self)]
    · have hanswers : (v.answer l e a).answers i =
          v.answers i + (if (v.channel l e).waiters = [pairId i] then {a} else 0) := by
        rw [hstep]
      have hrest : xs.filterMap ((v.answer l e a).answerFor? l i) = xs.filterMap (v.answerFor? l i) :=
        List.filterMap_congr fun x hx => by rw [answerFor?, answerFor?, hsame x hx]
      rw [h.answers i, hanswers, hrest, Multiset.add_assoc]
      congr 1
      by_cases hi : (v.channel l e).waiters = [pairId i]
      · have ha : v.answerFor? l i (e, a) = some a := if_pos hi
        rw [if_pos hi, List.filterMap_cons_some ha, Multiset.singleton_add, Multiset.cons_coe]
      · have ha : v.answerFor? l i (e, a) = none := if_neg hi
        rw [if_neg hi, List.filterMap_cons_none ha, Multiset.zero_add]

theorem foldl_applyLink (l : Fin m) (es : List LinkEffect) (v : View n m) :
    es.foldl (applyLink l) v = (LinkEffect.replies es).foldl (fun v x => v.answer l x.1 x.2) v := by
  induction es generalizing v with
  | nil => rfl
  | cons x es ih =>
    cases x with
    | answer e a => exact ih _
    | schedule delay e => exact ih _
    | log level text => exact ih _

/-- A link has changed, and its ends have been answered. -/
structure Relinked (v : View n m) (l : Fin m) (link : Link) (xs : List (LinkEnd × LinkAnswer)) (v' : View n m) :
    Prop where
  id : v'.id = v.id
  stage : v'.stage = v.stage
  underway : v'.underway = v.underway
  told : v'.told = v.told
  listeners : v'.listeners = v.listeners
  port : v'.port = v.port
  link : ∀ k, v'.link k = if k = l then link else v.link k
  items : ∀ k e, (v'.channel k e).items = []
  waiters : ∀ k e, (v'.channel k e).waiters = ((v'.link k).waiting e).toList.map fun _ => 2 * (v'.link k).nodeAt e
  answered : ∀ i, ∀ x ∈ xs, (v.link l).nodeAt x.1 = i.val → v'.answers i = v.answers i + {x.2}
  unanswered : ∀ i : Fin n, (∀ x ∈ xs, (v.link l).nodeAt x.1 ≠ i.val) → v'.answers i = v.answers i

/-- The pair service of a node has made the call of an end, and nobody has answered it. -/
structure Seated (v : View n m) (l : Fin m) (e : LinkEnd) (c : LinkCall) (i : Fin n) : Prop where
  stage : ∃ t k position, v.stage i = .linking t k position ∧ v.port i t.request.remote = some (l, e) ∧
    c.role = t.request.role ∧ (c.role = .create → c.request = t.wanted)
  answers : v.answers i = 0

/-- How pair services and links fit together. -/
structure Wired (v : View n m) : Prop where
  id : ∀ i, v.id i = i
  listeners : Network.Open v
  shared : ∀ {i j : Fin n} {l e}, v.port i j.val = some (l, e) → v.port j i.val = some (l, e.opposite)
  ends : ∀ {i r l e}, v.port i r = some (l, e) → (v.link l).nodeAt e = i.val ∧ ∃ j, Pairing.peer? i r = some j
  apart : ∀ l e, (v.link l).nodeAt e.opposite ≠ (v.link l).nodeAt e
  items : ∀ l e, (v.channel l e).items = []
  waiters : ∀ l e, (v.channel l e).waiters = ((v.link l).waiting e).toList.map fun _ => 2 * (v.link l).nodeAt e
  seated : ∀ {l e c}, (v.link l).waiting e = some c → ∃ i, v.Seated l e c i
  linking : ∀ {i t k position}, v.stage i = .linking t k position → ∃ l e, v.port i t.request.remote = some (l, e) ∧
    ((v.link l).waiting e = none → ∃ a, v.answers i = {a})
  quiet : ∀ i, (∀ t k position, v.stage i ≠ .linking t k position) → v.answers i = 0
  flags : ∀ l e, (v.link l).flagged e = true → (v.link l).waiting e = none
  matched : ∀ l, (v.link l).Matched
  sound : ∀ i, (v.stage i).Sound

theorem Wired.regular {v : View n m} (h : v.Wired) : v.Regular :=
  ⟨h.id, h.listeners, fun i hi => h.quiet i fun t k position => by rw [hi]; exact nofun⟩

end View

theorem Pairing.peer?_eq_some {i j : Fin n} {r : Int} : Pairing.peer? i r = some j ↔ r = j.val ∧ j ≠ i := by
  unfold Pairing.peer?
  constructor
  · intro h
    split at h
    · rename_i hr
      split at h
      · exact nomatch h
      · rename_i hne
        cases h
        exact ⟨(Int.toNat_of_nonneg hr.1).symm, hne⟩
    · exact nomatch h
  · rintro ⟨rfl, hne⟩
    rw [dif_pos ⟨Int.natCast_nonneg _, by simp⟩]
    exact if_neg hne

namespace View

variable {v v' : View n m} {l : Fin m} {i : Fin n}

theorem Wired.eq_end (h : v.Wired) {l : Fin m} {e o : LinkEnd} (hn : (v.link l).nodeAt e = (v.link l).nodeAt o) :
    e = o := by
  rcases LinkEnd.eq_or_opposite o e with he | rfl
  · exact he
  · exact absurd hn (h.apart l o)

theorem Seated.nodeAt {e : LinkEnd} {c : LinkCall} (hs : v.Seated l e c i) (h : v.Wired) :
    (v.link l).nodeAt e = i.val := by
  obtain ⟨t, k, position, -, hp, -⟩ := hs.stage
  exact (h.ends hp).1

private theorem filterMap_singleton {β : Type} {f : LinkEnd × LinkAnswer → Option β} {xs : List (LinkEnd × LinkAnswer)}
    (hn : (xs.map Prod.fst).Nodup) {x : LinkEnd × LinkAnswer} (hx : x ∈ xs) {b : β} (hf : f x = some b)
    (hother : ∀ y ∈ xs, y.1 ≠ x.1 → f y = none) : xs.filterMap f = [b] := by
  induction xs with
  | nil => exact nomatch hx
  | cons y xs ih =>
    rw [List.map_cons, List.nodup_cons] at hn
    rcases List.mem_cons.1 hx with rfl | hx
    · rw [List.filterMap_cons_some hf, List.filterMap_eq_nil_iff.2 fun z hz => hother z (List.mem_cons_of_mem _ hz) ?_]
      intro he
      exact hn.1 (he ▸ List.mem_map.2 ⟨z, hz, rfl⟩)
    · have hne : y.1 ≠ x.1 := fun he => hn.1 (he ▸ List.mem_map.2 ⟨x, hx, rfl⟩)
      rw [List.filterMap_cons_none (hother y List.mem_cons_self hne)]
      exact ih hn.2 hx fun z hz => hother z (List.mem_cons_of_mem _ hz)

/-- What the ends of a link are told reaches the nodes that wait there. -/
theorem Wired.relinked (h : v.Wired) {link : Link} {es : List LinkEffect} (hr : Link.Replies (v.link l) link es) :
    v.Relinked l link (LinkEffect.replies es) (v.updateLink l (es, link)) := by
  have hchannel : ∀ k e, (v.setLink l link).channel k e = v.channel k e := fun k e => by
    change (if k = l then _ else _ : WiredLink).answers e = _
    split
    · rename_i hk
      rw [hk]
      rfl
    · rfl
  have hlink : ∀ k, (v.setLink l link).link k = if k = l then link else v.link k := fun k => by
    change (if k = l then _ else _ : WiredLink).link = _
    split
    · rfl
    · rfl
  have hwait : ∀ x ∈ LinkEffect.replies es, (v.channel l x.1).waiters = [2 * (v.link l).nodeAt x.1] := fun x hx => by
    obtain ⟨c, hc⟩ := Option.isSome_iff_exists.1 (hr.answered x.1 x.2 hx).1
    rw [h.waiters, hc]
    rfl
  have ha := answered_foldl l (LinkEffect.replies es) hr.nodup (v := v.setLink l link) fun x hx => by
    rw [hchannel, hwait x hx]
    exact Nat.le_refl 1
  rw [← foldl_applyLink] at ha
  have hfor : ∀ (i : Fin n), ∀ x ∈ LinkEffect.replies es, (v.setLink l link).answerFor? l i x =
      if (v.link l).nodeAt x.1 = i.val then some x.2 else none := fun i x hx => by
    unfold answerFor?
    rw [hchannel, hwait x hx]
    unfold pairId
    refine if_congr ?_ rfl rfl
    rw [List.cons.injEq, and_iff_left rfl]
    exact Nat.mul_right_inj (Nat.succ_ne_zero 1)
  have hserved : ∀ x ∈ LinkEffect.replies es, link.waiting x.1 = none := fun x hx => (hr.answered x.1 x.2 hx).2
  refine ⟨ha.id, ha.stage, ha.underway, ha.told, ha.listeners, ha.port, fun k => (congrFun ha.link k).trans (hlink k),
    fun k e => ?_, fun k e => ?_, fun i x hx hi => ?_, fun i hi => ?_⟩
  · by_cases hk : k = l
    · subst hk
      by_cases he : e ∈ (LinkEffect.replies es).map Prod.fst
      · obtain ⟨x, hx, rfl⟩ := List.mem_map.1 he
        refine (ha.items x hx).trans ?_
        rw [hchannel, hwait x hx, h.items, if_neg (List.cons_ne_nil _ _)]
        rfl
      · rw [updateLink, ha.unserved e he, hchannel, h.items]
    · rw [updateLink, ha.other k e hk, hchannel, h.items]
  · have hl : (v.updateLink l (es, link)).link k = if k = l then link else v.link k :=
      (congrFun ha.link k).trans (hlink k)
    rw [hl]
    by_cases hk : k = l
    · subst hk
      rw [if_pos rfl]
      by_cases he : e ∈ (LinkEffect.replies es).map Prod.fst
      · obtain ⟨x, hx, rfl⟩ := List.mem_map.1 he
        rw [hserved x hx]
        exact ha.served x hx
      · rw [updateLink, ha.unserved e he, hchannel, h.waiters, hr.nodeAt,
          hr.unanswered e fun a hmem => he (List.mem_map.2 ⟨_, hmem, rfl⟩)]
    · rw [if_neg hk, updateLink, ha.other k e hk, hchannel, h.waiters]
  · refine (ha.answers i).trans ?_
    rw [filterMap_singleton hr.nodup hx ((hfor i x hx).trans (if_pos hi)) fun y hy hne => ?_]
    · rfl
    · rw [hfor i y hy, if_neg fun hyi => hne (h.eq_end (hyi.trans hi.symm))]
  · refine (ha.answers i).trans ?_
    rw [List.filterMap_eq_nil_iff.2 fun y hy => by rw [hfor i y hy, if_neg (hi y hy)]]
    exact Multiset.add_zero _

/-- Whoever is answered was seated. -/
theorem Wired.seated_of_reply (h : v.Wired) {link : Link} {es : List LinkEffect}
    (hr : Link.Replies (v.link l) link es) {x : LinkEnd × LinkAnswer} (hx : x ∈ LinkEffect.replies es)
    (hi : (v.link l).nodeAt x.1 = i.val) : ∃ c, (v.link l).waiting x.1 = some c ∧ v.Seated l x.1 c i := by
  obtain ⟨c, hc⟩ := Option.isSome_iff_exists.1 (hr.answered x.1 x.2 hx).1
  obtain ⟨i', hs⟩ := h.seated hc
  have hii : i' = i := Fin.ext ((hs.nodeAt h).symm.trans hi)
  exact ⟨c, hc, hii ▸ hs⟩

theorem Relinked.wired (hv : v.Wired) {link : Link} {es : List LinkEffect} (hr : Link.Replies (v.link l) link es)
    (h : v.Relinked l link (LinkEffect.replies es) v') (hf : ∀ o, link.flagged o = true → link.waiting o = none)
    (hm : link.Matched) : v'.Wired := by
  have hnode : ∀ k o, (v'.link k).nodeAt o = (v.link k).nodeAt o := fun k o => by
    rw [h.link]
    split
    · rename_i hk
      rw [hk, hr.nodeAt]
    · rfl
  have hquiet : ∀ {i : Fin n}, (∀ l e c, (v.link l).waiting e = some c → ¬ v.Seated l e c i) →
      v'.answers i = v.answers i := fun {i} hi => by
    refine h.unanswered i fun x hx hxi => ?_
    obtain ⟨c, hc, hs⟩ := hv.seated_of_reply hr hx hxi
    exact hi l x.1 c hc hs
  refine ⟨fun i => by rw [h.id, hv.id], by rw [Network.Open, h.listeners]; exact hv.listeners, fun hp => ?_, fun hp => ?_,
    fun k e => ?_, h.items, h.waiters, fun {k e c} hc => ?_, fun {i t k position} hs => ?_, fun i hi => ?_, fun k e he => ?_,
    fun k => ?_, fun i => ?_⟩
  · rw [h.port] at hp ⊢
    exact hv.shared hp
  · rw [h.port] at hp
    rw [hnode]
    exact hv.ends hp
  · rw [hnode, hnode]
    exact hv.apart k e
  · -- Nobody who waits still has been answered.
    have hold : (v.link k).waiting e = some c ∧ (k = l → ∀ a, (e, a) ∉ LinkEffect.replies es) := by
      rw [h.link] at hc
      by_cases hk : k = l
      · subst hk
        rw [if_pos rfl] at hc
        have hmem : ∀ a, (e, a) ∉ LinkEffect.replies es := fun a ha => by
          rw [(hr.answered e a ha).2] at hc
          cases hc
        exact ⟨hr.unanswered e hmem ▸ hc, fun _ => hmem⟩
      · rw [if_neg hk] at hc
        exact ⟨hc, fun hkl => absurd hkl hk⟩
    obtain ⟨i, hs⟩ := hv.seated hold.1
    obtain ⟨t, j, position, hstage, hp, hrole⟩ := hs.stage
    refine ⟨i, ⟨t, j, position, by rw [h.stage]; exact hstage, by rw [h.port]; exact hp, hrole⟩, ?_⟩
    rw [h.unanswered i fun x hx hxi => ?_, hs.answers]
    obtain ⟨c', -, hs'⟩ := hv.seated_of_reply hr hx hxi
    obtain ⟨t', j', position', hstage', hp', -⟩ := hs'.stage
    rw [hstage] at hstage'
    cases hstage'
    rw [hp] at hp'
    cases hp'
    exact hold.2 rfl x.2 hx
  · rw [h.stage] at hs
    obtain ⟨l', e', hp, hanswer⟩ := hv.linking hs
    refine ⟨l', e', by rw [h.port]; exact hp, fun hw => ?_⟩
    -- A node is only answered at the end at which it waits.
    have hat : ∀ x ∈ LinkEffect.replies es, (v.link l).nodeAt x.1 = i.val → l = l' ∧ x.1 = e' := fun x hx hxi => by
      obtain ⟨c', -, hs'⟩ := hv.seated_of_reply hr hx hxi
      obtain ⟨t', j', position', hstage', hp', -⟩ := hs'.stage
      rw [hs] at hstage'
      cases hstage'
      rw [hp] at hp'
      cases hp'
      exact ⟨rfl, rfl⟩
    by_cases hreply : ∃ x ∈ LinkEffect.replies es, (v.link l).nodeAt x.1 = i.val
    · obtain ⟨x, hx, hxi⟩ := hreply
      obtain ⟨c, -, hs'⟩ := hv.seated_of_reply hr hx hxi
      refine ⟨x.2, ?_⟩
      rw [h.answered i x hx hxi, hs'.answers, Multiset.zero_add]
    · have hsame : v'.answers i = v.answers i := h.unanswered i fun x hx hxi => hreply ⟨x, hx, hxi⟩
      rw [hsame]
      refine hanswer ?_
      rw [h.link] at hw
      by_cases hl : l' = l
      · subst hl
        rw [if_pos rfl, hr.unanswered e' fun a ha => hreply ⟨_, ha, (hv.ends hp).1⟩] at hw
        exact hw
      · rw [if_neg hl] at hw
        exact hw
  · rw [h.stage] at hi
    rw [hquiet fun l e c _ hs => ?_]
    · exact hv.quiet i hi
    · obtain ⟨t, k, position, hstage, -⟩ := hs.stage
      exact hi t k position hstage
  · rw [h.link] at he ⊢
    split
    · rename_i hk
      rw [if_pos hk] at he
      exact hf e he
    · rename_i hk
      rw [if_neg hk] at he
      exact hv.flags k e he
  · rw [h.link]
    split
    · exact hm
    · exact hv.matched k
  · rw [h.stage]
    exact hv.sound i

/-! Asking a link. -/

/-- A pair service makes a call and waits. -/
def sit (v : View n m) (i : Fin n) (stage : PairStage) (l : Fin m) (e : LinkEnd) (link : Link) : View n m :=
  (v.setWired l { (v.wired l).setAnswers e { v.channel l e with waiters := [pairId i] } with link := link }).setStage
    i stage

theorem link_sit (v : View n m) (i : Fin n) (stage : PairStage) (l k : Fin m) (e : LinkEnd) (link : Link) :
    (v.sit i stage l e link).link k = if k = l then link else v.link k := by
  change (if k = l then _ else _ : WiredLink).link = _
  split
  · rfl
  · rfl

theorem channel_sit (v : View n m) (i : Fin n) (stage : PairStage) (l k : Fin m) (e o : LinkEnd) (link : Link) :
    (v.sit i stage l e link).channel k o =
      if k = l ∧ o = e then { v.channel l e with waiters := [pairId i] } else v.channel k o := by
  rw [← channel_setAnswers]
  change (if k = l then _ else _ : WiredLink).answers o = (if k = l then _ else _ : WiredLink).answers o
  split
  · rfl
  · rfl

theorem Wired.sit (h : v.Wired) {t : PairTask} {k position : Nat} {e : LinkEnd} {c : LinkCall} {link : Link}
    (hp : v.port i t.request.remote = some (l, e)) (hi : ∀ t k position, v.stage i ≠ .linking t k position)
    (hk : (k : Int) < t.count) (hw : (v.link l).waiting e = none) (hf : (v.link l).flagged e = false)
    (hr : c.role = t.request.role) (hc : c.role = .create → c.request = t.wanted)
    (hn : ∀ o, link.nodeAt o = (v.link l).nodeAt o) (hlw : ∀ o, link.waiting o = ((v.link l).await e c).waiting o)
    (hlf : ∀ o, link.flagged o = (v.link l).flagged o) (hm : link.Matched) :
    (v.sit i (.linking t k position) l e link).Wired := by
  have hnode : ∀ x o, ((v.sit i (.linking t k position) l e link).link x).nodeAt o = (v.link x).nodeAt o :=
    fun x o => by
      rw [link_sit]
      split
      · rename_i hx
        rw [hx, hn]
      · rfl
  have hstage : ∀ j, (v.sit i (.linking t k position) l e link).stage j =
      if j = i then .linking t k position else v.stage j := fun _ => rfl
  have hwaiting : ∀ x o, ((v.sit i (.linking t k position) l e link).link x).waiting o =
      if x = l ∧ o = e then some c else (v.link x).waiting o := fun x o => by
    rw [link_sit]
    by_cases hx : x = l
    · subst hx
      rw [if_pos rfl, hlw, Link.waiting_await]
      simp
    · rw [if_neg hx, if_neg fun h => hx h.1]
  refine ⟨h.id, h.listeners, h.shared, fun hp => ?_, fun x o => ?_, fun x o => ?_, fun x o => ?_, fun {x o c'} hx => ?_,
    fun {j t' k' position'} hj => ?_, fun j hj => ?_, fun x o ho => ?_, fun x => ?_, fun j => ?_⟩
  · rw [hnode]
    exact h.ends hp
  · rw [hnode, hnode]
    exact h.apart x o
  · rw [channel_sit]
    split
    · exact h.items l e
    · exact h.items x o
  · rw [hwaiting, hnode, channel_sit]
    split
    · rename_i hx
      rw [hx.1, hx.2, (h.ends hp).1]
      rfl
    · exact h.waiters x o
  · rw [hwaiting] at hx
    split at hx
    · rename_i hxo
      obtain ⟨rfl, rfl⟩ := hxo
      cases hx
      exact ⟨i, ⟨t, k, position, by rw [hstage, if_pos rfl], hp, hr, hc⟩, h.quiet i hi⟩
    · obtain ⟨j, hs⟩ := h.seated hx
      obtain ⟨t', k', position', hj, hrest⟩ := hs.stage
      have hji : j ≠ i := fun hji => hi t' k' position' (hji ▸ hj)
      exact ⟨j, ⟨t', k', position', by rw [hstage, if_neg hji, hj], hrest⟩, hs.answers⟩
  · rw [hstage] at hj
    split at hj
    · rename_i hji
      subst hji
      cases hj
      exact ⟨l, e, hp, fun hnone => by
        rw [hwaiting, if_pos ⟨rfl, rfl⟩] at hnone
        exact nomatch hnone⟩
    · rename_i hji
      obtain ⟨l', e', hp', ha⟩ := h.linking hj
      refine ⟨l', e', hp', fun hnone => ha ?_⟩
      rw [hwaiting] at hnone
      split at hnone
      · exact nomatch hnone
      · exact hnone
  · rw [hstage] at hj
    split at hj
    · exact absurd rfl (hj t k position)
    · exact h.quiet j hj
  · rw [hwaiting]
    rw [link_sit] at ho
    by_cases hx : x = l
    · subst hx
      rw [if_pos rfl, hlf] at ho
      have hoe : o ≠ e := fun hoe => by
        rw [hoe, hf] at ho
        exact nomatch ho
      rw [if_neg fun h => hoe h.2]
      exact h.flags x o ho
    · rw [if_neg hx] at ho
      rw [if_neg fun h => hx h.1]
      exact h.flags x o ho
  · rw [link_sit]
    split
    · exact hm
    · exact h.matched x
  · rw [hstage]
    split
    · exact hk
    · exact h.sound j

/-- What comes of a call that a pair service makes for a pair. -/
inductive Calls (v : View n m) (i : Fin n) (t : PairTask) (k : Nat) (l : Fin m) (e : LinkEnd) : View n m → Prop where
  | refused {position : Nat} {kind : PairKind} {link : Link} (hf : (v.link l).flagged e = true)
      (hl : link = (v.link l).setSide e { (v.link l).side e with abortPending := false }) :
      Calls v i t k l e
        (((v.setLink l link).setStage i (.linking t k position)).wake (pairId i) (.refused .aborted kind))
  | waits {position : Nat} {c : LinkCall} {link : Link} (hf : (v.link l).flagged e = false)
      (hr : c.role = t.request.role) (hc : c.role = .create → c.request = t.wanted)
      (hn : ∀ o, link.nodeAt o = (v.link l).nodeAt o) (hw : ∀ o, link.waiting o = ((v.link l).await e c).waiting o)
      (hlf : ∀ o, link.flagged o = (v.link l).flagged o) (hm : link.Matched) :
      Calls v i t k l e (v.sit i (.linking t k position) l e link)
  | turned {position : Nat} {c : LinkCall} {link : Link} {es : List LinkEffect} {kind kind' : PairKind} {v' : View n m}
      (hf : (v.link l).flagged e = false) (hr : c.role = t.request.role) (hc : c.role = .create → c.request = t.wanted)
      (ho : ((v.link l).waiting e.opposite).isSome)
      (hj : Link.Joins ((v.link l).await e c) link es (.refused .rejected kind) (.refused .rejected kind'))
      (hv : (v.sit i (.linking t k position) l e ((v.link l).await e c)).Relinked l link (LinkEffect.replies es) v') :
      Calls v i t k l e v'

theorem look_of_quiet (h : v.answers i = 0) (wake : Wake) : v.look (pairId i) wake = v := by
  cases wake with
  | answer a =>
    ext1
    iterate 2 rfl
    · funext j
      refine ite_eq_right_iff.2 fun hj => ?_
      rw [pairId_inj.1 hj, h]
      rfl
    iterate 5 rfl
  | _ => rfl

private theorem receive_of_empty {c : Channel LinkAnswer ProcessId} (hi : c.items = []) (hw : c.waiters = []) (p : ProcessId) :
    c.receive p = (none, { c with waiters := [p] }) := by
  obtain ⟨latency, items, waiters, sent⟩ := c
  obtain rfl : items = [] := hi
  obtain rfl : waiters = [] := hw
  rfl

private theorem receive_of_item {c : Channel LinkAnswer ProcessId} {a : LinkAnswer} (hi : c.items = [a]) (p : ProcessId) :
    c.receive p = (some a, { c with items := [] }) := by
  obtain ⟨latency, items, waiters, sent⟩ := c
  obtain rfl : items = [a] := hi
  rfl

/-- A call that both ends are turned down for: the caller's answer waits for it. -/
theorem Wired.turned (h : v.Wired) {t : PairTask} {k position : Nat} {e : LinkEnd} {c : LinkCall} {link : Link}
    {es : List LinkEffect} {a b : LinkAnswer} (hp : v.port i t.request.remote = some (l, e)) (hi : v.answers i = 0)
    (hw : (v.link l).waiting e = none) (ho : ((v.link l).waiting e.opposite).isSome)
    (hj : Link.Joins ((v.link l).await e c) link es a b) (wake : Wake) {v₁ : View n m}
    (hv₁ : v₁ = v.updateLink l (es, link)) :
    (v.sit i (.linking t k position) l e ((v.link l).await e c)).Relinked l link (LinkEffect.replies es)
      ((((v₁.setWired l ((v₁.wired l).setAnswers e (((v₁.wired l).answers e).receive (pairId i)).2)).look (pairId i)
        wake).setStage i (.linking t k position)).wakeWith (pairId i) (((v₁.wired l).answers e).receive (pairId i)).1) := by
  have hne := LinkEnd.opposite_ne e
  have hnodes : ∀ o, ((v.link l).await e c).nodeAt o = (v.link l).nodeAt o := fun o => Link.nodeAt_setSide _ _ _ _
  have hends : (v.link l).nodeAt e = i.val := (h.ends hp).1
  obtain ⟨x, hx, hxe⟩ : ∃ x ∈ LinkEffect.replies es, x.1 = e := by
    cases e with
    | left => exact ⟨_, hj.left, rfl⟩
    | right => exact ⟨_, hj.right, rfl⟩
  have hchannel : ∀ k o, (v.setLink l link).channel k o = v.channel k o := fun k o => by
    change (if k = l then _ else _ : WiredLink).answers o = _
    split
    · rename_i hk
      rw [hk]
      rfl
    · rfl
  have hlink : ∀ k, (v.setLink l link).link k = if k = l then link else v.link k := fun k => by
    change (if k = l then _ else _ : WiredLink).link = _
    split
    · rfl
    · rfl
  have hown : (v.channel l e).waiters = [] := by
    rw [h.waiters, hw]
    rfl
  obtain ⟨c', hc'⟩ := Option.isSome_iff_exists.1 ho
  have hother : (v.channel l e.opposite).waiters = [2 * (v.link l).nodeAt e.opposite] := by
    rw [h.waiters, hc']
    rfl
  have ha := answered_foldl l (LinkEffect.replies es) hj.nodup (v := v.setLink l link) fun y hy => by
    rw [hchannel]
    rcases LinkEnd.eq_or_opposite e y.1 with hy | hy
    · rw [hy, hown]
      exact Nat.zero_le 1
    · rw [hy, hother]
      exact Nat.le_refl 1
  rw [← foldl_applyLink] at ha
  change Answered _ l _ (v.updateLink l (es, link)) at ha
  rw [← hv₁] at ha
  have hfor : ∀ (j : Fin n), ∀ y ∈ LinkEffect.replies es, (v.setLink l link).answerFor? l j y =
      if y.1 ≠ e ∧ (v.link l).nodeAt y.1 = j.val then some y.2 else none := fun j y _ => by
    unfold answerFor?
    rw [hchannel]
    refine if_congr ?_ rfl rfl
    rcases LinkEnd.eq_or_opposite e y.1 with hy | hy
    · rw [hy, hown]
      simp
    · rw [hy, hother, List.cons.injEq, and_iff_left rfl, and_iff_right hne]
      exact Nat.mul_right_inj (Nat.succ_ne_zero 1)
  have hquiet : v₁.answers i = 0 := by
    refine (ha.answers i).trans ?_
    rw [List.filterMap_eq_nil_iff.2 fun y hy => by
      rw [hfor i y hy, if_neg fun hyi => hyi.1 (h.eq_end (hyi.2.trans hends.symm))]]
    exact (Multiset.add_zero _).trans hi
  have hitem : ((v₁.wired l).answers e).items = [x.2] := by
    have := ha.items x hx
    rw [hchannel, hxe, h.items, hown, if_pos rfl] at this
    exact this
  have hempty : ((v₁.wired l).answers e).waiters = [] := hxe ▸ ha.served x hx
  have hlink₁ : ∀ k, v₁.link k = if k = l then link else v.link k := fun k => (congrFun ha.link k).trans (hlink k)
  rw [receive_of_item hitem, look_of_quiet (by exact hquiet)]
  dsimp only
  generalize hv₂ : v₁.setWired l ((v₁.wired l).setAnswers e { (v₁.wired l).answers e with items := [] }) = v₂
  have hlink₂ : ∀ k, v₂.link k = if k = l then link else v.link k := fun k => by
    rw [← hv₂, link_setAnswers_wired, hlink₁]
  have hchannel₂ : ∀ k o, v₂.channel k o =
      if k = l ∧ o = e then { (v₁.wired l).answers e with items := [] } else v₁.channel k o := fun k o => by
    rw [← hv₂, channel_setAnswers]
  have hanswers₂ : ∀ j, ((v₂.setStage i (.linking t k position)).wakeWith (pairId i) (some x.2)).answers j =
      (v.answers j + (LinkEffect.replies es).filterMap ((v.setLink l link).answerFor? l j)) +
        if j = i then {x.2} else 0 := fun j => by
    have hj : v₂.answers j = v₁.answers j := by
      rw [← hv₂]
      rfl
    have hj₁ : v₁.answers j = _ := ha.answers j
    change (if pairId j = pairId i then x.2 ::ₘ v₂.answers j else v₂.answers j) = _
    rw [hj, hj₁]
    by_cases hji : j = i
    · rw [if_pos (by rw [hji]), if_pos hji, Multiset.add_comm _ {x.2}, Multiset.singleton_add]
      rfl
    · rw [if_neg fun hp => hji (pairId_inj.1 hp), if_neg hji, Multiset.add_zero]
      rfl
  have hsit : ∀ z, (v.sit i (.linking t k position) l e ((v.link l).await e c)).link z =
      if z = l then (v.link l).await e c else v.link z := fun z => link_sit ..
  have hstage : v₂.stage = v.stage := by
    rw [← hv₂]
    exact ha.stage
  refine ⟨?_, ?_, ?_, ?_, ?_, ?_, fun z => ?_, fun z o => ?_, fun z o => ?_, fun j y hy hnode => ?_, fun j hnode => ?_⟩
  · rw [← hv₂]
    exact ha.id
  · funext j
    change (if j = i then _ else v₂.stage j) = if j = i then _ else v.stage j
    rw [hstage]
  · rw [← hv₂]
    exact ha.underway
  · rw [← hv₂]
    exact ha.told
  · rw [← hv₂]
    exact ha.listeners
  · rw [← hv₂]
    exact ha.port
  · change v₂.link z = _
    rw [hlink₂, hsit]
    split
    · rfl
    · rfl
  · change (v₂.channel z o).items = []
    rw [hchannel₂]
    split
    · rfl
    · rename_i hzo
      by_cases hz : z = l
      · subst hz
        obtain ⟨y, hy, rfl⟩ : ∃ y ∈ LinkEffect.replies es, y.1 = o := by
          cases o with
          | left => exact ⟨_, hj.left, rfl⟩
          | right => exact ⟨_, hj.right, rfl⟩
        have hoe : y.1 = e.opposite := (LinkEnd.eq_or_opposite e y.1).resolve_left fun he => hzo ⟨rfl, he⟩
        refine (ha.items y hy).trans ?_
        rw [hchannel, h.items, hoe, hother]
        rfl
      · rw [ha.other z o hz, hchannel, h.items]
  · change (v₂.channel z o).waiters = ((v₂.link z).waiting o).toList.map fun _ => 2 * (v₂.link z).nodeAt o
    rw [hlink₂, hchannel₂]
    by_cases hz : z = l
    · subst hz
      obtain ⟨y, hy, rfl⟩ : ∃ y ∈ LinkEffect.replies es, y.1 = o := by
        cases o with
        | left => exact ⟨_, hj.left, rfl⟩
        | right => exact ⟨_, hj.right, rfl⟩
      rw [if_pos rfl, (hj.answered y.1 y.2 hy).2]
      split
      · exact hempty
      · exact ha.served y hy
    · rw [if_neg fun hzo => hz hzo.1, if_neg hz, ha.other z o hz, hchannel, h.waiters]
  · rw [hsit, if_pos rfl, hnodes] at hnode
    rw [hanswers₂]
    change _ = v.answers j + {y.2}
    by_cases hye : y.1 = e
    · have hyx : y = x := List.inj_on_of_nodup_map hj.nodup hy hx (hye.trans hxe.symm)
      have hji : j = i := Fin.ext (hnode.symm.trans (by rw [hye, hends]))
      rw [List.filterMap_eq_nil_iff.2 fun z hz => by
        rw [hfor j z hz, if_neg fun hzj => hzj.1 (h.eq_end (by rw [hzj.2, hji, hends]))], if_pos hji, hyx,
        Multiset.coe_nil, Multiset.add_zero]
    · have hji : j ≠ i := fun hji => hye (h.eq_end (by rw [hnode, hji, hends]))
      rw [if_neg hji, Multiset.add_zero,
        filterMap_singleton hj.nodup hy ((hfor j y hy).trans (if_pos ⟨hye, hnode⟩)) fun z hz hzy => ?_]
      · rfl
      · rw [hfor j z hz, if_neg fun hzj => hzy (h.eq_end (hzj.2.trans hnode.symm))]
  · rw [hanswers₂]
    have hji : j ≠ i := fun hji => hnode x hx (by rw [hsit, if_pos rfl, hnodes, hxe, hji, hends])
    rw [if_neg hji, Multiset.add_zero, List.filterMap_eq_nil_iff.2 fun z hz => by
      rw [hfor j z hz, if_neg fun hzj => hnode z hz (by rw [hsit, if_pos rfl, hnodes, hzj.2])]]
    exact Multiset.add_zero _

/-- A pair service that asks a link is turned away, waits, or is turned down together with the other end. -/
theorem Wired.calls (h : v.Wired) {t : PairTask} {k position : Nat} {e : LinkEnd} {c : LinkCall} {wake : Wake}
    {answer : Option LinkAnswer} (hi : ∀ t k position, v.stage i ≠ .linking t k position)
    (hp : v.port i t.request.remote = some (l, e)) (hr : c.role = t.request.role)
    (hc : c.role = .create → c.request = t.wanted) (ha : v.Asked (pairId i) l e c answer v') :
    v.Calls i t k l e
      (((v'.look (pairId i) wake).setStage i (.linking t k position)).wakeWith (pairId i) answer) := by
  have hquiet := h.quiet i hi
  cases ha with
  | @refused q a link hreq =>
    obtain ⟨-, hf, rfl, hl⟩ := Link.request_cases (h.matched l) hreq
    rw [look_of_quiet (v := v.setLink l link) hquiet]
    exact .refused hf hl
  | @accepted q q' effects link hreq v' hv' =>
    obtain ⟨hw, hf, hacc⟩ := Link.request_cases (h.matched l) hreq
    cases hacc with
    | waits hes hn hlw hlf hm =>
      have hv : v' = v.setLink l link := by
        rw [hv', updateLink, foldl_applyLink, hes]
        rfl
      have hchannel : (v'.wired l).answers e = v.channel l e := by
        rw [hv]
        change (if l = l then _ else _ : WiredLink).answers e = _
        rw [if_pos rfl]
        rfl
      rw [hchannel, receive_of_empty (h.items l e) (by rw [h.waiters, hw]; rfl), look_of_quiet (by rw [hv]; exact hquiet)]
      have hsit : ((v'.setWired l ((v'.wired l).setAnswers e { v.channel l e with waiters := [pairId i] })).setStage i
          (.linking t k position)) = v.sit i (.linking t k position) l e link := by
        rw [hv]
        ext1
        iterate 6 rfl
        · funext k
          change (if k = l then _ else if k = l then _ else _ : WiredLink) = if k = l then _ else _
          split
          · have hwired : (v.setLink l link).wired l = { v.wired l with link := link } := if_pos rfl
            rw [hwired]
            cases e with
            | left => rfl
            | right => rfl
          · rfl
        · rfl
      exact hsit ▸ .waits hf hr hc hn hlw hlf hm
    | turned ho hj => exact .turned hf hr hc ho hj (h.turned hp hquiet hw ho hj wake hv')

end View

end QuantumNode
