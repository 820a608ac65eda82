import QuantumNode.Proofs.Handshake.Wiring
import QuantumNode.Proofs.Network.Port

/-! Every step of a network keeps pair services and links wired as they are. -/
namespace QuantumNode

open Work Working

variable {n m : Nat}

namespace View

variable {v v' : View n m} {l : Fin m} {i : Fin n}

theorem Wired.refused (h : v.Wired) {t : PairTask} {k position : Nat} {e : LinkEnd} {a : LinkAnswer} {link : Link}
    (hi : ∀ t k position, v.stage i ≠ .linking t k position) (hp : v.port i t.request.remote = some (l, e))
    (hk : (k : Int) < t.count) (hl : link = (v.link l).setSide e { (v.link l).side e with abortPending := false }) :
    (((v.setLink l link).setStage i (.linking t k position)).wake (pairId i) a).Wired := by
  have hlink : ∀ x, (((v.setLink l link).setStage i (.linking t k position)).wake (pairId i) a).link x =
      if x = l then link else v.link x := fun x => by
    change (if x = l then _ else _ : WiredLink).link = _
    split
    · rfl
    · rfl
  have hchannel : ∀ x o, (((v.setLink l link).setStage i (.linking t k position)).wake (pairId i) a).channel x o =
      v.channel x o := fun x o => by
    change (if x = l then _ else _ : WiredLink).answers o = _
    split
    · rename_i hx
      rw [hx]
      rfl
    · rfl
  have hstage : ∀ j, (((v.setLink l link).setStage i (.linking t k position)).wake (pairId i) a).stage j =
      if j = i then .linking t k position else v.stage j := fun _ => rfl
  have hanswers : ∀ j, (((v.setLink l link).setStage i (.linking t k position)).wake (pairId i) a).answers j =
      if j = i then {a} else v.answers j := fun j => by
    change (if pairId j = pairId i then a ::ₘ v.answers j else v.answers j) = _
    refine ite_congr (propext pairId_inj) (fun hj => ?_) fun _ => rfl
    rw [hj, h.quiet i hi]
    rfl
  have hnode : ∀ o, link.nodeAt o = (v.link l).nodeAt o := fun o => by rw [hl, Link.nodeAt_setSide]
  have hwaiting : ∀ o, link.waiting o = (v.link l).waiting o := fun o => by
    rw [hl, Link.waiting_flag]
  have hflagged : ∀ o, link.flagged o = true → (v.link l).flagged o = true := fun o ho => by
    rw [hl, Link.flagged_flag] at ho
    split at ho
    · exact nomatch ho
    · exact ho
  have hwaits : ∀ x o, (if x = l then link else v.link x).waiting o = (v.link x).waiting o := fun x o => by
    split
    · rename_i hx
      rw [hx, hwaiting]
    · rfl
  have hnodes : ∀ x o, (if x = l then link else v.link x).nodeAt o = (v.link x).nodeAt o := fun x o => by
    split
    · rename_i hx
      rw [hx, hnode]
    · rfl
  refine ⟨h.id, h.listeners, h.shared, fun hp => ?_, fun x o => ?_, fun x o => ?_, fun x o => ?_, fun {x o c'} hx => ?_,
    fun {j t' k' position'} hj => ?_, fun j hj => ?_, fun x o ho => ?_, fun x => ?_, fun j => ?_⟩
  · rw [hlink, hnodes]
    exact h.ends hp
  · rw [hlink, hnodes, hnodes]
    exact h.apart x o
  · rw [hchannel]
    exact h.items x o
  · rw [hlink, hchannel, hwaits, hnodes]
    exact h.waiters x o
  · rw [hlink, hwaits] at hx
    obtain ⟨j, hs⟩ := h.seated hx
    obtain ⟨t', k', position', hj, hrest⟩ := hs.stage
    have hji : j ≠ i := fun hji => hi t' k' position' (hji ▸ hj)
    exact ⟨j, ⟨t', k', position', by rw [hstage, if_neg hji, hj], hrest⟩, by rw [hanswers, if_neg hji, hs.answers]⟩
  · rw [hstage] at hj
    rw [hanswers]
    split at hj
    · rename_i hji
      subst hji
      cases hj
      exact ⟨l, e, hp, fun _ => ⟨a, if_pos rfl⟩⟩
    · rename_i hji
      obtain ⟨l', e', hp', ha⟩ := h.linking hj
      rw [if_neg hji]
      exact ⟨l', e', hp', fun hnone => ha (by rwa [hlink, hwaits] at hnone)⟩
  · rw [hstage] at hj
    rw [hanswers]
    split at hj
    · exact absurd rfl (hj t k position)
    · rename_i hji
      rw [if_neg hji, h.quiet j hj]
  · rw [hlink] at ho ⊢
    rw [hwaits]
    refine h.flags x o ?_
    split at ho
    · rename_i hx
      rw [hx]
      exact hflagged o ho
    · exact ho
  · rw [hlink]
    split
    · intro hg
      have hg' : (v.link l).generating = true := by
        rw [hl, Link.generating_setSide] at hg
        exact hg
      obtain ⟨x, y, hx, hy, hne⟩ := h.matched l hg'
      exact ⟨x, y, (hwaiting _).trans hx, (hwaiting _).trans hy, hne⟩
    · exact h.matched x
  · rw [hstage]
    split
    · exact hk
    · exact h.sound j

/-! What an exchange leaves as it is. -/

section

variable (v : View n m) (i : Fin n) (took told : Option (Fin n × PeerMessage))

theorem id_exchange : (v.exchange i took told).id = v.id := by
  cases took with
  | _ => cases told with
    | _ => rfl

theorem stage_exchange : (v.exchange i took told).stage = v.stage := by
  cases took with
  | _ => cases told with
    | _ => rfl

theorem answers_exchange : (v.exchange i took told).answers = v.answers := by
  cases took with
  | _ => cases told with
    | _ => rfl

theorem listeners_exchange : (v.exchange i took told).listeners = v.listeners := by
  cases took with
  | _ => cases told with
    | _ => rfl

theorem wired_exchange : (v.exchange i took told).wired = v.wired := by
  cases took with
  | _ => cases told with
    | _ => rfl

theorem port_exchange : (v.exchange i took told).port = v.port := by
  cases took with
  | _ => cases told with
    | _ => rfl

end

/-- A deed that asks no link. -/
def after (v : View n m) (i : Fin n) (wake : Wake) (took told : Option (Fin n × PeerMessage)) (stage : PairStage) :
    View n m :=
  ((v.exchange i took told).look (pairId i) wake).setStage i stage

section

variable (v : View n m) (i : Fin n) (wake : Wake) (took told : Option (Fin n × PeerMessage)) (stage : PairStage)

theorem id_after : (v.after i wake took told stage).id = v.id := by
  rw [← id_exchange v i took told]
  cases wake with
  | _ => rfl

theorem stage_after (j : Fin n) : (v.after i wake took told stage).stage j = if j = i then stage else v.stage j := by
  rw [← stage_exchange v i took told]
  cases wake with
  | _ => rfl

theorem underway_after : (v.after i wake took told stage).underway = (v.exchange i took told).underway := by
  cases wake with
  | _ => rfl

theorem told_after : (v.after i wake took told stage).told = (v.exchange i took told).told := by
  cases wake with
  | _ => rfl

theorem listeners_after : (v.after i wake took told stage).listeners = v.listeners := by
  rw [← listeners_exchange v i took told]
  cases wake with
  | _ => rfl

theorem wired_after : (v.after i wake took told stage).wired = v.wired := by
  rw [← wired_exchange v i took told]
  cases wake with
  | _ => rfl

theorem port_after : (v.after i wake took told stage).port = v.port := by
  rw [← port_exchange v i took told]
  cases wake with
  | _ => rfl

theorem answers_after_of_ne {j : Fin n} (hj : j ≠ i) : (v.after i wake took told stage).answers j = v.answers j := by
  rw [← answers_exchange v i took told]
  cases wake with
  | answer a => exact if_neg fun hp => hj (pairId_inj.1 hp)
  | _ => rfl

theorem answers_after_of_answer (a : LinkAnswer) :
    (v.after i (.answer a) took told stage).answers i = (v.answers i).erase a := by
  rw [← answers_exchange v i took told]
  exact if_pos rfl

end

theorem Wired.answer_of_linking (h : v.Wired) {t : PairTask} {k position : Nat} (hs : v.stage i = .linking t k position)
    {a : LinkAnswer} (ha : a ∈ v.answers i) : v.answers i = {a} ∧ ∃ l e, v.port i t.request.remote = some (l, e) ∧
      (v.link l).waiting e = none := by
  obtain ⟨l, e, hp, hnone⟩ := h.linking hs
  cases hw : (v.link l).waiting e with
  | some c =>
    obtain ⟨j, hseat⟩ := h.seated hw
    have hji : j = i := Fin.ext ((hseat.nodeAt h).symm.trans (h.ends hp).1)
    subst hji
    rw [hseat.answers] at ha
    exact absurd ha (Multiset.notMem_zero a)
  | none =>
    obtain ⟨b, hb⟩ := hnone hw
    rw [hb] at ha ⊢
    rw [Multiset.mem_singleton.1 ha]
    exact ⟨rfl, l, e, hp, hw⟩

/-- After a deed that asks no link a pair service that does not wait for one is owed no answer. -/
theorem Wired.answers_after (h : v.Wired) {wake : Wake} {took told : Option (Fin n × PeerMessage)} {stage : PairStage}
    (hw : ∀ a, wake = .answer a → a ∈ v.answers i)
    (hl : ∀ t k position, v.stage i = .linking t k position → ∃ a, wake = .answer a) :
    (v.after i wake took told stage).answers i = 0 := by
  by_cases hs : ∃ t k position, v.stage i = .linking t k position
  · obtain ⟨t, k, position, hs⟩ := hs
    obtain ⟨a, rfl⟩ := hl t k position hs
    rw [answers_after_of_answer, (h.answer_of_linking hs (hw a rfl)).1, Multiset.erase_singleton]
  · have hquiet := h.quiet i fun t k position hst => hs ⟨t, k, position, hst⟩
    cases wake with
    | answer a => rw [answers_after_of_answer, hquiet, Multiset.erase_zero a]
    | _ =>
      refine Eq.trans ?_ hquiet
      rw [← answers_exchange v i took told]
      rfl

theorem Wired.after (h : v.Wired) {wake : Wake} {took told : Option (Fin n × PeerMessage)} {stage : PairStage}
    (hw : ∀ a, wake = .answer a → a ∈ v.answers i)
    (hl : ∀ t k position, v.stage i = .linking t k position → ∃ a, wake = .answer a)
    (hn : ∀ t k position, stage ≠ .linking t k position) (hs : stage.Sound) :
    (v.after i wake took told stage).Wired := by
  have hlink : (v.after i wake took told stage).link = v.link := by
    unfold link
    rw [wired_after]
  have hchannel : (v.after i wake took told stage).channel = v.channel := by
    unfold channel
    rw [wired_after]
  refine ⟨fun j => by rw [id_after, h.id], by rw [Network.Open, listeners_after]; exact h.listeners, fun hp => ?_,
    fun hp => ?_, by rw [hlink]; exact h.apart, by rw [hchannel]; exact h.items, by rw [hlink, hchannel]; exact h.waiters,
    fun {x o c} hx => ?_, fun {j t k position} hj => ?_, fun j hj => ?_, by rw [hlink]; exact h.flags,
    by rw [hlink]; exact h.matched, fun j => ?_⟩
  · rw [port_after] at hp ⊢
    exact h.shared hp
  · rw [port_after] at hp
    rw [hlink]
    exact h.ends hp
  · rw [hlink] at hx
    obtain ⟨j, hseat⟩ := h.seated hx
    obtain ⟨t, k, position, hj, hrest⟩ := hseat.stage
    -- A pair service that is seated is not answered yet, and cannot go on.
    have hji : j ≠ i := fun hji => by
      subst hji
      obtain ⟨a, rfl⟩ := hl t k position hj
      have ha := hw a rfl
      rw [hseat.answers] at ha
      exact Multiset.notMem_zero a ha
    exact ⟨j, ⟨t, k, position, by rw [stage_after, if_neg hji, hj], by rw [port_after]; exact hrest⟩, by
      rw [answers_after_of_ne v i wake took told stage hji, hseat.answers]⟩
  · rw [stage_after] at hj
    split at hj
    · exact absurd hj (hn t k position)
    · rename_i hji
      rw [port_after, hlink, answers_after_of_ne v i wake took told stage hji]
      exact h.linking hj
  · rw [stage_after] at hj
    by_cases hji : j = i
    · subst hji
      exact h.answers_after hw hl
    · rw [if_neg hji] at hj
      rw [answers_after_of_ne v i wake took told stage hji]
      exact h.quiet j hj
  · rw [stage_after]
    split
    · exact hs
    · exact h.sound j

/-- What a step comes to where everything is wired. -/
inductive Changes (does : Doings n m) (v : View n m) : View n m → Prop where
  | still (hq : does.Silent) : Changes does v v
  | deed {i : Fin n} {wake : Wake} {took told : Option (Fin n × PeerMessage)} {flow : Pairing.Step m}
      {recorded : PairTask → Nat → Pair → Prop} (hx : does.Only i wake took told flow)
      (hw : ∀ a, wake = .answer a → a ∈ v.answers i) (ht : ∀ j message, took = some (j, message) → message ∈ v.underway j i)
      (hd : Pairing.Deed i (v.port i) recorded (v.stage i) wake took told flow) (hf : flow.asks = false)
      (hl : ∀ t k position, v.stage i = .linking t k position → ∃ a, wake = .answer a)
      (hn : ∀ t k position, flow.stage ≠ .linking t k position) :
      Changes does v (v.after i wake took told flow.stage)
  | call {i : Fin n} {t : PairTask} {k : Nat} {l : Fin m} {e : LinkEnd} {v' : View n m} (hq : does.Silent)
      (hs : Pairing.Asks t k (v.stage i)) (hk : (k : Int) < t.count) (hp : v.port i t.request.remote = some (l, e))
      (hw : (v.link l).waiting e = none) (hc : v.Calls i t k l e v') : Changes does v v'
  | abort {i : Fin n} {remote : Int} {l : Fin m} {e : LinkEnd} {link : Link} {es : List LinkEffect} {v' : View n m}
      (hq : does.Silent) (hp : v.port i remote = some (l, e)) (ha : Link.Aborts (v.link l) link e es)
      (hv : v.Relinked l link (LinkEffect.replies es) v') : Changes does v v'
  | join {l : Fin m} {link : Link} {es : List LinkEffect} {first second : LinkAnswer} {v' : View n m}
      (hq : does.Silent) (hj : Link.Joins (v.link l) link es first second) (hv : v.Relinked l link (LinkEffect.replies es) v') :
      Changes does v v'

theorem asks_ne_linking {t : PairTask} {k : Nat} {stage : PairStage} (h : Pairing.Asks t k stage) (t' : PairTask)
    (k' position : Nat) : stage ≠ .linking t' k' position := by
  cases h with
  | next h => exact fun hs => nomatch hs
  | starving => exact fun hs => nomatch hs

theorem Wired.changes (h : v.Wired) {does : Doings n m} (hs : v.Steps does v') : v.Changes does v' := by
  cases hs with
  | still hq => exact .still hq
  | @deed i wake took told flow recorded hx hw ht hd hf =>
    rcases hd.linking hf with ⟨t, k, position, hst, rfl, rfl, rfl, hwake⟩ | ⟨hn, hl⟩
    · have hv : ((v.exchange i none none).look (pairId i) wake).setStage i (v.stage i) = v := by
        have hlook : (v.exchange i none none).look (pairId i) wake = v := by
          cases wake with
          | answer a => exact absurd rfl (hwake a)
          | _ => rfl
        rw [hlook]
        ext1
        · rfl
        · funext j
          change (if j = i then v.stage i else v.stage j) = v.stage j
          split
          · rename_i hji
            rw [hji]
          · rfl
        iterate 6 rfl
      rw [show (Flow.rest (v.stage i) : Pairing.Step m).stage = v.stage i from rfl, hv]
      exact .still hx.silent
    · exact .deed hx hw ht hd hf hl hn
  | @ask i wake took told stage l e c recorded answer v₁ hx hw hd ha =>
    generalize hst : v.stage i = before at hd
    cases hd with
    | @ask _ _ t k position _ _ _ hs hl hr hc =>
      rw [← hst] at hs
      refine .call hx.silent hs (hs.sound (h.sound i)) hl ?_ (h.calls (asks_ne_linking hs) hl hr hc ha)
      cases ha with
      | refused hreq => exact (Link.request_cases (h.matched l) hreq).1
      | accepted hreq hv => exact (Link.request_cases (h.matched l) hreq).1
  | @abort i remote l e hq hp =>
    have ha := Link.abort_aborts (v.link l) e
    exact .abort hq hp ha (h.relinked ha.toReplies)
  | fire hq l event q =>
    rcases Link.fire_cases (h.matched l) event q with ⟨hes, hl⟩ | ⟨-, first, second, hj⟩
    · have hv : v.updateLink l ((v.link l).fire event q).1 = v := by
        rw [updateLink, foldl_applyLink, hes, hl]
        ext1
        iterate 6 rfl
        · funext k
          refine ite_eq_right_iff.2 fun hk => ?_
          rw [hk]
          rfl
        · rfl
      rw [hv]
      exact .still hq
    · exact .join hq hj (h.relinked hj.toReplies)

theorem Wired.await (h : v.Wired) {t : PairTask} {k : Nat} (position : Nat) {e : LinkEnd} {c : LinkCall}
    (hp : v.port i t.request.remote = some (l, e)) (hi : ∀ t k position, v.stage i ≠ .linking t k position)
    (hk : (k : Int) < t.count) (hw : (v.link l).waiting e = none) (hf : (v.link l).flagged e = false)
    (hr : c.role = t.request.role) (hc : c.role = .create → c.request = t.wanted) :
    (v.sit i (.linking t k position) l e ((v.link l).await e c)).Wired := by
  refine h.sit hp hi hk hw hf hr hc (fun o => Link.nodeAt_setSide _ _ o _) (fun _ => rfl)
    (fun o => Link.flagged_await _ _ o _) fun hg => ?_
  exact nomatch ((Link.generating_setSide _ _ _).trans ((h.matched l).idle hw)).symm.trans hg

theorem Relinked.wired_of_joins (h : v.Wired) {link link₀ : Link} {es : List LinkEffect} {first second : LinkAnswer}
    (hj : Link.Joins link₀ link es first second) (hl : v.link l = link₀)
    (hv : v.Relinked l link (LinkEffect.replies es) v') : v'.Wired := by
  subst hl
  refine hv.wired h hj.toReplies (fun o _ => hj.ended o) fun hg => ?_
  rw [hj.idle] at hg
  exact nomatch hg

theorem Changes.wired {does : Doings n m} (hc : v.Changes does v') (h : v.Wired) : v'.Wired := by
  cases hc with
  | still hq => exact h
  | deed hx hw ht hd hf hl hn => exact h.after hw hl hn (hd.sound (h.sound _))
  | call hq hs hk hp hw hcall =>
    have hi := asks_ne_linking hs
    cases hcall with
    | refused hf hl => exact h.refused hi hp hk hl
    | waits hf hr hc hn hlw hlf hm => exact h.sit hp hi hk hw hf hr hc hn hlw hlf hm
    | turned hf hr hc ho hj hv =>
      exact Relinked.wired_of_joins (h.await _ hp hi hk hw hf hr hc) hj ((link_sit ..).trans (if_pos rfl)) hv
  | abort hq hp ha hv =>
    refine hv.wired h ha.toReplies (fun o _ => ha.ended o) fun hg => ?_
    rw [ha.idle] at hg
    exact nomatch hg
  | join hq hj hv => exact hv.wired_of_joins h hj rfl

end View

namespace Network

/-- A network that has just been built is wired. -/
theorem Built.wired {s : Network n m} (h : s.Built) : s.view.Wired := by
  have hapart : ∀ l, (s.links.get l).link.leftNode ≠ (s.links.get l).link.rightNode := fun l => by
    obtain ⟨config, a, b, hw, hab, -⟩ := h.links l
    change (s.wired l).link.leftNode ≠ (s.wired l).link.rightNode
    rw [hw]
    exact hab
  have hlt : ∀ l e, (s.link l).nodeAt e < n := fun l e => by
    obtain ⟨config, a, b, hw, -, ha, hb⟩ := h.links l
    change (s.wired l).link.nodeAt e < n
    rw [hw]
    cases e with
    | left => exact ha
    | right => exact hb
  have hport : ∀ i r, s.view.port i r = (portsOf s.links i.val).links.get? r := fun i r => by
    change (s.node i).ports.links.get? r = _
    rw [h.ports]
  have hfree : ∀ l e, (s.link l).waiting e = none ∧ (s.link l).flagged e = false := fun l e => by
    obtain ⟨config, a, b, hw, -⟩ := h.links l
    change (s.wired l).link.waiting e = none ∧ (s.wired l).link.flagged e = false
    rw [hw]
    cases e with
    | left => exact ⟨rfl, rfl⟩
    | right => exact ⟨rfl, rfl⟩
  have hchannel : ∀ l e, s.view.channel l e = .new 0 := fun l e => by
    obtain ⟨config, a, b, hw, -⟩ := h.links l
    change (s.wired l).answers e = _
    rw [hw]
    cases e with
    | left => rfl
    | right => rfl
  have hne : ∀ l e, (s.link l).nodeAt e.opposite ≠ (s.link l).nodeAt e := fun l e => by
    cases e with
    | left => exact (hapart l).symm
    | right => exact hapart l
  refine ⟨h.id, fun x y => ?_, fun hp => ?_, fun {i r l e} hp => ?_, hne, fun l e => ?_, fun l e => ?_, fun {l e c} hc => ?_,
    fun {i t k position} hs => ?_, fun i _ => ?_, fun l e he => ?_, fun l hg => ?_, fun i => ?_⟩
  · change ((s.node y).service.inbound.get x).waiters = []
    obtain ⟨latencies, hs⟩ := h.service y
    rw [hs]
    change ((latencies.map Channel.new).get x).waiters = []
    rw [show (latencies.map Channel.new).get x = Channel.new (latencies.get x) from Vector.getElem_map ..]
    rfl
  · rw [hport] at hp ⊢
    exact portsOf_shared hapart hp
  · rw [hport] at hp
    obtain ⟨hi, rfl⟩ := portsOf_ends hapart i.val hp
    refine ⟨hi, ⟨(s.link l).nodeAt e.opposite, hlt l _⟩, Pairing.peer?_eq_some.2 ⟨rfl, fun hj => ?_⟩⟩
    exact hne l e ((congrArg Fin.val hj).trans hi.symm)
  · rw [hchannel]
    rfl
  · change _ = ((s.link l).waiting e).toList.map _
    rw [hchannel, (hfree l e).1]
    rfl
  · exact nomatch (hfree l e).1.symm.trans hc
  · exact nomatch (h.pairStage i).symm.trans hs
  · change s.answers i = 0
    unfold answers
    rw [h.ahead]
    rfl
  · exact nomatch (hfree l e).2.symm.trans he
  · obtain ⟨config, a, b, hw, -⟩ := h.links l
    change (s.wired l).link.generating = true at hg
    rw [hw] at hg
    exact nomatch hg
  · change (s.pairStage i).Sound
    rw [h.pairStage]
    trivial

section

variable {c : NetworkConfig} {may : ClientAct c.nodes.length → Prop} {s s' : Network c.nodes.length c.links.length}

/-- Along every run everything is wired. -/
theorem Trace.wired {past : List (Moment c.nodes.length c.links.length)} (h : Trace c may past s) : s.view.Wired := by
  induction h with
  | built h => exact (built_of_build h).wired
  | move h hm ih => exact (ih.changes (hm.steps h.crewed ih.regular)).wired ih
  | act h a ha hc hr ih => exact (ih.changes (act_steps hc hr ih.regular)).wired ih

end

end Network

end QuantumNode
