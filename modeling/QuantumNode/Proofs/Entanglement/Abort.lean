import QuantumNode.Proofs.Entanglement.Usage

/-! Which calls at a link are given up. An end that gives up ends the calls that wait. If it waits alone, the other end is
told when it calls next, however much later that is and whatever the call is for. -/
namespace QuantumNode

namespace LinkMoment

/-- Whether an end gives up. -/
def isAbort (x : LinkMoment) : Bool :=
  match x.act with
  | .abort _ => true
  | _ => false

/-- Whether the other end gives up a call that waits alone. -/
def spurns (e : LinkEnd) (x : LinkMoment) : Bool :=
  match x.act with
  | .abort o => o = e.opposite && !(x.answersTo o).isEmpty && (x.answersTo e).isEmpty
  | _ => false

/-- An end that is spurned is not told so at once. -/
theorem of_spurns {x : LinkMoment} {e : LinkEnd} (h : x.spurns e = true) : x.isAbort = true ∧ x.answersTo e = [] := by
  unfold spurns at h
  unfold isAbort
  split at h
  · exact ⟨rfl, List.isEmpty_iff.1 (Bool.and_eq_true_iff.1 h).2⟩
  · exact nomatch h

end LinkMoment

namespace Link

variable {past before : List LinkMoment} {due : List LinkEvent} {l l' : Link} {e o : LinkEnd} {x : LinkMoment}

/-- Whether the other end has given up a call that waited alone, and an end has not called since. -/
def owes (e : LinkEnd) : List LinkMoment → Bool
  | [] => false
  | x :: past => x.spurns e || !x.isCall e && owes e past

/-- How often somebody has given up. -/
def aborts (past : List LinkMoment) : Nat := past.countP (·.isAbort)

/-- How many calls of an end have been answered as given up. -/
def givenUp (past : List LinkMoment) (e : LinkEnd) : Nat := (answers past e).countP (·.isAborted)

theorem aborts_cons (x : LinkMoment) (past : List LinkMoment) : aborts (x :: past) = aborts past + x.isAbort.toNat := by
  unfold aborts
  rw [List.countP_cons]
  cases x.isAbort with
  | false => rfl
  | true => rfl

theorem givenUp_cons (x : LinkMoment) (past : List LinkMoment) (e : LinkEnd) :
    givenUp (x :: past) e = (x.answersTo e).countP (·.isAborted) + givenUp past e := by
  unfold givenUp
  rw [answers_cons, List.countP_append]

theorem mem_answersTo {a : LinkAnswer} : a ∈ x.answersTo e ↔ (e, a) ∈ x.replies := by
  unfold LinkMoment.answersTo
  simp

/-- An end that gives up answers whoever waits, once. -/
theorem Aborts.length_answersTo {es : List LinkEffect} (h : Aborts l l' o es) (hx : x.replies = LinkEffect.replies es)
    (e : LinkEnd) : (x.answersTo e).length = (l.waiting e).toList.length := by
  have hlength := h.toReplies.length_answersTo hx e
  rwa [h.ended e, Option.toList_none, List.length_nil, Nat.add_zero] at hlength

/-- An end that gives up flags the other one exactly if it spurns it. -/
theorem Aborts.flagged_eq {es : List LinkEffect} (h : Aborts l l' o es) (hm : l.Matched) (e : LinkEnd) :
    l'.flagged e = ((⟨.abort o, LinkEffect.replies es, []⟩ : LinkMoment).spurns e || l.flagged e) := by
  have hempty : ∀ o', ((⟨.abort o, LinkEffect.replies es, []⟩ : LinkMoment).answersTo o').isEmpty =
      (l.waiting o').isNone := fun o' => by
    have hlength := h.length_answersTo (x := ⟨.abort o, LinkEffect.replies es, []⟩) rfl o'
    cases hw : l.waiting o' with
    | none =>
      rw [hw] at hlength
      rw [List.eq_nil_of_length_eq_zero hlength]
      rfl
    | some c =>
      rw [hw] at hlength
      obtain ⟨a, ha⟩ := List.length_eq_one_iff.1 hlength
      rw [ha]
      rfl
  unfold LinkMoment.spurns
  dsimp only
  rw [hempty, hempty]
  rcases LinkEnd.eq_or_opposite o e with rfl | rfl
  · rw [h.own, decide_eq_false (LinkEnd.opposite_ne e).symm]
    rfl
  · rw [h.other, LinkEnd.opposite_opposite, decide_eq_true rfl]
    -- Nothing is made while the other end does not wait.
    cases hw : l.waiting o.opposite with
    | none =>
      rw [hm.idle hw]
      cases l.waiting o with
      | none => simp
      | some c => simp
    | some c => simp

/-- What a moment of a history tells an end about its calls: somebody gives up just then, or a call is answered at once as
given up because the end has been spurned before, or no call is given up. -/
inductive Tells (e : LinkEnd) (x : LinkMoment) (before : List LinkMoment) : Prop where
  | now (ha : x.isAbort = true) (hone : (x.answersTo e).length ≤ 1) (hall : ∀ a ∈ x.answersTo e, a.isAborted = true)
  | late (kind : PairKind) (hc : x.isCall e = true) (ho : owes e before = true)
      (ha : x.answersTo e = [.refused .aborted kind])
  | never (ha : x.isAbort = false) (hc : x.isCall e = true → owes e before = false)
      (hall : ∀ a ∈ x.answersTo e, a.isAborted = false)

section

variable {config : LinkConfig} {a b : Nat}

theorem Usage.flagged_eq (h : Usage (.new config a b) past due l) (e : LinkEnd) :
    l.flagged e = owes e past := by
  induction h with
  | new =>
    cases e with
    | left => rfl
    | right => rfl
  | @refused past due l l' o c q r h hc hr ih =>
    obtain ⟨-, -, -, rfl⟩ := request_cases h.sound.matched hr
    change _ = (!decide (o = e) && owes e past)
    rw [flagged_flag, ih]
    by_cases ho : e = o
    · simp [ho]
    · simp [ho, Ne.symm ho]
  | @accepted past due l l' o c q q' es h hc hr ih =>
    obtain ⟨-, hf, ha⟩ := request_cases h.sound.matched hr
    change _ = (!decide (o = e) && owes e past)
    have hsame : l'.flagged e = l.flagged e := by
      cases ha with
      | waits hes hn hw hf' hm => exact hf' e
      | turned hw hj => rw [hj.flagged, flagged_await]
    rw [hsame, ← ih]
    by_cases ho : o = e
    · rw [← ho, hf]
      simp
    · simp [ho]
  | @abort past due l h o ih =>
    rw [(l.abort_aborts o).flagged_eq h.sound.matched, ih]
    rfl
  | @fire past due l event h hd q ih =>
    change _ = owes e past
    rcases fire_cases h.sound.matched event q with ⟨-, hsame⟩ | ⟨-, _, _, hj⟩
    · rw [hsame, ih]
    · rw [hj.flagged, ih]

theorem Usage.tells (h : Usage (.new config a b) (x :: before) due l) (e : LinkEnd) :
    Tells e x before := by
  cases h with
  | @refused _ due l l' o c q r h hc hr =>
    obtain ⟨-, hf, rfl, -⟩ := request_cases h.sound.matched hr
    by_cases ho : o = e
    · subst ho
      refine .late c.request.kind (decide_eq_true rfl) (h.flagged_eq o ▸ hf) ?_
      simp [LinkMoment.answersTo]
    · refine .never rfl (fun hcall => absurd (of_decide_eq_true hcall) ho) fun r hr => ?_
      rw [mem_answersTo, List.mem_singleton] at hr
      exact absurd (congrArg Prod.fst hr).symm ho
  | @accepted _ due l l' o c q q' es h hc hr =>
    obtain ⟨-, hf, ha⟩ := request_cases h.sound.matched hr
    refine .never rfl (fun hcall => ?_) fun r hr => ?_
    · obtain rfl : o = e := of_decide_eq_true hcall
      rw [← h.flagged_eq, hf]
    · rw [mem_answersTo] at hr
      cases ha with
      | waits hes hn hw hf' hm =>
        rw [hes] at hr
        cases hr
      | turned hw hj =>
        rcases hj.eq_of_mem hr with heq | heq
        · cases heq
          rfl
        · cases heq
          rfl
  | @abort _ due l h o =>
    have ha := l.abort_aborts o
    refine .now rfl ?_ fun r hr => ?_
    · rw [ha.length_answersTo rfl]
      exact Option.length_toList_le
    · rw [mem_answersTo] at hr
      rw [ha.aborted e r hr]
      rfl
  | @fire _ due l event h hd q =>
    refine .never rfl (fun h => by cases h) fun r hr => ?_
    rw [mem_answersTo] at hr
    rcases fire_cases h.sound.matched event q with ⟨hnone, -⟩ | ⟨-, _, _, hj⟩
    · rw [hnone] at hr
      cases hr
    · rcases hj.eq_of_mem hr with heq | heq
      · cases heq
        exact hj.settled.1
      · cases heq
        exact hj.settled.2

theorem owes_cons_of_not_spurns (h : x.spurns e = false) : owes e (x :: past) = (!x.isCall e && owes e past) := by
  change (x.spurns e || _) = _
  rw [h, Bool.false_or]

/-- Each call of an end that is given up, and each that is still to be, goes back to somebody who gives up. -/
theorem Tells.countP_le (h : Tells e x before) : (x.answersTo e).countP (·.isAborted) + (owes e (x :: before)).toNat ≤
    (owes e before).toNat + x.isAbort.toNat := by
  cases hs : x.spurns e with
  | true =>
    obtain ⟨ha, hnil⟩ := LinkMoment.of_spurns hs
    rw [ha, hnil]
    exact Nat.le_trans (Nat.le_of_eq (Nat.zero_add _)) (Nat.le_trans (Bool.toNat_le _) (Nat.le_add_left ..))
  | false =>
    rw [owes_cons_of_not_spurns hs]
    have howes : (!x.isCall e && owes e before).toNat ≤ (owes e before).toNat := by
      cases x.isCall e with
      | false => exact Nat.le_refl _
      | true => exact Nat.zero_le _
    cases h with
    | now ha hone hall =>
      have hcount : (x.answersTo e).countP (·.isAborted) ≤ 1 := Nat.le_trans List.countP_le_length hone
      rw [ha, Nat.add_comm]
      exact Nat.add_le_add howes hcount
    | late kind hc ho ha =>
      rw [ha, hc, ho]
      exact Nat.le_add_right ..
    | never ha hc hall =>
      have hcount : (x.answersTo e).countP (·.isAborted) = 0 := List.countP_eq_zero.2 fun a hmem => by simp [hall a hmem]
      rw [hcount, Nat.zero_add]
      exact Nat.le_trans howes (Nat.le_add_right ..)

theorem Usage.givenUp_le (h : Usage (.new config a b) past due l) (e : LinkEnd) :
    givenUp past e + (owes e past).toNat ≤ aborts past := by
  induction past generalizing due l with
  | nil => exact Nat.le_refl 0
  | cons x before ih =>
    obtain ⟨due', l', hbefore⟩ := h.of_suffix (List.suffix_cons x before)
    have hx := (h.tells e).countP_le
    have hle := ih hbefore
    rw [givenUp_cons, aborts_cons]
    omega

/-- Along every history of a link, whoever gives up ends one call of each end at most: the one that waits or, if only its
own call waits, the next one of the other end, whatever that is for. An end is flagged exactly from then until it calls. -/
theorem aborts_reach_one_call (h : Usage (.new config a b) past due l) (e : LinkEnd) :
    l.flagged e = owes e past ∧ (∀ x before, x :: before <:+ past → Tells e x before) ∧
      givenUp past e + (l.flagged e).toNat ≤ aborts past := by
  refine ⟨h.flagged_eq e, fun x before hs => ?_, ?_⟩
  · obtain ⟨due', l', h'⟩ := h.of_suffix hs
    exact h'.tells e
  · rw [h.flagged_eq]
    exact h.givenUp_le e

end

/-- An end gives up a call that waits alone and calls again. The other end has made no call so far, and the one that it
makes then is given up, so that the second call waits on. -/
theorem aborts_reach_one_call_made_later : ∃ past due l, Usage (.new (.standard "a" "b") 0 1) past due l ∧
    aborts past = 1 ∧ givenUp past .left = 1 ∧ l.flagged .left = false ∧ l.waiting .right = some (.receive 1) := by
  obtain ⟨q⟩ : Nonempty QuantumState := ⟨⟨.zero 2, .ofSeed 42⟩⟩
  have unused : Usage (.new (.standard "a" "b") 0 1) [] [] (.new (.standard "a" "b") 0 1) := .new
  have first := unused.accepted (e := .right) (c := .receive 1) (q := q) rfl rfl
  have abort := first.abort .right
  have second := abort.accepted (e := .right) (c := .receive 1) (q := q) rfl rfl
  have create := second.refused (e := .left) (c := .create .standard 0) (q := q) rfl rfl
  refine ⟨_, _, _, create, rfl, rfl, ?_, rfl⟩
  exact (aborts_reach_one_call create .left).1

end Link

end QuantumNode
