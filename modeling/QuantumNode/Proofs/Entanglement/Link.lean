import QuantumNode.Entanglement.Link

/-! What the operations of a link come to: which ends are answered, who waits afterwards, and who has been given up
on. -/
namespace QuantumNode

@[simp] theorem LinkEnd.opposite_opposite (e : LinkEnd) : e.opposite.opposite = e := by
  cases e with
  | left => rfl
  | right => rfl

theorem LinkEnd.opposite_ne (e : LinkEnd) : e.opposite ≠ e := by
  cases e with
  | left => exact nofun
  | right => exact nofun

theorem LinkEnd.eq_or_opposite (e e' : LinkEnd) : e' = e ∨ e' = e.opposite := by
  cases e with
  | left =>
    cases e' with
    | left => exact .inl rfl
    | right => exact .inr rfl
  | right =>
    cases e' with
    | left => exact .inr rfl
    | right => exact .inl rfl

/-- What both ends are told alike: an answer without the outcome at one's own half. -/
def LinkAnswer.plain : LinkAnswer → LinkAnswer
  | .refused cause _ => .refused cause .keep
  | .pair p => .pair { p with reading := none }

/-- Whether a call was given up, rather than settled by the link. -/
def LinkAnswer.isAborted : LinkAnswer → Bool
  | .refused .aborted _ => true
  | _ => false

theorem LinkAnswer.isAborted_plain (a : LinkAnswer) : a.plain.isAborted = a.isAborted := by
  cases a with
  | refused cause kind =>
    cases cause with
    | _ => rfl
  | pair p => rfl

/-- The end that is answered and how, if one is. -/
def LinkEffect.reply? : LinkEffect → Option (LinkEnd × LinkAnswer)
  | .answer e a => some (e, a)
  | _ => none

/-- The answers among effects, in order. -/
def LinkEffect.replies (es : List LinkEffect) : List (LinkEnd × LinkAnswer) := es.filterMap LinkEffect.reply?

namespace Link

/-- The call of an end that waits for an answer. -/
def waiting (l : Link) (e : LinkEnd) : Option LinkCall := (l.side e).waiting

/-- Whether the other end has given up on the call of an end that is still to come. -/
def flagged (l : Link) (e : LinkEnd) : Bool := (l.side e).abortPending

variable {l l' : Link} {e o : LinkEnd}

theorem side_setSide (l : Link) (e o : LinkEnd) (s : LinkSide) :
    (l.setSide e s).side o = if o = e then s else l.side o := by
  cases e with
  | left =>
    cases o with
    | left => rfl
    | right => rfl
  | right =>
    cases o with
    | left => rfl
    | right => rfl

theorem nodeAt_setSide (l : Link) (e o : LinkEnd) (s : LinkSide) : (l.setSide e s).nodeAt o = l.nodeAt o := by
  cases e with
  | left =>
    cases o with
    | left => rfl
    | right => rfl
  | right =>
    cases o with
    | left => rfl
    | right => rfl

theorem generating_setSide (l : Link) (e : LinkEnd) (s : LinkSide) : (l.setSide e s).generating = l.generating := by
  cases e with
  | left => rfl
  | right => rfl

theorem endAt?_eq_some {l : Link} (ha : l.leftNode ≠ l.rightNode) {node : Nat} {e : LinkEnd} :
    l.endAt? node = some e ↔ l.nodeAt e = node := by
  unfold endAt?
  cases e with
  | left =>
    change _ ↔ l.leftNode = node
    split
    · simp; omega
    · split
      · simp; omega
      · simp; omega
  | right =>
    change _ ↔ l.rightNode = node
    split
    · simp; omega
    · split
      · simp; omega
      · simp; omega

/-- What an operation of a link changes: an end that is answered has waited and waits no longer, any other waits as
before. -/
structure Replies (l l' : Link) (es : List LinkEffect) : Prop where
  nodeAt : ∀ o, l'.nodeAt o = l.nodeAt o
  nodup : ((LinkEffect.replies es).map Prod.fst).Nodup
  answered : ∀ o a, (o, a) ∈ LinkEffect.replies es → (l.waiting o).isSome ∧ l'.waiting o = none
  unanswered : ∀ o, (∀ a, (o, a) ∉ LinkEffect.replies es) → l'.waiting o = l.waiting o

/-- An operation that answers nobody. -/
theorem Replies.of_same (hn : ∀ o, l'.nodeAt o = l.nodeAt o) (hw : ∀ o, l'.waiting o = l.waiting o)
    {es : List LinkEffect} (hes : LinkEffect.replies es = []) : Replies l l' es := by
  refine ⟨hn, ?_, fun o a ha => ?_, fun o _ => hw o⟩
  · rw [hes]
    exact .nil
  · rw [hes] at ha
    exact nomatch ha

/-! What is done to one end. -/

section

variable (l : Link) (e o : LinkEnd)

@[simp] theorem waiting_flag (b : Bool) :
    (l.setSide e { l.side e with abortPending := b }).waiting o = l.waiting o := by
  unfold waiting
  rw [side_setSide]
  split
  · rename_i h
    rw [h]
  · rfl

@[simp] theorem flagged_flag (b : Bool) :
    (l.setSide e { l.side e with abortPending := b }).flagged o = if o = e then b else l.flagged o := by
  unfold flagged
  rw [side_setSide]
  split
  · rfl
  · rfl

@[simp] theorem waiting_settle : (l.settle e).waiting o = if o = e then none else l.waiting o := by
  unfold settle waiting
  rw [side_setSide]
  split
  · rfl
  · rfl

@[simp] theorem flagged_settle : (l.settle e).flagged o = l.flagged o := by
  unfold settle flagged
  rw [side_setSide]
  split
  · rename_i h
    rw [h]
  · rfl

@[simp] theorem nodeAt_settle : (l.settle e).nodeAt o = l.nodeAt o := nodeAt_setSide l e o _

@[simp] theorem generating_settle : (l.settle e).generating = l.generating := generating_setSide l e _

/-- An end that waits is refused, and then nobody waits there. -/
theorem refuse_eq (answer : LinkCall → LinkAnswer) : l.refuse e answer =
    (((l.waiting e).map fun c => LinkEffect.answer e (answer c)).toList, l.settle e) := by
  unfold refuse
  have hw : l.waiting e = (l.side e).waiting := rfl
  cases h : (l.side e).waiting with
  | some c => simp [hw, h]
  | none =>
    have hs : l.settle e = l := by
      obtain ⟨config, leftNode, rightNode, ⟨a, f⟩, ⟨b, g⟩, generating, ticket, time, generated⟩ := l
      cases e with
      | left =>
        obtain rfl : a = none := h
        rfl
      | right =>
        obtain rfl : b = none := h
        rfl
    simp [hw, h, hs]

end

theorem replies_cons_log (level : LogLevel) (text : String) (es : List LinkEffect) :
    LinkEffect.replies (.log level text :: es) = LinkEffect.replies es := rfl

theorem replies_append (es fs : List LinkEffect) :
    LinkEffect.replies (es ++ fs) = LinkEffect.replies es ++ LinkEffect.replies fs := List.filterMap_append ..

theorem replies_refuse (l : Link) (e : LinkEnd) (answer : LinkCall → LinkAnswer) :
    LinkEffect.replies (l.refuse e answer).1 = ((l.waiting e).map fun c => (e, answer c)).toList := by
  rw [refuse_eq]
  cases l.waiting e with
  | none => rfl
  | some c => rfl

/-! Giving up. -/

/-- Whoever waits is refused, and the other end is flagged if there was something to give up that it does not wait
for. -/
structure Aborts (l l' : Link) (e : LinkEnd) (es : List LinkEffect) : Prop extends Replies l l' es where
  aborted : ∀ o a, (o, a) ∈ LinkEffect.replies es → a = .refused .aborted .keep
  ended : ∀ o, l'.waiting o = none
  own : l'.flagged e = l.flagged e
  other : l'.flagged e.opposite =
    (l.flagged e.opposite || (l.waiting e.opposite).isNone && ((l.waiting e).isSome || l.generating))
  idle : l'.generating = false

theorem abortOther_facts (l : Link) (o : LinkEnd) (b : Bool) :
    LinkEffect.replies (l.abortOther o b).1 = ((l.waiting o).map fun _ => (o, .refused .aborted .keep)).toList ∧
      (∀ x, (l.abortOther o b).2.waiting x = if x = o then none else l.waiting x) ∧
      (∀ x, (l.abortOther o b).2.flagged x = (l.flagged x || (x = o : Bool) && (l.waiting o).isNone && b)) ∧
      (∀ x, (l.abortOther o b).2.nodeAt x = l.nodeAt x) ∧ (l.abortOther o b).2.generating = l.generating := by
  have hw : (l.side o).waiting = l.waiting o := rfl
  unfold abortOther
  cases h : l.waiting o with
  | some c =>
    rw [hw, h]
    dsimp only
    rw [replies_refuse, refuse_eq, h]
    simp
  | none =>
    have hsame : ∀ x, l.waiting x = if x = o then none else l.waiting x := fun x => by
      split
      · rename_i hx
        rw [hx, h]
      · rfl
    rw [hw, h]
    cases b with
    | true =>
      refine ⟨rfl, fun x => (waiting_flag l o x true).trans (hsame x), fun x => ?_, fun x => nodeAt_setSide l o x _,
        generating_setSide l o _⟩
      refine (flagged_flag l o x true).trans ?_
      by_cases hx : x = o
      · simp [hx]
      · simp [hx]
    | false => exact ⟨rfl, hsame, fun x => by simp, fun _ => rfl, rfl⟩

private theorem halt_facts (l : Link) :
    let l' := if l.generating then { l with generating := false, ticket := l.ticket + 1 } else l
    (∀ o, l'.waiting o = l.waiting o) ∧ (∀ o, l'.flagged o = l.flagged o) ∧ (∀ o, l'.nodeAt o = l.nodeAt o) ∧
      l'.generating = false := by
  dsimp only
  split
  · refine ⟨fun o => ?_, fun o => ?_, fun o => ?_, rfl⟩
    all_goals
      cases o with
      | left => rfl
      | right => rfl
  · rename_i h
    exact ⟨fun _ => rfl, fun _ => rfl, fun _ => rfl, by simpa using h⟩

private theorem mem_reply {x : Option LinkCall} {e o : LinkEnd} {a b : LinkAnswer} :
    (o, a) ∈ (x.map fun _ => (e, b)).toList ↔ x.isSome ∧ o = e ∧ a = b := by
  cases x with
  | none => simp
  | some c => simp

theorem abort_aborts (l : Link) (e : LinkEnd) : Aborts l (l.abort e).2 e (l.abort e).1 := by
  obtain ⟨hwaiting, hflagged, hnode, hgen⟩ := halt_facts l
  have hne := LinkEnd.opposite_ne e
  unfold abort
  dsimp only at *
  generalize (if l.generating then { l with generating := false, ticket := l.ticket + 1 } else l) = l₁ at *
  rw [refuse_eq]
  dsimp only
  obtain ⟨hreplies, hw, hf, hn, hg⟩ :=
    abortOther_facts (l₁.settle e) e.opposite ((l.side e).waiting.isSome || l.generating)
  generalize (l₁.settle e).abortOther e.opposite ((l.side e).waiting.isSome || l.generating) = r at *
  obtain ⟨es, l'⟩ := r
  have hother : (l₁.settle e).waiting e.opposite = l.waiting e.opposite := by
    rw [waiting_settle, if_neg hne, hwaiting]
  have hall : LinkEffect.replies (LinkEffect.log .info s!"abort requested by node {l₁.nodeAt e}" ::
      ((l₁.waiting e).map fun _ => LinkEffect.answer e (.refused .aborted .keep)).toList ++ es) =
      ((l.waiting e).map fun _ => (e, .refused .aborted .keep)).toList ++
        ((l.waiting e.opposite).map fun _ => (e.opposite, .refused .aborted .keep)).toList := by
    rw [List.cons_append, replies_cons_log, replies_append, hreplies, hother, hwaiting]
    congr 1
    cases l.waiting e with
    | none => rfl
    | some c => rfl
  have hover : ∀ o, l'.waiting o = none := fun o => by
    rw [hw]
    rcases LinkEnd.eq_or_opposite e o with rfl | rfl
    · rw [if_neg hne.symm, waiting_settle, if_pos rfl]
    · rw [if_pos rfl]
  have hmem : ∀ o a, (o, a) ∈ ((l.waiting e).map fun _ => (e, LinkAnswer.refused .aborted .keep)).toList ++
      ((l.waiting e.opposite).map fun _ => (e.opposite, LinkAnswer.refused .aborted .keep)).toList ↔
      (l.waiting o).isSome ∧ a = .refused .aborted .keep := by
    intro o a
    rw [List.mem_append, mem_reply, mem_reply]
    rcases LinkEnd.eq_or_opposite e o with rfl | rfl
    · simp [hne.symm]
    · simp [hne]
  refine ⟨⟨fun o => ?_, ?_, fun o a h => ?_, fun o h => ?_⟩, fun o a h => ?_, hover, ?_, ?_, ?_⟩
  · rw [hn, nodeAt_settle, hnode]
  · rw [hall]
    cases l.waiting e with
    | none =>
      cases l.waiting e.opposite with
      | none => simp
      | some d => simp
    | some c =>
      cases l.waiting e.opposite with
      | none => simp
      | some d => simp [hne.symm]
  · rw [hall, hmem] at h
    exact ⟨h.1, hover o⟩
  · rw [hover o]
    cases hwo : l.waiting o with
    | none => rfl
    | some c =>
      refine absurd ?_ (h (.refused .aborted .keep))
      rw [hall, hmem, hwo]
      exact ⟨rfl, rfl⟩
  · rw [hall, hmem] at h
    exact h.2
  · rw [hf, flagged_settle, hflagged]
    simp [hne.symm]
  · rw [hf, flagged_settle, hflagged, hother]
    simp [waiting]
  · rw [hg, generating_settle, hgen]

/-- Whoever waits is answered. -/
theorem Aborts.reply {l l' : Link} {e o : LinkEnd} {es : List LinkEffect} (ha : Aborts l l' e es)
    (hw : (l.waiting o).isSome) :
    (o, .refused .aborted .keep) ∈ LinkEffect.replies es := by
  by_cases hmem : ∃ a, (o, a) ∈ LinkEffect.replies es
  · obtain ⟨a, hmem⟩ := hmem
    rw [ha.aborted o a hmem] at hmem
    exact hmem
  · have hnone := ha.unanswered o fun a h => hmem ⟨a, h⟩
    rw [ha.ended o] at hnone
    rw [← hnone] at hw
    exact nomatch hw

/-! Making pairs. -/

/-- Nothing is made but for two calls that wait, one a create and the other a receive. -/
def Matched (l : Link) : Prop :=
  l.generating = true → ∃ a b, l.waiting .left = some a ∧ l.waiting .right = some b ∧ a.role ≠ b.role

theorem Matched.idle {l : Link} (h : l.Matched) {e : LinkEnd} (hw : l.waiting e = none) : l.generating = false := by
  cases hg : l.generating with
  | false => rfl
  | true =>
    obtain ⟨a, b, ha, hb, -⟩ := h hg
    cases e with
    | left => exact nomatch hw.symm.trans ha
    | right => exact nomatch hw.symm.trans hb

/-- Both ends are answered alike. -/
structure Joins (l l' : Link) (es : List LinkEffect) (first second : LinkAnswer) : Prop extends Replies l l' es where
  left : (LinkEnd.left, first) ∈ LinkEffect.replies es
  right : (LinkEnd.right, second) ∈ LinkEffect.replies es
  plain : first.plain = second.plain
  settled : first.isAborted = false ∧ second.isAborted = false
  flagged : ∀ o, l'.flagged o = l.flagged o
  idle : l'.generating = false

theorem Joins.ended {l l' : Link} {es : List LinkEffect} {first second : LinkAnswer} (h : Joins l l' es first second)
    (o : LinkEnd) : l'.waiting o = none := by
  cases o with
  | left => exact (h.answered _ _ h.left).2
  | right => exact (h.answered _ _ h.right).2

/-- Two answers for the two ends. -/
theorem Joins.of_replies {l l' : Link} {es : List LinkEffect} {first second : LinkAnswer} (hn : ∀ o, l'.nodeAt o = l.nodeAt o)
    (hes : LinkEffect.replies es = [(.left, first), (.right, second)] ∨
      LinkEffect.replies es = [(.right, second), (.left, first)])
    (hw : ∀ o, (l.waiting o).isSome) (hw' : ∀ o, l'.waiting o = none) (hp : first.plain = second.plain)
    (hs : first.isAborted = false ∧ second.isAborted = false) (hf : ∀ o, l'.flagged o = l.flagged o)
    (hg : l'.generating = false) : Joins l l' es first second := by
  have hmem : ∀ o, ∃ a, (o, a) ∈ LinkEffect.replies es := fun o => by
    rcases hes with h | h
    all_goals
      rw [h]
      cases o with
      | left => exact ⟨first, by simp⟩
      | right => exact ⟨second, by simp⟩
  refine ⟨⟨hn, ?_, fun o a _ => ⟨hw o, hw' o⟩, fun o h => ?_⟩, ?_, ?_, hp, hs, hf, hg⟩
  · rcases hes with h | h
    all_goals simp [h]
  · obtain ⟨a, ha⟩ := hmem o
    exact absurd ha (h a)
  · rcases hes with h | h
    all_goals simp [h]
  · rcases hes with h | h
    all_goals simp [h]

theorem refuseBoth_joins {l : Link} {a b : LinkCall} (ha : l.waiting .left = some a) (hb : l.waiting .right = some b)
    {cause : LinkRefusal} (hc : cause ≠ .aborted) (hg : l.generating = false) :
    Joins l (l.refuseBoth cause).2 (l.refuseBoth cause).1 (.refused cause a.request.kind)
      (.refused cause b.request.kind) := by
  unfold refuseBoth
  simp only [refuse_eq]
  have hb' : (l.settle .left).waiting .right = some b := by
    rw [waiting_settle, if_neg nofun, hb]
  rw [ha, hb']
  have hab : ∀ kind, (LinkAnswer.refused cause kind).isAborted = false := fun kind => by
    cases cause with
    | aborted => exact absurd rfl hc
    | _ => rfl
  refine .of_replies (fun o => by simp) (.inl rfl) (fun o => ?_) (fun o => ?_) rfl ⟨hab _, hab _⟩ (fun o => by simp)
    (by simpa using hg)
  · cases o with
    | left => simp [ha]
    | right => simp [hb]
  · cases o with
    | left => simp
    | right => simp

theorem deliver_joins {l : Link} {creator receiver : LinkEnd × LinkCall} (hw : ∀ o, (l.waiting o).isSome)
    (he : creator.1 = .left ∧ receiver.1 = .right ∨ creator.1 = .right ∧ receiver.1 = .left)
    (hg : l.generating = false) (q : QuantumState) :
    ∃ first second, Joins l (l.deliver creator receiver q).1.2 (l.deliver creator receiver q).1.1 first second := by
  unfold deliver
  dsimp only
  have hplain : ∀ (l' : Link), ({ l' with generated := l'.generated + 1 } : Link).waiting = l'.waiting ∧
      ({ l' with generated := l'.generated + 1 } : Link).nodeAt = l'.nodeAt ∧
      ({ l' with generated := l'.generated + 1 } : Link).flagged = l'.flagged := by
    intro l'
    refine ⟨funext fun o => ?_, funext fun o => ?_, funext fun o => ?_⟩
    all_goals
      cases o with
      | left => rfl
      | right => rfl
  obtain ⟨hwaiting, hnode, hflagged⟩ := hplain l
  rcases he with ⟨hc, hr⟩ | ⟨hc, hr⟩
  · rw [hc, hr]
    refine ⟨_, _, .of_replies (fun o => by simp [hnode]) (.inl rfl) hw (fun o => ?_) rfl ⟨rfl, rfl⟩
      (fun o => by simp [hflagged]) (by simpa using hg)⟩
    cases o with
    | left => simp
    | right => simp
  · rw [hc, hr]
    refine ⟨_, _, .of_replies (fun o => by simp [hnode]) (.inr rfl) hw (fun o => ?_) rfl ⟨rfl, rfl⟩
      (fun o => by simp [hflagged]) (by simpa using hg)⟩
    cases o with
    | left => simp
    | right => simp

theorem matched?_of_roles {l : Link} {a b : LinkCall} (ha : l.left.waiting = some a) (hb : l.right.waiting = some b)
    (hr : a.role ≠ b.role) : ∃ creator receiver, l.matched? = some (creator, receiver) ∧
      (creator.1 = .left ∧ receiver.1 = .right ∨ creator.1 = .right ∧ receiver.1 = .left) := by
  unfold matched?
  rw [ha, hb]
  dsimp only
  cases ha : a.role with
  | create =>
    cases hb : b.role with
    | create => exact absurd (ha.trans hb.symm) hr
    | receive => exact ⟨_, _, rfl, .inl ⟨rfl, rfl⟩⟩
  | receive =>
    cases hb : b.role with
    | create => exact ⟨_, _, rfl, .inr ⟨rfl, rfl⟩⟩
    | receive => exact absurd (ha.trans hb.symm) hr

/-- The time of a generation that is still wanted is the moment at which both ends are answered. -/
theorem fire_cases {l : Link} (h : l.Matched) (event : LinkEvent) (q : QuantumState) :
    (LinkEffect.replies (l.fire event q).1.1 = [] ∧ (l.fire event q).1.2 = l) ∨
      (l.generating = true ∧
        ∃ first second, Joins l (l.fire event q).1.2 (l.fire event q).1.1 first second) := by
  have hjoin : ∀ (r : (List LinkEffect × Link) × QuantumState) (first second : LinkAnswer),
      Joins { l with generating := false } r.1.2 r.1.1 first second → Joins l r.1.2 r.1.1 first second := by
    intro r first second hj
    refine ⟨⟨fun o => ?_, hj.nodup, fun o a ha => ?_, fun o ho => ?_⟩, hj.left, hj.right, hj.plain, hj.settled,
      fun o => ?_, hj.idle⟩
    · rw [hj.nodeAt]
      cases o with
      | left => rfl
      | right => rfl
    · have := hj.answered o a ha
      cases o with
      | left => exact this
      | right => exact this
    · rw [hj.unanswered o ho]
      cases o with
      | left => rfl
      | right => rfl
    · rw [hj.flagged]
      cases o with
      | left => rfl
      | right => rfl
  cases event with
  | complete ticket =>
    unfold fire
    dsimp only
    split
    · rename_i hg
      obtain ⟨a, b, ha, hb, hr⟩ := h hg.1
      obtain ⟨creator, receiver, hm, hends⟩ := matched?_of_roles (l := { l with generating := false }) ha hb hr
      rw [hm]
      dsimp only
      refine .inr ⟨hg.1, ?_⟩
      obtain ⟨first, second, hj⟩ := deliver_joins (l := { l with generating := false }) (fun o => by
        cases o with
        | left => exact Option.isSome_of_eq_some ha
        | right => exact Option.isSome_of_eq_some hb) hends rfl q
      exact ⟨first, second, hjoin _ _ _ hj⟩
    · exact .inl ⟨rfl, rfl⟩
  | timeout ticket =>
    unfold fire
    dsimp only
    split
    · rename_i hg
      obtain ⟨a, b, ha, hb, hr⟩ := h hg.1
      have hj := refuseBoth_joins (l := { l with generating := false }) ha hb (nofun : LinkRefusal.timeout ≠ .aborted) rfl
      exact .inr ⟨hg.1, _, _, hjoin (_, q) _ _ hj⟩
    · exact .inl ⟨rfl, rfl⟩

/-! Calls. -/

/-- An end waits for an answer to a call. -/
def await (l : Link) (e : LinkEnd) (c : LinkCall) : Link := l.setSide e { l.side e with waiting := some c }

theorem waiting_await (l : Link) (e o : LinkEnd) (c : LinkCall) :
    (l.await e c).waiting o = if o = e then some c else l.waiting o := by
  unfold await waiting
  rw [side_setSide]
  split
  · rfl
  · rfl

theorem flagged_await (l : Link) (e o : LinkEnd) (c : LinkCall) : (l.await e c).flagged o = l.flagged o := by
  unfold await flagged
  rw [side_setSide]
  split
  · rename_i h
    rw [h]
  · rfl

/-- What becomes of a link when a call is accepted: it waits, or both ends are turned down. -/
inductive Accepts (l l' : Link) (e : LinkEnd) (c : LinkCall) (es : List LinkEffect) : Prop where
  | waits (hes : LinkEffect.replies es = []) (hn : ∀ o, l'.nodeAt o = l.nodeAt o)
      (hw : ∀ o, l'.waiting o = (l.await e c).waiting o) (hf : ∀ o, l'.flagged o = l.flagged o) (hm : l'.Matched)
  | turned {kind kind' : PairKind} (hw : (l.waiting e.opposite).isSome)
      (hj : Joins (l.await e c) l' es (.refused .rejected kind) (.refused .rejected kind'))

theorem Accepts.saying {l : Link} {e : LinkEnd} {c : LinkCall} {r : List LinkEffect × Link}
    (h : Accepts l r.2 e c r.1) (level : LogLevel) (text : String) :
    Accepts l (Link.saying level text r).2 e c (Link.saying level text r).1 := by
  cases h with
  | waits hes hn hw hf hm => exact .waits hes hn hw hf hm
  | turned hw hj =>
    exact .turned hw ⟨⟨hj.nodeAt, hj.nodup, hj.answered, hj.unanswered⟩, hj.left, hj.right, hj.plain, hj.settled,
      hj.flagged, hj.idle⟩

theorem generate_facts (l : Link) (r : PairRequest) (cycles : Nat) :
    LinkEffect.replies (l.generate r cycles).1 = [] ∧ (∀ o, (l.generate r cycles).2.side o = l.side o) ∧
      ∀ o, (l.generate r cycles).2.nodeAt o = l.nodeAt o := by
  unfold generate
  dsimp only
  split
  · refine ⟨rfl, fun o => ?_, fun o => ?_⟩
    all_goals
      cases o with
      | left => rfl
      | right => rfl
  · refine ⟨rfl, fun o => ?_, fun o => ?_⟩
    all_goals
      cases o with
      | left => rfl
      | right => rfl

theorem matchEnds_cases {l : Link} {e : LinkEnd} {c : LinkCall} (hg : l.generating = false) (q : QuantumState) :
    Accepts l ((l.await e c).matchEnds q).1.2 e c ((l.await e c).matchEnds q).1.1 := by
  have hgen : (l.await e c).generating = false := (generating_setSide l e _).trans hg
  have hnode : ∀ o, (l.await e c).nodeAt o = l.nodeAt o := fun o => nodeAt_setSide l e o _
  unfold matchEnds
  split
  · rename_i a b _ ha hb
    have hopposite : (l.waiting e.opposite).isSome := by
      have hall : ∀ o, ((l.await e c).waiting o).isSome := fun o => by
        cases o with
        | left => exact Option.isSome_of_eq_some ha
        | right => exact Option.isSome_of_eq_some hb
      have := hall e.opposite
      rwa [waiting_await, if_neg (LinkEnd.opposite_ne e)] at this
    have hturned : Accepts l ((l.await e c).refuseBoth .rejected).2 e c ((l.await e c).refuseBoth .rejected).1 :=
      .turned hopposite (refuseBoth_joins ha hb nofun hgen)
    split
    · exact hturned.saying _ _
    · rename_i hr
      dsimp only
      generalize (if a.role = PairRole.create then a.request else b.request) = request
      split
      · exact hturned.saying _ _
      · obtain ⟨hes, hside, hn⟩ := generate_facts (l.await e c) request ((l.await e c).drawCycles q).1
        refine .waits hes (fun o => (hn o).trans (hnode o)) (fun o => congrArg LinkSide.waiting (hside o))
          (fun o => (congrArg LinkSide.abortPending (hside o)).trans (flagged_await l e o c)) fun _ => ⟨a, b, ?_, ?_, hr⟩
        · exact (congrArg LinkSide.waiting (hside .left)).trans ha
        · exact (congrArg LinkSide.waiting (hside .right)).trans hb
  · exact .waits rfl hnode (fun _ => rfl) (fun o => flagged_await l e o c) fun h => by
      rw [hgen] at h
      exact nomatch h

/-- An end that makes a call does not wait for the answer to another. It is refused at once if the other end has
given up, and then it is not flagged any more. -/
theorem request_cases {l : Link} (h : l.Matched) {e : LinkEnd} {c : LinkCall} {q : QuantumState} {r : Reception}
    (hr : l.request e c q = .ok r) : l.waiting e = none ∧ match r with
      | .refused a l' => l.flagged e = true ∧ a = .refused .aborted c.request.kind ∧
          l' = l.setSide e { l.side e with abortPending := false }
      | .accepted es l' _ => l.flagged e = false ∧ Accepts l l' e c es := by
  unfold request at hr
  dsimp only at hr
  split at hr
  · exact nomatch hr
  · rename_i hw
    have hw : l.waiting e = none := by simpa [waiting] using hw
    refine ⟨hw, ?_⟩
    split at hr
    · rename_i hf
      cases hr
      exact ⟨hf, rfl, rfl⟩
    · rename_i hf
      cases hr
      exact ⟨by simpa [flagged] using hf, matchEnds_cases (h.idle hw) q⟩

/-- A call is taken where none is pending. -/
theorem request_ok {l : Link} {e : LinkEnd} (hw : l.waiting e = none) (c : LinkCall) (q : QuantumState) :
    ∃ r, l.request e c q = .ok r := by
  have hw : (l.side e).waiting = none := hw
  unfold request
  dsimp only
  rw [if_neg (by rw [hw]; exact nofun)]
  split
  · exact ⟨_, rfl⟩
  · exact ⟨_, rfl⟩

end Link

end QuantumNode
