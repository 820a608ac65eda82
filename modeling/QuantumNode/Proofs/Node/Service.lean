import QuantumNode.Proofs.Node.Pairing

/-! A step of a pair service as a whole. It is put up with wherever its waits are, and what it does to applications: a
request that fails, and a half of a pair that is kept. -/
namespace QuantumNode.Pairing

open Node Work Working

variable {n m : Nat}

/-- Whether a pair service is to find that a request of an application has failed: the link has refused a pair, and not
because the other side has given up. -/
def fails (app : Int) : PairStage → Wake → Bool
  | .linking t _ _, .answer (.refused cause _) => t.request.app = app && cause ≠ .aborted
  | _, _ => false

/-- Whether a pair service may find that an application is to be aborted: a peer answers a request of it, or a link has
refused a pair because the other side has given up. -/
def marks (app : Int) : PairStage → Wake → Bool
  | .awaitingReply r _, _ | .awaitingDescriptor r, _ => r.app = app
  | .linking t _ _, .answer (.refused cause _) => t.request.app = app && cause = .aborted
  | _, _ => false

/-- Whether a pair service has a half of a pair that an application is to keep, unless it has to be corrected. -/
def keeps (app : Int) : PairStage → Wake → Bool
  | .linking t _ _, .answer (.pair _) => t.request.app = app && t.wanted.kind = .keep
  | .correcting t .., _ => t.request.app = app
  | _, _ => false

/-- The link has made a pair, which is to be corrected or handed over. -/
inductive Gets (t : PairTask) (k : Nat) (pair : Pair) : PairStage → Wake → Prop where
  | answered (position : Nat) : Gets t k pair (.linking t k position) (.answer (.pair pair))
  | corrected (position : Nat) (c : DeviceCall) (calls : List DeviceCall) (wake : Wake) :
      Gets t k pair (.correcting t k position pair c calls) wake

/-- What is done with a slot that has been found. -/
def callLink (t : PairTask) (k position : Nat) : NodeWork n m (Step m) := do
  modifyService fun s =>
    { s with linkCalls := s.linkCalls + 1, inFlight := some (t.request.app, t.request.remote) }
  Node.log .info "Netstack" s!"submitting {t.request.role.name} for pair {k} on position {position}"
  let (l, e, c) ← linkCall t.request.role t.request.remote t.wanted position
  return .call (.linking t k position) l e c

section

variable {R : Working (Node n m) n m → Working (Node n m) n m → Prop} [Placid R]

theorem callLink_sociable [Cordial R] (t : PairTask) (k position : Nat) :
    Within R (callLink t k position : NodeWork n m (Step m)) :=
  (modifyService_sociable (f := fun s =>
      { s with linkCalls := s.linkCalls + 1, inFlight := some (t.request.app, t.request.remote) })
    (fun _ => rfl) (fun _ => rfl) (fun _ => rfl) (fun _ => rfl) (fun _ => rfl) (fun _ => rfl) fun _ => rfl).bind fun _ =>
      (log_mild _ _ _).bind fun _ => (linkCall_mild _ _ _ _).bind fun _ => .pure _

omit [Placid R] in
theorem clearInFlight_sociable [Cordial R] :
    Within R (modifyService fun s => { s with inFlight := none } : NodeWork n m Unit) :=
  modifyService_sociable (fun _ => rfl) (fun _ => rfl) (fun _ => rfl) (fun _ => rfl) (fun _ => rfl) (fun _ => rfl)
    fun _ => rfl

variable [Pooling R]

theorem tryPair_starving [Cordial R] (p : ProcessId) [Starving p R] (t : PairTask) (k : Nat) :
    Within R (tryPair p t k : NodeWork n m (Step m)) :=
  service_mild.bind fun _ => .ite ((log_mild _ _ _).bind fun _ => .pure _)
    (Within.bind allocateCommunication_pooling.attempt fun r => by
      cases r with
      | error _ =>
        exact Within.bind (fun w => Starving.count p w) fun _ => (log_mild _ _ _).bind fun _ =>
          Within.bind (fun w => Starving.slot w) fun _ => .pure _
      | ok position => exact callLink_sociable t k position)

theorem takeRefusal_sociable (t : PairTask) (k position : Nat) (cause : LinkRefusal)
    (hm : cause = .aborted → Marking t.request.app R) (hb : cause ≠ .aborted → Blaming t.request.app R) :
    Within R (takeRefusal t k position cause : NodeWork n m (Step m)) := by
  have hend : Within R (do notifyArrayWritten; return .go (.settling t.request) : NodeWork n m (Step m)) :=
    notifyArrayWritten_rousing.bind fun _ => .pure _
  refine (freeQubit_pooling _).bind fun _ => ?_
  dsimp only
  split
  · rename_i hcause
    have := hm hcause
    exact (log_mild _ _ _).bind fun _ => (setAborted_sociable _).bind fun _ => hend
  · rename_i hcause
    have := hb hcause
    exact (log_mild _ _ _).bind fun _ => (markFailed_blaming _).bind fun _ => hend

theorem keepHalf_housing (t : PairTask) [Housing t.request.app R] (k : Nat) [Noting t.request k R] (position : Nat)
    (pair : Pair) : Within R (keepHalf t k position pair : NodeWork n m (Step m)) :=
  Within.part.bind fun _ => .ite
    ((memory_mild _).bind fun _ => Within.bind (.ofExcept _) fun virt => by
      cases virt with
      | none => exact .fail _
      | some virt =>
        exact (mapQubit_housing _ _).bind fun _ => (log_mild _ _ _).bind fun _ => finishPair_noting _ _ _ _)
    ((freeQubit_pooling _).bind fun _ => .pure _)

theorem dropHalf_noting (t : PairTask) (k : Nat) [Noting t.request k R] (position : Nat) (pair : Pair) :
    Within R (dropHalf t k position pair : NodeWork n m (Step m)) :=
  (freeQubit_pooling _).bind fun _ => Within.part.bind fun _ => .ite (finishPair_noting _ _ _ _) (.pure _)

theorem correct_housing (p : ProcessId) [Drowsy p R] (t : PairTask) [Housing t.request.app R] (k : Nat)
    [Noting t.request k R] (position : Nat) (pair : Pair) (calls : List DeviceCall) :
    Within R (correct p t k position pair calls : NodeWork n m (Step m)) := by
  cases calls with
  | nil => exact keepHalf_housing t k position pair
  | cons c calls => exact (startGate_mild p c).bind fun _ => .pure _

theorem takePair_noting (p : ProcessId) [Drowsy p R] (t : PairTask) (k : Nat) [Noting t.request k R] (position : Nat)
    (pair : Pair) (hg : t.wanted.kind = .keep → Housing t.request.app R) :
    Within R (takePair p t k position pair : NodeWork n m (Step m)) :=
  (log_mild _ _ _).bind fun _ => by
    split
    · rename_i hkind _
      have := hg hkind
      exact correct_housing p t k position pair _
    · rename_i hkind _
      have := hg hkind
      exact keepHalf_housing t k position pair
    · exact dropHalf_noting t k position pair

variable [Cordial R]

theorem takeAnswer_sociable (p : ProcessId) [Drowsy p R] (t : PairTask) (k position : Nat) (answer : LinkAnswer)
    (hm : ∀ app, marks app (.linking t k position) (.answer answer) = true → Marking app R)
    (hb : ∀ app, fails app (.linking t k position) (.answer answer) = true → Blaming app R)
    (hg : ∀ app, keeps app (.linking t k position) (.answer answer) = true → Housing app R)
    (hn : ∀ pair, answer = .pair pair → Noting t.request k R) :
    Within R (takeAnswer p t k position answer : NodeWork n m (Step m)) :=
  clearInFlight_sociable.bind fun _ => by
    cases answer with
    | refused cause _ =>
      exact takeRefusal_sociable t k position cause (fun hc => hm _ (by simp [marks, hc])) fun hc => hb _ (by simp [fails, hc])
    | pair pair =>
      have := hn pair rfl
      exact takePair_noting p t k position pair fun hk => hg _ (by simp [keeps, hk])

/-- A step of a pair service on a request that it has, unless it is to settle it. -/
theorem step_cordial (p : ProcessId) [Drowsy p R] [Listening p R] [Starving p R] {stage : PairStage} (wake : Wake)
    (hidle : stage ≠ .idle) (hsettling : ∀ r, stage ≠ .settling r)
    (hm : ∀ app, marks app stage wake = true → Marking app R)
    (hb : ∀ app, fails app stage wake = true → Blaming app R)
    (hg : ∀ app, keeps app stage wake = true → Housing app R)
    (hn : ∀ t k pair, Gets t k pair stage wake → Noting t.request k R) :
    Within R (step p stage wake : NodeWork n m (Step m)) := by
  cases stage with
  | idle => exact absurd rfl hidle
  | awaitingReply r task =>
    have := hm r.app (decide_eq_true rfl)
    exact awaitReply_listening p r task
  | awaitingDescriptor r =>
    have := hm r.app (decide_eq_true rfl)
    exact awaitDescriptor_listening p r
  | next t k => exact .ite ((log_mild _ _ _).bind fun _ => tryPair_starving p t k) (.pure _)
  | starving t k => exact (log_mild _ _ _).bind fun _ => tryPair_starving p t k
  | linking t k position =>
    cases wake with
    | answer a =>
      refine takeAnswer_sociable p t k position a hm hb hg fun pair ha => ?_
      subst ha
      exact hn t k pair (.answered position)
    | _ => exact .pure _
  | correcting t k position pair c calls =>
    have := hg t.request.app (decide_eq_true rfl)
    have := hn t k pair (.corrected position c calls wake)
    exact (finishCall_mild c).bind fun _ => correct_housing p t k position pair calls
  | settling r => exact absurd rfl (hsettling r)

end

/-- What a step of a pair service does to applications is to find that one is to be aborted or that a request fails, to keep
a half of a pair, and to write the row of a pair that it has. -/
theorem step_docile {R : Working (Node n m) n m → Working (Node n m) n m → Prop} [Docile R] [Pooling R] [Cordial R]
    (p : ProcessId) [Drowsy p R] [Standing p R] [Starving p R] (stage : PairStage) (wake : Wake)
    (hm : ∀ app, marks app stage wake = true → Marking app R)
    (hb : ∀ app, fails app stage wake = true → Blaming app R)
    (hg : ∀ app, keeps app stage wake = true → Housing app R)
    (hn : ∀ t k pair, Gets t k pair stage wake → Noting t.request k R) :
    Within R (step p stage wake : NodeWork n m (Step m)) := by
  cases stage with
  | idle =>
    cases wake with
    | request r => exact beginRequest_sociable r
    | _ => exact awaitRequest_standing p
  | settling r => exact settle_rousing r
  | _ => exact step_cordial p wake nofun nofun hm hb hg hn

theorem step_sociable {R : Working (Node n m) n m → Working (Node n m) n m → Prop} [Docile R] [Pooling R] [Affable R]
    (p : ProcessId) [Drowsy p R] [Standing p R] [Starving p R] (stage : PairStage) (wake : Wake)
    (hb : ∀ app, fails app stage wake = true → Blaming app R)
    (hg : ∀ app, keeps app stage wake = true → Housing app R)
    (hn : ∀ t k pair, Gets t k pair stage wake → Noting t.request k R) :
    Within R (step p stage wake : NodeWork n m (Step m)) :=
  step_docile p stage wake (fun _ _ => inferInstance) hb hg hn

/-- A relation that puts up with rows puts up with the steps of a pair service, but for the requests that fail and the
halves that are kept. -/
theorem step_within {R : Working (Node n m) n m → Working (Node n m) n m → Prop} [Tame R] [Pooling R] [Affable R]
    (p : ProcessId) [Drowsy p R] [Standing p R] [Starving p R] (stage : PairStage) (wake : Wake)
    (hb : ∀ app, fails app stage wake = true → Blaming app R)
    (hg : ∀ app, keeps app stage wake = true → Granting app R) :
    Within R (step p stage wake : NodeWork n m (Step m)) := by
  refine step_sociable p stage wake hb (fun app hk => ?_) fun _ _ _ _ => inferInstance
  have := hg app hk
  infer_instance

end QuantumNode.Pairing
