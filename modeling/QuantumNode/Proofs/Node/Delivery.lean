import QuantumNode.Proofs.Node.Awaiting
import QuantumNode.Proofs.Node.Rows

/-! What a pair service does with the pair that a link has made for it: it writes the row of the pair and tells so, or
leaves the memories alone. -/
namespace QuantumNode

open Node Work Working

variable {n m : Nat}

namespace Working

/-- Whoever waits for an array to be written is told, once. -/
def Announces (w w' : Working (Node n m) n m) : Prop := w'.part.arrayWritten.notified = w.part.arrayWritten.notified + 1

theorem Announces.before {w w₁ w' : Working (Node n m) n m} (h : Discreet w w₁) (h' : Announces w₁ w') :
    Announces w w' := by
  rw [Announces, ← h.written]
  exact h'

end Working

namespace Pairing

/-- What becomes of a pair that a pair service has. -/
inductive Hands (t : PairTask) (k : Nat) (pair : Pair) (w : Working (Node n m) n m) :
    Step m → Working (Node n m) n m → Prop where
  | write {w' : Working (Node n m) n m} (h : Announces w w') : Hands t k pair w (.go (.next t (k + 1))) w'
  /-- The application is not there. -/
  | lose {w' : Working (Node n m) n m} (hgone : w.part.hasApp t.request.app = false) (h : w'.part.apps = w.part.apps) :
      Hands t k pair w (.go (.settling t.request)) w'
  | correct {w' : Working (Node n m) n m} {position : Nat} {c : DeviceCall} {calls : List DeviceCall}
      (h : w'.part.apps = w.part.apps) : Hands t k pair w (.rest (.correcting t k position pair c calls)) w'

variable {t : PairTask} {k : Nat} {pair : Pair} {w w₁ w' : Working (Node n m) n m} {flow : Step m}

theorem Hands.before (h : Discreet w w₁) (hb : SameBooks w w₁) (h' : Hands t k pair w₁ flow w') :
    Hands t k pair w flow w' := by
  cases h' with
  | write hw => exact .write (hw.before h)
  | lose hgone ha => exact .lose (by rwa [hasApp, ← hb.apps]) (ha.trans hb.apps)
  | correct ha => exact .correct (ha.trans hb.apps)

/-- Work before a pair is handed on. -/
theorem Hands.first {α : Type} {x : NodeWork n m α} {f : α → NodeWork n m (Step m)} (hd : Within Discreet x)
    (hb : Within SameBooks x) (h : ∀ a w₁, SameBooks w w₁ → Ends (f a) w₁ (Hands t k pair w₁)) :
    Ends (x >>= f) w (Hands t k pair w) :=
  (hd.and hb).next fun a w₁ h₁ => (h a w₁ h₁.2).mono fun _ _ hh => hh.before h₁.1 h₁.2

theorem finishPair_announces (t : PairTask) (k : Nat) (pair : Pair) (virt : Option Int) :
    Ends (finishPair t k pair virt) w fun flow w' => flow = .go (.next t (k + 1)) ∧ Announces w w' := by
  have hnotify : ∀ w₁, Discreet w w₁ → Ends (do
      notifyArrayWritten
      return Flow.go (.next t (k + 1)) : NodeWork n m (Step m)) w₁
        fun flow w' => flow = .go (.next t (k + 1)) ∧ Announces w w' := fun w₁ h₁ => by
    obtain ⟨w₂, he, hpart, -⟩ := exec_notifyArrayWritten w₁
    refine .bind fun _ w₃ he' => ?_
    rw [he] at he'
    cases he'
    exact .pure ⟨rfl, Announces.before h₁ (by rw [Announces, hpart])⟩
  refine (memory_mild _).next fun _ w₁ (h₁ : Discreet w w₁) => ?_
  refine (writeRow_noting _ _ _ _).next fun _ w₂ (h₂ : Discreet w₁ w₂) => ?_
  exact (log_mild _ _ _).next fun _ w₃ (h₃ : Discreet w₂ w₃) => hnotify w₃ ((h₁.trans h₂).trans h₃)

theorem keepHalf_hands (t : PairTask) (k position : Nat) (pair : Pair) :
    Ends (keepHalf t k position pair) w (Hands t k pair w) := by
  refine .part ?_
  split
  · refine (memory_mild _).next fun mem w₁ (h₁ : Discreet w w₁) => .ofExcept fun virt _ => ?_
    cases virt with
    | none => exact .fail _
    | some virt =>
      refine (show Within (Unseen False 0) _ from mapQubit_unseen _ _ _).next fun _ w₂ h₂ =>
        (log_mild _ _ _).next fun _ w₃ (h₃ : Discreet w₂ w₃) => ?_
      refine (finishPair_announces t k pair _).mono fun flow w' ⟨hflow, hw⟩ => ?_
      rw [hflow]
      exact .write (hw.before ((h₁.trans h₂.discreet).trans h₃))
  · rename_i hgone
    exact (freeQubit_pooling position : Within SameBooks _).next fun _ w₁ h₁ =>
      .pure (.lose (Bool.eq_false_iff.2 hgone) h₁.apps)

theorem dropHalf_hands (t : PairTask) (k position : Nat) (pair : Pair) :
    Ends (dropHalf t k position pair) w (Hands t k pair w) := by
  refine Hands.first (freeQubit_discreet _) (freeQubit_pooling _) fun _ w₁ _ => .part ?_
  split
  · refine (finishPair_announces t k pair none).mono fun flow w' ⟨hflow, hw⟩ => ?_
    rw [hflow]
    exact .write hw
  · rename_i hgone
    exact .pure (.lose (Bool.eq_false_iff.2 hgone) rfl)

theorem correct_hands (p : ProcessId) (t : PairTask) (k position : Nat) (pair : Pair) (calls : List DeviceCall) :
    Ends (correct p t k position pair calls) w (Hands t k pair w) := by
  cases calls with
  | nil => exact keepHalf_hands t k position pair
  | cons c calls => exact (startGate_mild p c : Within SameBooks _).next fun _ w₁ h₁ => .pure (.correct h₁.apps)

theorem takePair_hands (p : ProcessId) (t : PairTask) (k position : Nat) (pair : Pair) :
    Ends (takePair p t k position pair) w (Hands t k pair w) := by
  refine Hands.first (log_mild _ _ _) (log_mild _ _ _) fun _ w₁ _ => ?_
  split
  · exact correct_hands p t k position pair _
  · exact keepHalf_hands t k position pair
  · exact dropHalf_hands t k position pair

/-- A step of a pair service that has a pair, unless it meets a fault. -/
theorem step_hands (p : ProcessId) {stage : PairStage} {wake : Wake} (h : Gets t k pair stage wake) :
    Ends (step p stage wake) w (Hands t k pair w) := by
  cases h with
  | answered position =>
    exact Hands.first clearInFlight_sociable clearInFlight_sociable fun _ _ _ => takePair_hands p t k position pair
  | corrected position c calls wake =>
    exact Hands.first (finishCall_mild c) (finishCall_mild c) fun _ _ _ => correct_hands p t k position pair calls

/-- A pair service that looks for a slot gives its task up if the application has been aborted, and only then. -/
theorem tryPair_gives_up (p : ProcessId) (t : PairTask) (k : Nat) : Ends (tryPair p t k) w fun flow _ =>
    (flow = .go (.settling t.request) ↔ w.part.service.isAborted t.request.app = true) := by
  refine .bind fun s w₁ hs => ?_
  cases hs
  split
  · rename_i ha
    exact .bind fun _ _ _ => .pure (iff_of_true rfl ha)
  · rename_i ha
    have hcall : ∀ position, Yields (fun flow => flow ≠ .go (.settling t.request))
        (callLink t k position : NodeWork n m (Step m)) :=
      fun position => .bind fun _ => .bind fun _ => .bind fun _ => .pure nofun
    have hwait : Yields (fun flow => flow ≠ .go (.settling t.request)) (do
        modifyService fun s => { s with allocationWaits := s.allocationWaits + 1 }
        Node.log .info "Netstack" "no communication qubit available, waiting for a free"
        Work.modifyPart fun node => { node with memoryFreed := node.memoryFreed.wait p }
        return .rest (.starving t k) : NodeWork n m (Step m)) :=
      .bind fun _ => .bind fun _ => .bind fun _ => .pure nofun
    refine .attempt (fun position w₁ _ => ?_) fun _ w₁ _ => ?_
    · exact (hcall position w₁).mono fun _ _ hne => iff_of_false hne ha
    · exact (hwait w₁).mono fun _ _ hne => iff_of_false hne ha

theorem step_gives_up (p : ProcessId) {stage : PairStage} (h : Asks t k stage) (wake : Wake) :
    Ends (step p stage wake) w fun flow _ =>
      (flow = .go (.settling t.request) ↔ w.part.service.isAborted t.request.app = true) := by
  have hlog : ∀ text, Ends (do Node.log .info "Netstack" text; tryPair p t k : NodeWork n m (Step m)) w fun flow _ =>
      (flow = .go (.settling t.request) ↔ w.part.service.isAborted t.request.app = true) := fun text =>
    .bind <| (Execution.log_ends _ _ _).mono fun _ w₁ h₁ => h₁ ▸ tryPair_gives_up p t k
  cases h with
  | next hk =>
    unfold step beginPair
    dsimp only
    rw [if_pos hk]
    exact hlog _
  | starving => exact hlog _

/-- A link has been asked for a pair of a task, and the pair has not been handed over yet. -/
inductive UnderWay (t : PairTask) (k : Nat) : PairStage → Prop where
  | linking (position : Nat) : UnderWay t k (.linking t k position)
  | correcting (position : Nat) (pair : Pair) (c : DeviceCall) (calls : List DeviceCall) :
      UnderWay t k (.correcting t k position pair c calls)

theorem Gets.underWay {stage : PairStage} {wake : Wake} (h : Gets t k pair stage wake) : UnderWay t k stage := by
  cases h with
  | answered position => exact .linking position
  | corrected position c calls wake => exact .correcting position pair c calls

/-- A pair comes under way when a link is asked for it. -/
theorem Deed.underWay {here : Fin n} {port : Int → Option (Fin m × LinkEnd)} {recorded : PairTask → Nat → Pair → Prop}
    {stage : PairStage} {wake : Wake} {took told : Option (Fin n × PeerMessage)}
    (h : Deed here port recorded stage wake took told flow) (hw : UnderWay t k flow.stage) :
    UnderWay t k stage ∨ Asks t k stage ∧ ∃ stage' l e c, flow = .call stage' l e c := by
  cases h with
  | conclude _ _ =>
    unfold EntanglementRequest.concluded at hw
    split at hw
    · exact nomatch hw
    · exact nomatch hw
  | ask ha _ _ _ =>
    cases hw with
    | linking position => exact .inr ⟨ha, _, _, _, _, rfl⟩
  | bide _ => exact .inl hw
  | correct hg =>
    cases hw with
    | correcting position pair c calls => exact .inl hg.underWay
  | _ => exact nomatch hw

end Pairing

end QuantumNode
