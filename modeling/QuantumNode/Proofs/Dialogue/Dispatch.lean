import QuantumNode.Proofs.Dialogue.Basic
import QuantumNode.Proofs.Simulation.Channel

/-! What a dispatcher has to say to its host. It takes one message at a time. Who registers an application is told its
id, who hands in a subroutine is told the memory that it leaves or that it has been aborted, and nothing else is
answered. -/
namespace QuantumNode

open Node Work Working

variable {n m : Nat}

/-- What passes between a host and its node. -/
inductive Utterance where
  /-- The node takes a message of its host. -/
  | heard (text : String)
  | said (text : String)
  deriving DecidableEq

/-- What a message of a host is answered with, in the end. -/
inductive HostMessage.Calls : HostMessage → List NodeMessage → Prop where
  | registered (maxQubits : Nat) (app : Int) : Calls (.initNewApp maxQubits) [.appId app]
  | opened (app socket remote : Int) : Calls (.openSocket app socket remote) []
  | executed (text : String) (s : MemorySnapshot) : Calls (.subroutine text) [.memory s]
  | aborted (text reason : String) : Calls (.subroutine text) [.abort reason]
  | stopped (app : Int) : Calls (.stopApp app) []

/-- The id that a message hands out. -/
def NodeMessage.app? : NodeMessage → Option Int
  | .appId app => some app
  | _ => none

/-- A message that has been attended to, with what it has been answered. -/
structure Attended where
  text : String
  message : HostMessage
  answers : List NodeMessage
  decoded : HostMessage.decode text = .ok message
  calls : message.Calls answers

namespace Attended

def utterances (x : Attended) : List Utterance := .heard x.text :: x.answers.map fun a => .said a.encode

/-- The ids that have been handed out. -/
def apps (x : Attended) : List Int := x.answers.filterMap NodeMessage.app?

end Attended

/-- What has passed when messages have been dealt with, and one may still have to be. -/
def transcript (done : List Attended) (pending : Option String) : List Utterance :=
  done.flatMap Attended.utterances ++ (pending.map Utterance.heard).toList

theorem transcript_append (done more : List Attended) (pending : Option String) :
    transcript (done ++ more) pending = done.flatMap Attended.utterances ++ transcript more pending := by
  rw [transcript, transcript, List.flatMap_append, List.append_assoc]

/-- Ids that have been handed out one after the other, from the first to the next. -/
structure Handed (apps : List Int) (first next : Nat) : Prop where
  ascending : apps.Pairwise (· < ·)
  bounds : ∀ app ∈ apps, (first : Int) ≤ app ∧ app < next
  le : first ≤ next

namespace Handed

variable {apps more : List Int} {a b c : Nat}

theorem none (h : a ≤ b) : Handed [] a b := ⟨.nil, nofun, h⟩

theorem one {app : Int} (ha : app = a) (hb : b = a + 1) : Handed [app] a b := by
  refine ⟨List.pairwise_singleton _ _, fun x hx => ?_, by omega⟩
  obtain rfl := List.mem_singleton.1 hx
  omega

theorem append (h : Handed apps a b) (h' : Handed more b c) : Handed (apps ++ more) a c := by
  refine ⟨List.pairwise_append.2 ⟨h.ascending, h'.ascending, fun x hx y hy => ?_⟩, fun x hx => ?_, Nat.le_trans h.le h'.le⟩
  · have := (h.bounds x hx).2
    have := (h'.bounds y hy).1
    omega
  · have := h.le
    have := h'.le
    rcases List.mem_append.1 hx with hx | hx
    · have := h.bounds x hx
      omega
    · have := h'.bounds x hx
      omega

end Handed

/-- A text of a host that hands in a subroutine. -/
def IsSubmission (text : String) : Prop := ∃ body, HostMessage.decode text = .ok (.subroutine body)

/-- What a dispatcher has still to do at a stage, and the message that it is to answer. -/
inductive Dispatcher.Owes (d : Dispatcher) : Option String → DispatchStage → Prop where
  | nothing (h : ∀ app, d.queue app = []) : Owes d none .idle
  | submitted {text : String} {app : Int} (ht : IsSubmission text) (hone : (d.queue app).length = 1)
      (hrest : ∀ other, other ≠ app → d.queue other = []) : Owes d (some text) (.serving app)
  | executing {text : String} {app : Int} {e : Execution} (ht : IsSubmission text) (h : ∀ app, d.queue app = []) :
      Owes d (some text) (.running app e)
  | answered {app : Int} (h : ∀ app, d.queue app = []) : Owes d none (.serving app)

namespace Dispatch

/-! Queues. -/

theorem firstPending?_eq_none {d : Dispatcher} (ha : d.apps.Ascending) (h : ∀ app, d.queue app = []) :
    firstPending? d = none := by
  rw [firstPending?, Option.map_eq_none_iff, List.find?_eq_none]
  intro e he
  have hq : (d.apps.get? e.1).elim [] RunningApp.pending = [] := h e.1
  rw [ha.get?_of_mem he] at hq
  simp [show e.2.pending = [] from hq]

theorem queue_of_firstPending? {d : Dispatcher} (ha : d.apps.Ascending) {app : Int} (h : firstPending? d = some app) :
    d.queue app ≠ [] := by
  obtain ⟨e, he, rfl⟩ := Option.map_eq_some_iff.1 h
  rw [Dispatcher.queue, ha.get?_of_mem (List.mem_of_find?_eq_some he)]
  simpa using List.find?_some he

theorem firstPending?_ne_none {d : Dispatcher} {app : Int} (h : d.queue app ≠ []) : firstPending? d ≠ none := by
  rw [firstPending?, ne_eq, Option.map_eq_none_iff, List.find?_eq_none]
  intro hnone
  rcases hget : d.apps.get? app with _ | a
  · simp [Dispatcher.queue, hget] at h
  · have := hnone _ (SortedMap.mem_entries_of_get? hget)
    simp [Dispatcher.queue, hget] at h
    simp [h] at this

/-! What messages come to. -/

/-- What becomes of a message that is applied: it is dealt with, or its subroutine is the only one to be executed. -/
inductive Applied (i : Fin n) (w w' : Working (Node n m) n m) : HostMessage → Prop where
  | settled {message : HostMessage} {answers : List NodeMessage} (hcalls : message.Calls answers)
      (hsaid : w'.replies i = w.replies i ++ answers.map NodeMessage.encode) (hbooks : w.part.NoBusier w'.part)
      (happs : Handed (answers.filterMap NodeMessage.app?) w.part.dispatcher.nextApp w'.part.dispatcher.nextApp) :
      Applied i w w' message
  | submitted {text : String} (app : Int) (hsaid : w'.replies i = w.replies i) (hid : w'.part.id = w.part.id)
      (hnext : w'.part.dispatcher.nextApp = w.part.dispatcher.nextApp) (hh : w'.part.Housed)
      (hone : (w'.part.dispatcher.queue app).length = 1)
      (hrest : ∀ other, other ≠ app → w'.part.dispatcher.queue other = []) : Applied i w w' (.subroutine text)

variable {i : Fin n} {w : Working (Node n m) n m}

theorem reply_ends (hid : w.part.id = i) (message : NodeMessage) : Ends (reply message) w fun _ w' =>
    w'.part = w.part ∧ w'.replies i = w.replies i ++ [message.encode] := fun _ w' he => by
  have hw : w' = { w with effects := w.effects.push (.send (.toHost w.part.id) message.encode) } :=
    (Prod.mk.inj he).2.symm
  subst hw
  refine ⟨rfl, ?_⟩
  rw [replies_push, Effect.reply?, if_pos hid]
  rfl

/-- A subroutine joins the queue of its application. -/
theorem addSubroutine_ends (app : Int) (s : Subroutine) : Ends (addSubroutine app s) w fun _ w' =>
    (∀ host, w'.replies host = w.replies host) ∧ w'.part.id = w.part.id ∧
      w'.part.dispatcher.nextApp = w.part.dispatcher.nextApp ∧ (w.part.Housed → w'.part.Housed) ∧
        ∀ other, w'.part.dispatcher.queue other =
          if other = app then w.part.dispatcher.queue app ++ [s] else w.part.dispatcher.queue other := by
  refine .part ?_
  split
  · rename_i hrun
    intro _ w' he
    obtain ⟨a, ha⟩ : ∃ a, w.part.dispatcher.apps.get? app = some a := Option.isSome_iff_exists.1 hrun
    have hmodify : w.part.dispatcher.apps.modify app (fun a => { a with pending := a.pending ++ [s] }) =
        w.part.dispatcher.apps.insert app { a with pending := a.pending ++ [s] } := by
      rw [SortedMap.modify, ha]
    have hw : w' = { w with part.dispatcher.apps := w.part.dispatcher.apps.modify app _ } := (Prod.mk.inj he).2.symm
    rw [hmodify] at hw
    subst hw
    refine ⟨fun _ => rfl, rfl, rfl, fun hh => housed_insert hh (hh.memory app hrun) _, fun other => ?_⟩
    change Dispatcher.queue { w.part.dispatcher with apps := _ } other = _
    rw [queue_insert, show w.part.dispatcher.queue app = a.pending by rw [Dispatcher.queue, ha]; rfl]
  · exact .fail _

theorem apply_ends (message : HostMessage) (hid : w.part.id = i) (hh : w.part.Housed)
    (hq : ∀ app, w.part.dispatcher.queue app = []) : Ends (apply message) w fun _ w' => Applied i w w' message := by
  cases message with
  | initNewApp maxQubits =>
    refine .bind fun app w₁ hx => ?_
    have haside := (initApp_aside maxQubits).of_exec hx
    obtain ⟨happ, hnext⟩ := initApp_ends maxQubits app w₁ hx
    refine (reply_ends (haside.books.id.trans hid) _).mono fun _ w' ⟨hpart, hsaid⟩ => ?_
    rw [haside.replies i] at hsaid
    exact .settled (.registered maxQubits app) hsaid (hpart ▸ haside.books) (.one happ (by rw [hpart, hnext]))
  | openSocket app socket remote =>
    refine Within.next (R := Aside) (log_mild _ _ _) fun _ w₁ h₁ _ w' hx => ?_
    have h : Aside w w' := IsTrans.trans _ _ _ h₁ ((openSocket_mild app socket remote).of_exec hx)
    exact .settled (.opened app socket remote) (by rw [h.replies i]; simp) h.books (.none h.books.nextApp)
  | subroutine text =>
    unfold apply
    dsimp only
    split
    · rename_i s _
      refine (addSubroutine_ends s.appId s).mono fun _ w' ⟨hsaid, hid', hnext, hh', hq'⟩ => ?_
      refine .submitted s.appId (hsaid i) hid' hnext (hh' hh) ?_ fun other ho => ?_
      · rw [hq', if_pos rfl, hq]
        rfl
      · rw [hq', if_neg ho, hq]
    · exact .bind fun _ _ _ => .fail _
  | stopApp app =>
    intro _ w' hx
    have h := (stopApp_aside app).of_exec hx
    exact .settled (.stopped app) (by rw [h.replies i]; simp) h.books (.none h.books.nextApp)

/-! What a step comes to. -/

/-- The text that a dispatcher takes when it goes on. -/
def heard? (node : Node n m) : DispatchStage → Wake → Option String
  | .idle, .text t => some t
  | .idle, _ => node.inbox.items.head?
  | _, _ => none

/-- A dispatcher has heard a text, or none, and has made a step: what has been said by then, and what there is still to
do. It takes a subroutine only at once. -/
structure Continues (i : Fin n) (w w' : Working (Node n m) n m) (heard before : Option String) (done : List Attended)
    (after : Option String) (flow : Step m) : Prop where
  said : ∃ said, w'.replies i = w.replies i ++ said ∧
    transcript [] before ++ ((heard.map Utterance.heard).toList ++ said.map .said) = transcript done after
  apps : Handed (done.flatMap Attended.apps) w.part.dispatcher.nextApp w'.part.dispatcher.nextApp
  owes : w'.part.dispatcher.Owes after flow.stage
  id : w'.part.id = w.part.id
  housed : w'.part.Housed
  atOnce : ∀ app, flow ≠ .rest (.serving app)

namespace Continues

variable {w' w₁ : Working (Node n m) n m} {flow : Step m} {heard before after : Option String} {done : List Attended}

theorem silent (h : Aside w w') (hh : w.part.Housed) (ho : w'.part.dispatcher.Owes before flow.stage)
    (hf : ∀ app, flow ≠ .rest (.serving app)) : Continues i w w' none before [] before flow where
  said := ⟨[], by rw [h.replies i, List.append_nil], by simp⟩
  apps := .none h.books.nextApp
  owes := ho
  id := h.books.id
  housed := h.books.housed hh
  atOnce := hf

/-- Something has been done aside before. -/
theorem after_aside (h : Aside w w₁) (h' : Continues i w₁ w' heard before done after flow) :
    Continues i w w' heard before done after flow where
  said := h.replies i ▸ h'.said
  apps := by
    have := (Handed.none h.books.nextApp).append h'.apps
    rwa [List.nil_append] at this
  owes := h'.owes
  id := h'.id.trans h.books.id
  housed := h'.housed
  atOnce := h'.atOnce

end Continues

/-- What a step of a dispatcher comes to that is to answer a message, or none. -/
def Speaks (i : Fin n) (w : Working (Node n m) n m) (heard before : Option String) (flow : Step m)
    (w' : Working (Node n m) n m) : Prop :=
  ∃ done after, Continues i w w' heard before done after flow

theorem Speaks.after_aside {w w' w₁ : Working (Node n m) n m} {flow : Step m} {heard before : Option String}
    (h' : Speaks i w₁ heard before flow w') (h : Aside w w₁) : Speaks i w heard before flow w' := by
  obtain ⟨done, after, h'⟩ := h'
  exact ⟨done, after, h'.after_aside h⟩

theorem takeMessage_ends (text : String) (hid : w.part.id = i) (hh : w.part.Housed)
    (hq : ∀ app, w.part.dispatcher.queue app = []) :
    Ends (takeMessage text) w (Speaks i w (some text) none) := by
  unfold takeMessage
  split
  · exact .bind fun _ _ _ => .fail _
  · rename_i message hdecode
    refine .bind <| (apply_ends message hid hh hq).mono fun _ w' happ => .part ?_
    cases happ with
    | @settled _ answers hcalls hsaid hbooks happs =>
      have hq' : ∀ app, w'.part.dispatcher.queue app = [] := fun app => (hbooks.queue app).elim id (·.trans (hq app))
      have hh' := hbooks.housed hh
      rw [firstPending?_eq_none hh'.ascending hq']
      refine .pure ⟨[⟨text, message, answers, hdecode, hcalls⟩], none, ⟨_, hsaid, ?_⟩, ?_, .nothing hq', hbooks.id, hh',
        nofun⟩
      · simp [transcript, Attended.utterances]
      · simpa [Attended.apps] using happs
    | @submitted body app hsaid hid' hnext hh' hone hrest =>
      have ho : ∀ app', firstPending? w'.part.dispatcher = some app' → app' = app := fun app' hp => by
        refine Decidable.byContradiction fun hne => ?_
        exact queue_of_firstPending? hh'.ascending hp (hrest app' hne)
      have hne : w'.part.dispatcher.queue app ≠ [] := fun h => by
        rw [h] at hone
        exact nomatch hone
      cases hp : firstPending? w'.part.dispatcher with
      | none => exact absurd hp (firstPending?_ne_none hne)
      | some app' =>
        obtain rfl := ho app' hp
        refine .pure ⟨[], some text, ⟨[], by rw [hsaid, List.append_nil], by simp [transcript]⟩, ?_, ?_, hid', hh', nofun⟩
        · exact .none (Nat.le_of_eq hnext.symm)
        · exact .submitted ⟨body, hdecode⟩ hone hrest

theorem awaitMessage_ends (p : ProcessId) (hid : w.part.id = i) (hh : w.part.Housed)
    (hq : ∀ app, w.part.dispatcher.queue app = []) :
    Ends (awaitMessage p) w (Speaks i w w.part.inbox.items.head? none) := by
  refine .part ?_
  rcases hr : w.part.inbox.receive p with ⟨text, inbox⟩
  have haside : Aside w { w with part.inbox := inbox } := .of_same rfl rfl rfl
  rw [Channel.head?_receive w.part.inbox p, hr]
  refine .setPart ?_
  cases text with
  | some text =>
    have htake := takeMessage_ends (w := { w with part.inbox := inbox }) text hid (haside.books.housed hh) hq
    exact htake.mono fun _ _ h => h.after_aside haside
  | none => exact .pure ⟨[], none, .silent haside hh (.nothing hq) (by simp)⟩

theorem serve_ends {app : Int} {before : Option String} (hh : w.part.Housed)
    (ho : w.part.dispatcher.Owes before (.serving app)) : Ends (serve app) w (Speaks i w none before) := by
  refine .part ?_
  split
  · rename_i maxQubits s pending hget
    have hqueue : w.part.dispatcher.queue app = s :: pending := by
      rw [Dispatcher.queue, hget]
      rfl
    cases ho with
    | submitted ht hone hrest =>
      obtain rfl : pending = [] := by simpa [hqueue] using hone
      have hrun : isRunning w.part app = true := by simp [isRunning, SortedMap.contains, hget]
      refine .modifyPart <| .pure ⟨[], _, .silent (.of_part (noBusier_insert maxQubits (hh.memory app hrun))) hh ?_ (by simp)⟩
      refine .executing ht fun other => ?_
      change Dispatcher.queue { w.part.dispatcher with apps := _ } other = []
      rw [queue_insert]
      split
      · rfl
      · rename_i hne
        exact hrest other hne
    | answered h => exact absurd (hqueue.symm.trans (h app)) (List.cons_ne_nil s pending)
  · rename_i hget
    refine .pure ⟨[], _, .silent (Std.Refl.refl w) hh ?_ (by simp)⟩
    cases ho with
    | submitted ht hone hrest =>
      obtain ⟨s, hs⟩ := List.length_eq_one_iff.1 hone
      rw [Dispatcher.queue] at hs
      rcases happ : w.part.dispatcher.apps.get? app with _ | a
      · rw [happ] at hs
        cases hs
      · rw [happ] at hs
        exact absurd (happ.trans (congrArg some (show a = ⟨a.maxQubits, [s]⟩ by rw [← hs]; rfl))) (hget _ _ _)
    | answered h => exact .nothing h

theorem answer_ends {app : Int} {e : Execution} {before : Option String} (status : ExecutionStatus) (hid : w.part.id = i)
    (hh : w.part.Housed) (ho : w.part.dispatcher.Owes before (.running app e)) :
    Ends (answer app status) w (Speaks i w none before) := by
  cases ho with
  | @executing text _ _ ht h =>
    obtain ⟨body, hdecode⟩ := ht
    -- Whatever the answer is, it is the only thing said, and there is nothing left to do.
    have hlast : ∀ {w₁ : Working (Node n m) n m}, Aside w w₁ → ∀ message : NodeMessage,
        HostMessage.Calls (.subroutine body) [message] → message.app? = none →
        Ends (do reply message; return .go (.serving app) : NodeWork n m (Step m)) w₁ (Speaks i w none (some text)) :=
      fun {w₁} h₁ message hcalls hnone => .bind <| (reply_ends (h₁.books.id.trans hid) message).mono
        fun _ w' ⟨hpart, hsaid⟩ => .pure ⟨[⟨text, _, [message], hdecode, hcalls⟩], none, {
          said := ⟨[message.encode], by rw [hsaid, h₁.replies], by simp [transcript, Attended.utterances]⟩
          apps := by
            rw [hpart]
            simpa [Attended.apps, hnone] using Handed.none h₁.books.nextApp
          owes := .answered fun app => by
            rw [hpart]
            exact (h₁.books.queue app).elim id (·.trans (h app))
          id := by rw [hpart, h₁.books.id]
          housed := hpart ▸ h₁.books.housed hh
          atOnce := nofun }⟩
    have hcount : Aside w { w with part.dispatcher.subroutinesRun := w.part.dispatcher.subroutinesRun + 1 } :=
      .of_part ⟨rfl, Nat.le_refl _, fun _ => .inr rfl, fun h => ⟨h.ascending, h.memory⟩⟩
    refine .modifyPart ?_
    cases status with
    | ok =>
      refine Within.next (R := Aside) (memory_mild app) fun mem w₂ h₂ => ?_
      exact hlast (IsTrans.trans _ _ _ hcount h₂) _ (.executed body _) rfl
    | aborted =>
      refine (clearApp_aside app).next fun _ w₂ h₂ => ?_
      exact hlast (IsTrans.trans _ _ _ hcount h₂) _ (.aborted body _) rfl

/-- A dispatcher says what it is to say, and nothing else. -/
theorem step_ends (p : ProcessId) {stage : DispatchStage} (wake : Wake) {before : Option String} (hid : w.part.id = i)
    (hh : w.part.Housed) (ho : w.part.dispatcher.Owes before stage) :
    Ends (step p stage wake) w (Speaks i w (heard? w.part stage wake) before) := by
  cases ho with
  | nothing h =>
    cases wake with
    | text t => exact takeMessage_ends t hid hh h
    | _ => exact awaitMessage_ends p hid hh h
  | submitted ht hone hrest => exact serve_ends hh (.submitted ht hone hrest)
  | answered h => exact serve_ends hh (.answered h)
  | @executing text app e ht h =>
    refine (Execution.step_aside p e).next fun flow w₁ h₁ => ?_
    have hq : ∀ app, w₁.part.dispatcher.queue app = [] := fun app => (h₁.books.queue app).elim id (·.trans (h app))
    have hh₁ := h₁.books.housed hh
    cases flow with
    | go e' => exact .pure ⟨[], _, .silent h₁ hh (.executing ht hq) nofun⟩
    | rest e' => exact .pure ⟨[], _, .silent h₁ hh (.executing ht hq) nofun⟩
    | call e' l _ c => exact .pure ⟨[], _, .silent h₁ hh (.executing ht hq) nofun⟩
    | finished status =>
      exact (answer_ends (e := e) status (h₁.books.id.trans hid) hh₁ (.executing ht hq)).mono fun _ _ h => h.after_aside h₁

end Dispatch

end QuantumNode
