import QuantumNode.Proofs.Dialogue.Dispatch
import QuantumNode.Proofs.Network.Rehearsal

/-! Along every run, as long as no fault escapes the dispatcher of a node, every message of the host is answered before
the next one is taken. -/
namespace QuantumNode

open Node Work Working

variable {n m : Nat}

/-- What a node at work has said to a host. -/
def Working.said (w : Working (Node n m) n m) (host : Fin n) : List Utterance := (w.replies host).map .said

namespace Network

/-- What the process that goes on hears and says in the dialogue of a node with its host. -/
def utterances (s : Network n m) (i : Fin n) : List Utterance :=
  match s.current with
  | none => []
  | some (p, wake) =>
    match s.processes.get? p with
    | some ⟨_, .pairing j stage⟩ => if j = i then ((Pairing.step p stage wake).exec (s.working i)).2.said i else []
    | some ⟨_, .dispatch j stage⟩ =>
      if j = i then ((Dispatch.heard? (s.node i) stage wake).map .heard).toList ++
        ((Dispatch.step p stage wake).exec (s.working i)).2.said i
      else []
    | _ => []

/-- What is heard and said in a step of a run, whoever is behind it. -/
def talk (s : Network n m) (i : Fin n) : Cause n → List Utterance
  | .network => s.utterances i
  | .client (.atNode j a) => if j = i then (a.work.exec (s.working i)).2.said i else []
  | .client _ => []
  | .slots j a => if j = i then (a.work.exec (s.working i)).2.said i else []

/-- All that has been heard and said, in order. -/
def dialogue (past : List (Network n m × Cause n)) (i : Fin n) : List Utterance :=
  past.reverse.flatMap fun x => x.1.talk i x.2

/-- No fault escapes the dispatcher of a node if it is to go on. -/
def Copes (s : Network n m) (i : Fin n) : Prop := ∀ name stage wake,
  s.processes.get? (dispatchId i) = some ⟨name, .dispatch i stage⟩ → s.current = some (dispatchId i, wake) →
    ∃ flow w, (Dispatch.step (dispatchId i) stage wake).exec (s.working i) = (.ok flow, w)

/-- A node in a dialogue with its host, and the message that it is to answer. -/
structure Conversing (s : Network n m) (i : Fin n) (pending : Option String) : Prop where
  id : (s.node i).id = i
  housed : (s.node i).Housed
  owes : (s.node i).dispatcher.Owes pending (s.dispatchStage i)
  /-- A dispatcher that is to take a subroutine goes on at once. -/
  turn : ∀ app, s.dispatchStage i = .serving app → s.current.map Prod.fst = some (dispatchId i)

/-- A dialogue goes on from one state to another. -/
def Furthers (s : Network n m) (i : Fin n) (pending : Option String) (said : List Utterance) (s' : Network n m) : Prop :=
  ∃ done after, transcript [] pending ++ said = transcript done after ∧
    Handed (done.flatMap Attended.apps) (s.node i).dispatcher.nextApp (s'.node i).dispatcher.nextApp ∧ s'.Conversing i after

variable {s s' : Network n m} {i : Fin n} {pending : Option String}

theorem noBusier_commit {j : Fin n} {w : Working (Node n m) n m} (h : Aside (s.working j) w) (i : Fin n) :
    (s.node i).NoBusier ((s.commit j w).node i) := by
  have hslots := commit_slots s j w i
  split at hslots
  · rename_i hij
    subst hij
    exact h.books.trans (.of_slots hslots)
  · exact .of_slots hslots

theorem said_of_aside {w : Working (Node n m) n m} (h : Aside (s.working i) w) : w.said i = [] := by
  rw [said, h.replies i]
  rfl

/-- Something happens beside the dialogue. -/
theorem Conversing.aside (h : s.Conversing i pending) (hb : (s.node i).NoBusier (s'.node i))
    (hst : s'.dispatchStage i = s.dispatchStage i) (hserve : ∀ app, s.dispatchStage i ≠ .serving app) :
    s.Furthers i pending [] s' := by
  refine ⟨[], pending, by rw [List.append_nil], .none hb.nextApp, hb.id.trans h.id, hb.housed h.housed, ?_, ?_⟩
  · have hq : (∀ app, (s.node i).dispatcher.queue app = []) → ∀ app, (s'.node i).dispatcher.queue app = [] :=
      fun hq app => (hb.queue app).elim (fun h => h) (·.trans (hq app))
    rw [hst]
    have ho := h.owes
    generalize s.dispatchStage i = stage at ho hserve
    cases ho with
    | nothing hq' => exact .nothing (hq hq')
    | executing ht hq' => exact .executing ht (hq hq')
    | @submitted _ app _ _ _ => exact absurd rfl (hserve app)
    | @answered app _ => exact absurd rfl (hserve app)
  · intro app hserving
    exact absurd (hst.symm.trans hserving) (hserve app)

theorem Conversing.not_serving (h : s.Conversing i pending) (hown : s.current.map Prod.fst ≠ some (dispatchId i))
    (app : Int) : s.dispatchStage i ≠ .serving app := fun hs => hown (h.turn app hs)

/-! Steps of processes. -/

theorem utterances_of_gone {p : ProcessId} {wake : Wake} (hc : s.current = some (p, wake))
    (hp : s.processes.get? p = none) : s.utterances i = [] := by
  simp only [utterances, hc, hp]

/-- A step of a process other than the dispatcher. -/
theorem Conversing.bystands (h : s.Conversing i pending) (ht : s.Treads s')
    (hown : s.current.map Prod.fst ≠ some (dispatchId i)) : s.Furthers i pending (s.utterances i) s' := by
  have hst : s'.dispatchStage i = s.dispatchStage i := dispatchStage_of_get? (ht.processes_of_ne hown)
  cases ht with
  | gone hc hp =>
    rw [utterances_of_gone hc hp]
    exact h.aside (.of_slots (.refl _)) hst (h.not_serving hown)
  | @pairing j name stage wake result w _ hc hp hx hr =>
    have hw : Aside (s.working j) w := (Pairing.step_aside (pairId j) stage wake).of_exec hx
    have hsaid : s.utterances i = [] := by
      simp only [utterances, hc, hp]
      split
      · rename_i hij
        subst hij
        rw [hx]
        exact said_of_aside hw
      · rfl
    rw [hsaid]
    exact h.aside ((noBusier_commit hw i).trans (.of_slots (hr.slots i))) hst (h.not_serving hown)
  | @dispatch j name stage wake result w _ hc hp hx hr =>
    have hij : j ≠ i := fun hij => hown (by rw [hc, hij]; rfl)
    have hslots := hr.slots_commit (i := i)
    rw [if_neg (Ne.symm hij)] at hslots
    have hsaid : s.utterances i = [] := by simp only [utterances, hc, hp, if_neg hij]
    rw [hsaid]
    exact h.aside (.of_slots hslots) hst (h.not_serving hown)
  | @host j name stage wake result w _ hc hp hx hr =>
    have hsaid : s.utterances i = [] := by simp only [utterances, hc, hp]
    have hsp : Spares { s.setHost j w.part with quantum := w.quantum } (s.commitHost j w) := spares_effects _ _
    rw [hsaid]
    exact h.aside (.of_slots ((hsp.slots i).trans (hr.slots i))) hst (h.not_serving hown)

/-- A step of the dispatcher. -/
theorem Conversing.takesTurn (h : s.Conversing i pending) (ht : s.Treads s') (hcopes : s.Copes i)
    (hown : s.current.map Prod.fst = some (dispatchId i)) : s.Furthers i pending (s.utterances i) s' := by
  cases ht with
  | @gone p wake hc hp =>
    obtain rfl : p = dispatchId i := by simpa [hc] using hown
    rw [utterances_of_gone hc hp]
    refine h.aside (.of_slots (.refl _)) rfl fun app hs => ?_
    rw [dispatchStage, hp] at hs
    cases hs
  | @pairing j name stage wake result w _ hc hp hx hr =>
    rw [hc] at hown
    exact absurd (Option.some.inj hown) (pairId_ne_dispatchId j i)
  | @host j name stage wake result w _ hc hp hx hr =>
    rw [hc] at hown
    exact absurd (Option.some.inj hown).symm (dispatchId_ne_hostId i j)
  | @dispatch j name stage wake result w _ hc hp hx hr =>
    obtain rfl : j = i := by
      rw [hc] at hown
      exact dispatchId_inj.1 (Option.some.inj hown)
    have hstage : s.dispatchStage j = stage := dispatchStage_eq hp
    have hslots := hr.slots_commit (i := j)
    rw [if_pos rfl] at hslots
    cases result with
    | error f =>
      obtain ⟨flow, w', hok⟩ := hcopes name stage wake hp hc
      cases hx.symm.trans hok
    | ok flow =>
      rcases hr with ⟨_, hflow, hr⟩ | ⟨hasks, -⟩
      · cases hflow
        have hsteps := Dispatch.step_ends (w := s.working j) (dispatchId j) wake h.id h.housed (hstage ▸ h.owes)
        obtain ⟨done, after, hcont⟩ := hsteps flow w hx
        obtain ⟨said, hreplies, htranscript⟩ := hcont.said
        refine ⟨done, after, ?_, by rw [hslots.dispatcher]; exact hcont.apps, ?_⟩
        · have hsaid : w.said j = said.map .said := by
            rw [Working.said, hreplies]
            rfl
          simp only [utterances, hc, hp, if_pos, hx, hsaid]
          exact htranscript
        · refine ⟨hslots.id.trans (hcont.id.trans h.id), (NoBusier.of_slots hslots).housed hcont.housed, ?_, ?_⟩
          · rw [hr.dispatchStage, hslots.dispatcher]
            exact hcont.owes
          · intro app hserving
            rw [hr.dispatchStage] at hserving
            cases flow with
            | go stage' =>
              cases hr with
              | go _ => rfl
            | rest stage' => exact absurd (congrArg Flow.rest hserving) (hcont.atOnce app)
            | call _ _ _ _ => cases dispatch_asks hx
            | finished e => cases e
      · have hmap := hasks _ rfl
        rw [Flow.asks_map, dispatch_asks hx] at hmap
        cases hmap

/-! Runs. -/

theorem Happens.furthers (hf : s.Happens .network s') (hs : s.Crewed) (h : s.Conversing i pending) (hcopes : s.Copes i) :
    s.Furthers i pending (s.utterances i) s' := by
  -- Between two turns nothing is said, and no dispatcher is to take a subroutine.
  have hidle : s.current = none → s.utterances i = [] ∧ ∀ app, s.dispatchStage i ≠ .serving app := fun hc =>
    ⟨by simp only [utterances, hc], h.not_serving (by simp [hc])⟩
  cases hf with
  | start hc =>
    rw [(hidle hc).1]
    exact h.aside (by rw [start_node]; exact .of_slots (.refl _)) (start_dispatchStage hs i) (hidle hc).2
  | hear hc _ =>
    rw [(hidle hc).1]
    exact h.aside (.of_slots (.refl _)) rfl (hidle hc).2
  | pass hc hspares _ =>
    rw [(hidle hc).1]
    exact h.aside (.of_slots (hspares.slots i)) (dispatchStage_congr hspares.processes i) (hidle hc).2
  | @labour _ j _ a hc _ hx =>
    cases hx with
    | news =>
      let s₁ : Network n m := { s with agenda := a }
      rw [(hidle hc).1]
      exact h.aside (noBusier_commit (s := s₁) (notifyNews_aside (s₁.working j)) i)
        (dispatchStage_congr (spares_commit _ _ _).processes i) (hidle hc).2
  | tread ht =>
    by_cases hown : s.current.map Prod.fst = some (dispatchId i)
    · exact h.takesTurn ht hcopes hown
    · exact h.bystands ht hown

/-- A dialogue goes on with every step of a run. -/
theorem Follows.furthers {cause : Cause n} (hf : s.Follows cause s') (hs : s.Crewed) (h : s.Conversing i pending)
    (hcopes : s.Copes i) : s.Furthers i pending (s.talk i cause) s' := by
  -- Work from outside says nothing.
  have hwork : s.current = none → ∀ j (x : NodeWork n m Unit), Within Aside x →
      s.Furthers i pending (if j = i then (x.exec (s.working i)).2.said i else []) (s.atNode j x).2 := fun hc j x hx => by
    have hsaid : (if j = i then (x.exec (s.working i)).2.said i else []) = [] := by
      rw [said_of_aside (hx (s.working i)), ite_self]
    rw [hsaid]
    exact h.aside (noBusier_commit (hx (s.working j)) i) (dispatchStage_congr (spares_commit _ _ _).processes i)
      (h.not_serving (by simp [hc]))
  have hspares : s.current = none → Spares s s' → s.Furthers i pending [] s' := fun hc hsp =>
    h.aside (.of_slots (hsp.slots i)) (dispatchStage_congr hsp.processes i) (h.not_serving (by simp [hc]))
  cases hf with
  | moves hm => exact ((Follows.moves hm).happens hs).furthers hs h hcopes
  | fails hfail => exact (Happens.tread (treads_of_failed hs hfail)).furthers hs h hcopes
  | act hc a =>
    cases a with
    | atNode j a => exact hwork hc j a.work a.work_aside
    | post j text => exact hspares hc (spares_send _ _ _)
    | enqueue j p times => exact hspares hc (spares_of_nodes rfl rfl rfl rfl rfl)
    | alarm delay k => exact hspares hc (spares_schedule _ _ _)
  | slots hc j a => exact hwork hc j a.work a.work_aside

theorem Built.converses (h : s.Built) (i : Fin n) : s.Conversing i none := by
  refine ⟨h.id i, ⟨?_, fun app hrun => ?_⟩, ?_, fun app hs => ?_⟩
  · rw [h.dispatcher i]
    exact SortedMap.ascending_empty
  · rw [Dispatch.isRunning, h.dispatcher i] at hrun
    cases hrun
  · rw [h.dispatchStage, h.dispatcher i]
    exact .nothing fun _ => rfl
  · rw [h.dispatchStage] at hs
    cases hs

/-- A dispatcher copes as long as no fault escapes anybody. -/
theorem Trace.copes {c : NetworkConfig} {may : ClientAct c.nodes.length → Prop}
    {past : List (Moment c.nodes.length c.links.length)} {s : Network c.nodes.length c.links.length}
    (h : Trace c may past s) (i : Fin c.nodes.length) : ∀ x ∈ past, x.state.Copes i := by
  have hnone : ∀ {s : Network c.nodes.length c.links.length}, s.current = none → s.Copes i := fun hc _ _ _ _ hown => by
    rw [hc] at hown
    exact nomatch hown
  induction h with
  | built _ => exact fun _ hx => nomatch hx
  | @act past s s' _ _ _ hc _ ih =>
    intro x hx
    rcases List.mem_cons.1 hx with rfl | hx
    · exact hnone hc
    · exact ih x hx
  | @move past s s' hprev hm ih =>
    intro x hx
    rcases List.mem_cons.1 hx with rfl | hx
    · cases hm with
      | start hc => exact hnone hc
      | begin hc _ => exact hnone hc
      | wait hc _ => exact hnone hc
      | proceed hwent =>
        intro name stage wake hp hown
        cases advances_of_went hprev.crewed hwent with
        | gone hc hgone =>
          cases hown.symm.trans hc
          exact nomatch hp.symm.trans hgone
        | @pairing j _ _ _ _ _ _ hc _ _ _ =>
          have hid := (Prod.mk.inj (Option.some.inj (hown.symm.trans hc))).1
          exact absurd hid.symm (pairId_ne_dispatchId j i)
        | @host j _ _ _ _ _ _ hc _ _ _ =>
          have hid := (Prod.mk.inj (Option.some.inj (hown.symm.trans hc))).1
          exact absurd hid (dispatchId_ne_hostId i j)
        | @dispatch j _ _ _ flow w _ hc hp' hx _ =>
          obtain ⟨hid, rfl⟩ := Prod.mk.inj (Option.some.inj (hown.symm.trans hc))
          obtain rfl := dispatchId_inj.1 hid
          cases hp.symm.trans hp'
          exact ⟨flow, w, hx⟩
    · exact ih x hx

/-- Along every run in which a dispatcher copes the dialogue goes on. -/
theorem Course.converses {c : NetworkConfig} {past : List (Stride c.nodes.length c.links.length)}
    {s : Network c.nodes.length c.links.length} (h : Course c past s) (i : Fin c.nodes.length)
    (hcopes : ∀ x ∈ past, x.before.Copes i) :
    ∃ done pending, dialogue (past.map fun x => (x.before, x.cause)) i = transcript done pending ∧
      Handed (done.flatMap Attended.apps) 0 (s.node i).dispatcher.nextApp ∧ s.Conversing i pending := by
  induction h with
  | built h => exact ⟨[], none, rfl, .none (Nat.zero_le _), (built_of_build h).converses i⟩
  | @step past s s' cause hprev hf ih =>
    obtain ⟨done, pending, hdialogue, happs, hconv⟩ := ih fun x hx => hcopes x (List.mem_cons_of_mem _ hx)
    obtain ⟨more, after, htranscript, hmore, hconv'⟩ := hf.furthers hprev.crewed hconv (hcopes _ List.mem_cons_self)
    refine ⟨done ++ more, after, ?_, by rw [List.flatMap_append]; exact happs.append hmore, hconv'⟩
    rw [dialogue, List.map_cons, List.reverse_cons, List.flatMap_append, ← dialogue, hdialogue, transcript_append,
      ← htranscript, ← List.append_assoc, ← transcript_append, List.append_nil]
    simp

/-- Along every run in which no fault escapes the dispatcher of a node, every message of its host is answered as it calls
for, and before the next one is taken; only a subroutine may still wait for its answer. Ids of applications are handed
out in ascending order. When all has been answered no application has a subroutine left, and every application that
runs has a memory. -/
theorem messages_are_answered_in_turn {c : NetworkConfig} {past : List (Stride c.nodes.length c.links.length)}
    {s : Network c.nodes.length c.links.length} (h : Course c past s) (i : Fin c.nodes.length)
    (hcopes : ∀ x ∈ past, x.before.Copes i) :
    ∃ done pending, dialogue (past.map fun x => (x.before, x.cause)) i = transcript done pending ∧
      (done.flatMap Attended.apps).Pairwise (· < ·) ∧
      (∀ text, pending = some text → IsSubmission text ∧ s.dispatchStage i ≠ .idle) ∧
      (pending = none → ∀ app, (s.node i).dispatcher.queue app = []) ∧
      ∀ app, Dispatch.isRunning (s.node i) app = true → (s.node i).hasApp app = true := by
  obtain ⟨done, pending, hdialogue, happs, hconv⟩ := h.converses i hcopes
  refine ⟨done, pending, hdialogue, happs.ascending, ?_, ?_, hconv.housed.memory⟩
  · rintro text rfl
    have ho := hconv.owes
    generalize s.dispatchStage i = stage at ho
    cases ho with
    | submitted ht _ _ => exact ⟨ht, nofun⟩
    | executing ht _ => exact ⟨ht, nofun⟩
  · rintro rfl
    have ho := hconv.owes
    generalize s.dispatchStage i = stage at ho
    cases ho with
    | nothing hq => exact hq
    | answered hq => exact hq

/-- A host registers an application, hands in a subroutine, stops the application and registers another, and waits for
nothing. -/
def duoTalking : List (Direction duo.nodes.length) :=
  [.start, .run 0 100, .act (.post 0 "INIT_NEW_APP 1\n"),
    .act (.post 0 "SUBROUTINE\n# NETQASM 1.0\n# APPID 0\nset R0 1\n"), .act (.post 0 "STOP_APP 0\n"),
    .act (.post 0 "INIT_NEW_APP 1\n"), .run 0 60]

theorem messages_are_answered_in_turn_posted_at_once : ∃ past s, Course duo past s ∧ (∀ x ∈ past, x.before.Copes 0) ∧
    dialogue (past.map fun x => (x.before, x.cause)) 0 =
      [.heard "INIT_NEW_APP 1\n", .said "APP_ID 0\n", .heard "SUBROUTINE\n# NETQASM 1.0\n# APPID 0\nset R0 1\n",
        .said "APP_MEMORY 0\nREG R0 1\n", .heard "STOP_APP 0\n", .heard "INIT_NEW_APP 1\n", .said "APP_ID 1\n"] ∧
    ∃ done pending, dialogue (past.map fun x => (x.before, x.cause)) 0 = transcript done pending ∧
      (done.flatMap Attended.apps).Pairwise (· < ·) ∧
      (∀ text, pending = some text → IsSubmission text ∧ s.dispatchStage 0 ≠ .idle) ∧
      (pending = none → ∀ app, (s.node 0).dispatcher.queue app = []) ∧
      ∀ app, Dispatch.isRunning (s.node 0) app = true → (s.node 0).hasApp app = true := by
  obtain ⟨moments, s, ht, hs⟩ := Trace.exists_of_rehearse duo (fun _ => True) duoTalking
    (fun r => dialogue (r.1.map fun x => (x.state, x.cause)) 0 =
      [.heard "INIT_NEW_APP 1\n", .said "APP_ID 0\n", .heard "SUBROUTINE\n# NETQASM 1.0\n# APPID 0\nset R0 1\n",
        .said "APP_MEMORY 0\nREG R0 1\n", .heard "STOP_APP 0\n", .heard "INIT_NEW_APP 1\n", .said "APP_ID 1\n"])
    (by decide +kernel) (fun _ _ => trivial)
  obtain ⟨past, hcourse, hpast⟩ := ht.strides
  have hcopes : ∀ x ∈ past, x.before.Copes 0 := fun x hx => by
    have hmem : (x.before, x.cause) ∈ moments.map fun y => (y.state, y.cause) :=
      hpast ▸ List.mem_map_of_mem (f := fun x => (x.before, x.cause)) hx
    obtain ⟨y, hy, heq⟩ := List.mem_map.1 hmem
    rw [← (Prod.mk.inj heq).1]
    exact ht.copes 0 y hy
  refine ⟨past, s, hcourse, hcopes, ?_, messages_are_answered_in_turn hcourse 0 hcopes⟩
  rw [hpast]
  exact of_decide_eq_true hs

end Network

end QuantumNode
