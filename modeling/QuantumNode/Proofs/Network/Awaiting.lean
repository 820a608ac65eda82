import QuantumNode.Proofs.Network.Course
import QuantumNode.Proofs.Network.Rehearsal
import QuantumNode.Proofs.Node.Range

/-! How long a subroutine waits for a range. Along every run it looks at the range when it is told that something has been
written, and until it is told it would find nothing that lets it go on. -/
namespace QuantumNode

open Node Work Working

variable {n m : Nat}

/-- Whether a dispatcher executes a subroutine that waits for a range. -/
def DispatchStage.isWaiting : DispatchStage → Bool
  | .running _ ⟨_, .waiting _⟩ => true
  | _ => false

theorem DispatchStage.isWaiting_iff {stage : DispatchStage} :
    stage.isWaiting = true ↔ ∃ app e a, stage = .running app e ∧ e.stage = .waiting a := by
  unfold isWaiting
  split
  · exact ⟨fun _ => ⟨_, _, _, rfl, rfl⟩, fun _ => rfl⟩
  · rename_i h
    refine ⟨nofun, fun ⟨app, ⟨subroutine, _⟩, a, hst, he⟩ => absurd hst ?_⟩
    cases he
    exact h app subroutine a

/-- What a client does to a node keeps nothing from a waiting subroutine, unless arrays are written by hand. -/
theorem NodeAct.work_attentive {a : NodeAct} {app : Int} (ha : ∀ address values, a ≠ .declare app address values) :
    Attentive (a = .stop app) app (a.work : NodeWork n m Unit) := by
  cases a with
  | register maxQubits => exact Within.attentive ((Dispatch.initApp_unseen maxQubits).bind fun _ => .pure _)
  | declare other address values =>
    have hne : app ≠ other := fun h => ha address values (h ▸ rfl)
    refine Within.attentive fun w => ?_
    simp only [work, exec_updateMemory]
    split
    · exact Std.Refl.refl w
    · refine ⟨fun _ => Nat.le_refl _, rfl, fun a => .inl (entries?_congr ?_ a), fun h => h, fun h => h⟩
      exact congrArg _ (SortedMap.get?_insert_of_ne _ hne _)
  | openSocket other socket remote => exact Within.attentive (Pairing.openSocket_unseen other socket remote)
  | submit r => exact Within.attentive (Pairing.submit_unseen r)
  | abort other => exact Telling.attentive (Pairing.abort_telling other)
  | stop other => exact Within.attentive (Dispatch.stopApp_unseen fun h => h ▸ rfl)
  | clearOnStop clear => exact Within.attentive (Dispatch.modifyDispatcher_steering _)

theorem Node.SameSlots.overlooks {gone : Prop} {app : Int} {x y : Node n m} (h : x.SameSlots y) :
    x.Overlooks gone app y :=
  .of_same h.arrayWritten h.apps (by rw [h.service]; exact ⟨rfl, rfl, rfl⟩)

namespace Network

/-- What a step does to a subroutine that does not go on itself: it finds what it has found before, or is told. -/
structure Heralds (gone : Prop) (i : Fin n) (app : Int) (s s' : Network n m) : Prop where
  due : s.due (dispatchId i) ≤ s'.due (dispatchId i)
  sees : (s.node i).Overlooks gone app (s'.node i) ∨
    s.due (dispatchId i) + (s.node i).arrayWritten.waiters.count (dispatchId i) ≤ s'.due (dispatchId i)

variable {gone : Prop} {i j : Fin n} {app : Int} {s s₁ s' : Network n m}

theorem Heralds.refl (s : Network n m) : Heralds gone i app s s := ⟨Nat.le_refl _, .inl (.refl _)⟩

theorem Heralds.congr (h : Heralds gone i app s s₁) (hd : s₁.due (dispatchId i) ≤ s'.due (dispatchId i))
    (hs : (s₁.node i).SameSlots (s'.node i)) : Heralds gone i app s s' :=
  ⟨Nat.le_trans h.due hd, h.sees.imp (fun ho => ho.trans hs.overlooks) fun ht => Nat.le_trans ht hd⟩

theorem Heralds.mono {gone' : Prop} (h : Heralds gone i app s s') (hg : gone → gone') : Heralds gone' i app s s' :=
  ⟨h.due, h.sees.imp_left fun ho => ho.mono hg⟩

theorem heralds_pass (hs : Spares s s') (hp : Passes (fun _ => 0) s s') : Heralds gone i app s s' :=
  (Heralds.refl s).congr (hp.due _) (hs.slots i)

/-- Somebody has been at work at a node. -/
theorem heralds_commit {w : Working (Node n m) n m}
    (hw : i = j → Unseen gone app (s.working j) w ∨ Tells (s.working j) w) : Heralds gone i app s (s.commit j w) := by
  have hslots := commit_slots s j w i
  have hd := due_commit s j w (dispatchId i)
  refine ⟨Nat.le_trans (Nat.le_add_right _ _) hd, ?_⟩
  by_cases hij : i = j
  · subst hij
    rw [if_pos rfl] at hslots
    rcases hw rfl with hu | ht
    · exact .inl (hu.overlooks.trans hslots.overlooks)
    · have hres : 0 + (s.node i).arrayWritten.waiters.count (dispatchId i) ≤ w.resumed (dispatchId i) := ht (dispatchId i)
      exact .inr (by omega)
  · rw [if_neg hij] at hslots
    exact .inl hslots.overlooks

theorem Resolves.heralds {p : ProcessId} {process : Process n m} {flow : Flow m (Activity n m) (Option Outcome)}
    (hr : s₁.Resolves p process flow s') (hc : s₁.current.map Prod.fst = some p) (hp : dispatchId i ≠ p)
    (h : Heralds gone i app s s₁) : Heralds gone i app s s' :=
  h.congr ((hr.turns hc _).1 hp) (hr.slots i)

/-- A small step of another process. -/
theorem Advances.heralds (h : s.Advances s') (hown : s.current.map Prod.fst ≠ some (dispatchId i)) :
    Heralds gone i app s s' := by
  cases h with
  | @gone p wake hc hp =>
    have hne : p ≠ dispatchId i := by simpa [hc] using hown
    have hd := due_current s (dispatchId i)
    simp only [hc, Option.map_some, Option.some.injEq, if_neg hne, Nat.zero_add] at hd
    exact (Heralds.refl s).congr (Nat.le_of_eq hd) (.refl _)
  | @pairing j name stage wake flow w _ hc hp hx hr =>
    have hcur : (s.commit j w).current.map Prod.fst = some (pairId j) := by
      rw [current_commit, hc]
      rfl
    refine hr.heralds hcur (pairId_ne_dispatchId j i).symm (heralds_commit fun _ => ?_)
    exact Pairing.step_attentive (pairId j) stage wake (s.working j) flow w hx
  | @dispatch j name stage wake flow w _ hc hp hx hr =>
    have hne : dispatchId i ≠ dispatchId j := by simpa [hc, eq_comm] using hown
    have hcur : (s.commit j w).current.map Prod.fst = some (dispatchId j) := by
      rw [current_commit, hc]
      rfl
    exact hr.heralds hcur hne (heralds_commit fun hij => absurd (dispatchId_inj.2 hij) hne)
  | @host j name stage wake flow w _ hc hp hx hr =>
    have hsp : Spares { s.setHost j w.part with quantum := w.quantum } (s.commitHost j w) := spares_effects _ _
    have hcur : (s.commitHost j w).current.map Prod.fst = some (hostId j) := by
      rw [hsp.current]
      exact congrArg (Option.map Prod.fst) hc
    refine hr.heralds hcur (dispatchId_ne_hostId i j) ((Heralds.refl s).congr ?_ (hsp.slots i))
    exact Nat.le_trans (Nat.le_add_right _ _) (due_commitHost s j w (dispatchId i))

/-- A step between two turns. -/
theorem Happens.heralds {cause : Cause n} (h : s.Happens cause s') (hc : s.current = none)
    (hl : ∀ {j : Fin n} {x : NodeWork n m Unit}, Labour j cause x → Within (Unseen gone app) x) :
    Heralds gone i app s s' := by
  cases h with
  | start hc =>
    refine (Heralds.refl s).congr (due_le_start s _) ?_
    rw [start_node]
    exact .refl _
  | hear hc ha => exact (Heralds.refl s).congr (Nat.le_of_eq (due_hear hc ha _).symm) (.refl _)
  | pass hc hs hp => exact heralds_pass hs hp
  | @labour _ j x a hc hd hx =>
    have ⟨hdue, hsees⟩ := heralds_commit (s := { s with agenda := a }) (i := i) (j := j) fun _ => .inl (hl hx _)
    rw [hd] at hdue hsees
    exact ⟨hdue, hsees⟩
  | tread h =>
    obtain ⟨p, hp⟩ := h.going
    rw [hc] at hp
    exact nomatch hp

theorem Moves.heralds (h : s.Moves s') (hs : s.Crewed) (hown : s.current.map Prod.fst ≠ some (dispatchId i)) :
    Heralds gone i app s s' := by
  have hidle (hc : s.current = none) : Heralds gone i app s s' :=
    ((Follows.moves h).happens hs).heralds hc fun hl => by
      cases hl
      exact notifyNews_unseen
  cases h with
  | start hc => exact hidle hc
  | proceed h => exact (advances_of_went hs h).heralds hown
  | begin hc _ => exact hidle hc
  | wait hc _ => exact hidle hc

/-- A client that writes no array of an application keeps nothing from its subroutine. -/
theorem act_heralds {act : ClientAct n} (hs : s.Crewed) (hc : s.current = none) (h : act.run s = (.ok (), s'))
    (hw : ∀ address values, act ≠ .atNode i (.declare app address values)) :
    Heralds (act = .atNode i (.stop app)) i app s s' := by
  have hfollows : s.Follows (.client act) s' := .of_run hc h
  have hother (hl : ∀ j a, act ≠ .atNode j a) : Heralds (act = .atNode i (.stop app)) i app s s' :=
    (hfollows.happens hs).heralds hc fun hx => by
      cases hx with
      | act a => exact absurd rfl (hl _ a)
  cases act with
  | atNode j a =>
    change s.atNode j a.work = _ at h
    rw [atNode_eq] at h
    obtain ⟨hok, rfl⟩ := Prod.mk.inj h
    refine heralds_commit fun hij => ?_
    subst hij
    have ha := NodeAct.work_attentive (fun address values ha => hw address values (ha ▸ rfl)) _ _ _ (Prod.ext hok rfl)
    exact ha.imp_left fun hu => ⟨hu.later, hu.overlooks.mono fun ha => ha ▸ rfl⟩
  | post _ _ => exact hother nofun
  | enqueue _ _ _ => exact hother nofun
  | alarm _ _ => exact hother nofun

/-! The turn of a dispatcher. -/

/-- A dispatcher that goes on makes a step, if it is there at all. -/
theorem Advances.own (h : s.Advances s') (hown : s.current.map Prod.fst = some (dispatchId i)) :
    (s'.dispatchStage i = .idle ∧ s.dispatchStage i = .idle ∧ (s.node i).SameSlots (s'.node i)) ∨
      ∃ wake flow w, (Dispatch.step (dispatchId i) (s.dispatchStage i) wake).exec (s.working i) = (.ok flow, w) ∧
        s'.dispatchStage i = flow.stage ∧ w.part.SameSlots (s'.node i) ∧ ∀ stage, flow = .rest stage → s'.current = none := by
  cases h with
  | gone hc hp =>
    simp only [hc, Option.map_some, Option.some.injEq] at hown
    subst hown
    have hidle : s.dispatchStage i = .idle := by
      unfold dispatchStage
      rw [hp]
    exact .inl ⟨hidle, hidle, .refl _⟩
  | @pairing j _ _ _ _ _ _ hc hp hx hr =>
    simp only [hc, Option.map_some, Option.some.injEq] at hown
    exact absurd hown (pairId_ne_dispatchId j i)
  | @dispatch j name stage wake flow w _ hc hp hx hr =>
    simp only [hc, Option.map_some, Option.some.injEq] at hown
    obtain rfl := dispatchId_inj.1 hown
    have hslots := commit_slots s j w j
    rw [if_pos rfl] at hslots
    refine .inr ⟨wake, flow, w, by rwa [dispatchStage_eq hp], hr.dispatchStage, hslots.trans (hr.slots j), fun stage hf => ?_⟩
    subst hf
    cases hr with
    | rest _ => rfl
  | @host j _ _ _ _ _ _ hc hp hx hr =>
    simp only [hc, Option.map_some, Option.some.injEq] at hown
    exact absurd hown.symm (dispatchId_ne_hostId i j)

/-- What comes of a look at a range. -/
inductive Ruling (i : Fin n) (app : Int) (e : Execution) (a : AwaitedRange) (s s' : Network n m) : Prop where
  | aborted (hf : e.app ∈ (s.node i).service.failed) (hc : e.app ∉ (s'.node i).service.failed)
      (hs : s'.dispatchStage i = .serving app)
  | complete {values : ArrayValues} (hf : e.app ∉ (s.node i).service.failed)
      (hv : (s.node i).entries? e.app a = some values) (hset : none ∉ values)
      (hpc : (s'.node i).apps.get? e.app = ((s.node i).apps.get? e.app).map AppMemory.incrementPc)
      (hs : s'.dispatchStage i = .running app { e with stage := .fetch })
  | abandoned {values : ArrayValues} (hf : e.app ∉ (s.node i).service.failed)
      (hv : (s.node i).entries? e.app a = some values) (hunset : none ∈ values)
      (hb : Execution.abandoned (s.node i).service e.app = true)
      (hpc : (s'.node i).apps.get? e.app = ((s.node i).apps.get? e.app).map AppMemory.incrementPc)
      (hs : s'.dispatchStage i = .running app { e with stage := .fetch })
  | waits {values : ArrayValues} (hv : (s.node i).entries? e.app a = some values) (hx : (s.node i).Withholds e.app a)
      (hs : s'.dispatchStage i = .running app { e with stage := .waiting a }) (hc : s'.current = none)

theorem Advances.ruling {e : Execution} {a : AwaitedRange} (h : s.Advances s')
    (hown : s.current.map Prod.fst = some (dispatchId i)) (hst : s.dispatchStage i = .running app e)
    (ha : e.Awaits (s.node i) a) : Ruling i app e a s s' := by
  rcases h.own hown with ⟨-, hidle, -⟩ | ⟨wake, flow, w, hx, hs, hslots, hrest⟩
  · rw [hst] at hidle
    exact nomatch hidle
  · rw [hst] at hx
    obtain ⟨verdict, w₁, hx₁, hx₂⟩ := exec_bind_ok.1 hx
    have hv : e.Verdict (dispatchId i) a (s.node i) w₁.part verdict :=
      Execution.step_verdict (w := s.working i) (dispatchId i) ha verdict w₁ hx₁
    cases hv with
    | aborted hf hc =>
      have hserves : flow = .go (.serving app) := Dispatch.answer_serves app .aborted w₁ flow w hx₂
      have hunseen : Unseen False e.app w₁ w := (Dispatch.answer_unseen .aborted).of_exec hx₂
      refine .aborted hf (fun h => hc (hunseen.overlooks.failed ?_)) (by rw [hs, hserves]; rfl)
      rwa [hslots.service] at h
    | complete hf hv hset hpc =>
      cases hx₂
      exact .complete hf hv hset (by rw [hslots.apps, hpc]) hs
    | abandoned hf hv hunset hb hpc =>
      cases hx₂
      exact .abandoned hf hv hunset hb (by rw [hslots.apps, hpc]) hs
    | waits hv hwithholds _ _ _ =>
      cases hx₂
      exact .waits hv hwithholds hs (hrest _ rfl)

/-- A dispatcher whose subroutine is left waiting for a range is in line. -/
theorem Advances.posts {e : Execution} {a : AwaitedRange} (h : s.Advances s')
    (hown : s.current.map Prod.fst = some (dispatchId i)) (hst : s'.dispatchStage i = .running app e)
    (he : e.stage = .waiting a) : (s'.node i).Posted gone (dispatchId i) e.app a := by
  rcases h.own hown with ⟨hidle, -, -⟩ | ⟨wake, flow, w, hx, hs, hslots, -⟩
  · rw [hst] at hidle
    exact nomatch hidle
  · have hp := Dispatch.step_posts (dispatchId i) (s.dispatchStage i) wake (s.working i) flow w hx app e a
      (hs.symm.trans hst) he
    exact hslots.overlooks.posted (hp.mono False.elim)

/-! Whole runs. -/

/-- What a client does to a node while a subroutine is at a point of it. -/
def Moment.During (x : Moment n m) (i : Fin n) (e : Execution) (a : NodeAct) : Prop :=
  x.act = some (.atNode i a) ∧ ∃ app, x.state.dispatchStage i = .running app e

/-- Whoever stands in line and is not told misses nothing. -/
theorem Heralds.posted {a : AwaitedRange} (h : Heralds gone i app s s') (hd : s'.due (dispatchId i) = 0)
    (hp : (s.node i).Posted gone (dispatchId i) app a) : (s'.node i).Posted gone (dispatchId i) app a := by
  rcases h.sees with ho | ht
  · exact ho.posted hp
  · have hcount := List.count_pos_iff.2 hp.queued
    omega

/-- A subroutine that waits for a range at a node, and is not to go on, is in line and misses an entry, unless arrays are
written by hand while it waits. -/
def Patient (i : Fin n) (past : List (Moment n m)) (s : Network n m) : Prop :=
  ∀ app e a, s.dispatchStage i = .running app e → e.stage = .waiting a → s.due (dispatchId i) = 0 →
    (∀ x ∈ past, ∀ address values, ¬ x.During i e (.declare e.app address values)) →
    (s.node i).Posted (∃ x ∈ past, x.During i e (.stop e.app)) (dispatchId i) e.app a

/-- A step in which the subroutine does not go on. -/
theorem Patient.step {past : List (Moment n m)} {act : Option (ClientAct n)} (h : Patient i past s)
    (hst : s'.dispatchStage i = s.dispatchStage i)
    (hh : ∀ app, (∀ address values, act ≠ some (.atNode i (.declare app address values))) →
      Heralds (act = some (.atNode i (.stop app))) i app s s') : Patient i (⟨s, act⟩ :: past) s' :=
  fun app e a hrun he hdue hwritten => by
    rw [hst] at hrun
    rw [List.forall_mem_cons] at hwritten
    have hstep := hh e.app fun address values hact => hwritten.1 address values ⟨hact, app, hrun⟩
    have hposted := h app e a hrun he (Nat.eq_zero_of_le_zero (hdue ▸ hstep.due)) hwritten.2
    refine (hstep.mono fun hact => ⟨_, List.mem_cons_self, hact, app, hrun⟩).posted hdue (hposted.mono ?_)
    exact fun ⟨x, hx, hd⟩ => ⟨x, List.mem_cons_of_mem _ hx, hd⟩

theorem Built.patient (h : s.Built) : Patient i [] s := fun app e a hrun => by
  rw [h.dispatchStage] at hrun
  exact nomatch hrun

theorem Trace.patient {c : NetworkConfig} {may : ClientAct c.nodes.length → Prop}
    {past : List (Moment c.nodes.length c.links.length)} {s : Network c.nodes.length c.links.length}
    (h : Trace c may past s) (i : Fin c.nodes.length) : Patient i past s := by
  induction h with
  | built h => exact (built_of_build h).patient
  | @move past s s' h hm ih =>
    have hs := h.crewed
    by_cases hown : s.current.map Prod.fst = some (dispatchId i)
    · exact fun app e a hrun he _ _ => (hm.turn hs hown).posts hown hrun he
    · exact ih.step (((Follows.moves hm).happens hs).dispatchStage_of_ne hs hown) fun app _ => hm.heralds hs hown
  | @act past s s' h a _ hc hr ih =>
    have hs := h.crewed
    have hown : s.current.map Prod.fst ≠ some (dispatchId i) := by
      rw [hc]
      exact nofun
    refine ih.step (((Follows.of_run hc hr).happens hs).dispatchStage_of_ne hs hown) fun app hw => ?_
    refine (act_heralds hs hc hr fun address values ha => hw address values (congrArg some ha)).mono ?_
    exact congrArg some

/-- Along every run a subroutine waits for a range exactly as long as it must. When it looks, it is aborted after a
failure, which is thereby cleared, goes on when every entry is set, or none of its requests is left after an abort, and
waits otherwise. No wake-up is lost: as long as it waits and is not to go on, nothing has failed, an entry is unset, and
more may still be written. -/
theorem ranges_are_awaited_no_longer_than_needed {c : NetworkConfig} {may : ClientAct c.nodes.length → Prop}
    {past : List (Moment c.nodes.length c.links.length)} {s : Network c.nodes.length c.links.length}
    (h : Trace c may past s) (i : Fin c.nodes.length) :
    (∀ app e a s', s.dispatchStage i = .running app e → e.Awaits (s.node i) a → s.Moves s' →
      s.current.map Prod.fst = some (dispatchId i) ∧ Ruling i app e a s s' ∨
        s.current.map Prod.fst ≠ some (dispatchId i) ∧ s'.dispatchStage i = .running app e) ∧
    ∀ app e a, s.dispatchStage i = .running app e → e.stage = .waiting a → s.due (dispatchId i) = 0 →
      (∀ x ∈ past, ∀ address values, ¬ x.During i e (.declare e.app address values)) →
      (s.node i).Posted (∃ x ∈ past, x.During i e (.stop e.app)) (dispatchId i) e.app a := by
  refine ⟨fun app e a s' hrun ha hm => ?_, h.patient i⟩
  obtain ⟨strides, hcourse, -⟩ := h.course
  have hs := hcourse.crewed
  by_cases hown : s.current.map Prod.fst = some (dispatchId i)
  · exact .inl ⟨hown, (hm.turn hs hown).ruling hown hrun ha⟩
  · exact .inr ⟨hown, (((Follows.moves hm).happens hs).dispatchStage_of_ne hs hown).trans hrun⟩

/-- The first application asks for pairs that the second refuses, and waits for the results. -/
def duoRefused (steps : Nat) : List (Direction duo.nodes.length) :=
  duoOpening ++ [.act (.atNode 0 (.declare 0 2 (.replicate 20 none))), .act (.atNode 1 (.abort 0)),
    .act (.atNode 0 (.submit (duoRequest 0))), .act (.atNode 1 (.submit (duoRequest 1))),
    .act (.post 0 "SUBROUTINE\n# NETQASM 1.0\n# APPID 0\nwait_all @2[0:20]\n"), .run 0 steps]

/-- The subroutine waits while messages are under way, and looks again when the request has been settled. -/
theorem ranges_are_awaited_until_refused :
    (∃ past s app e a, Trace duo (fun _ => True) past s ∧ s.dispatchStage 0 = .running app e ∧ e.stage = .waiting a ∧
      s.due (dispatchId (0 : Fin duo.nodes.length)) = 0 ∧
      (s.node 0).Posted (∃ x ∈ past, x.During 0 e (.stop e.app)) (dispatchId (0 : Fin duo.nodes.length)) e.app a) ∧
    ∃ past s s' app e a, Trace duo (fun _ => True) past s ∧ s.dispatchStage 0 = .running app e ∧ e.Awaits (s.node 0) a ∧
      s.Moves s' ∧ Ruling 0 app e a s s' := by
  constructor
  · obtain ⟨past, s, ht, hs⟩ := Trace.exists_of_rehearse duo (fun _ => True) (duoRefused 15)
      (fun r => (r.2.dispatchStage 0).isWaiting = true ∧ r.2.due (dispatchId (0 : Fin duo.nodes.length)) = 0 ∧
        ∀ x ∈ r.1, (x.state.dispatchStage 0).isWaiting = true → x.act.isNone = true) (by decide +kernel) (fun _ _ => trivial)
    obtain ⟨hwaiting, hdue, hacts⟩ := of_decide_eq_true hs
    obtain ⟨app, e, a, hrun, he⟩ := DispatchStage.isWaiting_iff.1 hwaiting
    refine ⟨past, s, app, e, a, ht, hrun, he, hdue, ?_⟩
    refine (ranges_are_awaited_no_longer_than_needed ht 0).2 app e a hrun he hdue fun x hx address values hd => ?_
    obtain ⟨hact, app', hrun'⟩ := hd
    have hnone := hacts x hx (DispatchStage.isWaiting_iff.2 ⟨_, _, _, hrun', he⟩)
    rw [hact] at hnone
    exact nomatch hnone
  · obtain ⟨past, s, ht, hs⟩ := Trace.exists_of_rehearse duo (fun _ => True) (duoRefused 20)
      (fun r => (r.2.dispatchStage 0).isWaiting = true ∧ (r.2.moveOn? 0).isSome = true ∧
        r.2.current.map Prod.fst = some (dispatchId (0 : Fin duo.nodes.length))) (by decide +kernel) (fun _ _ => trivial)
    obtain ⟨hwaiting, hmoves, hown⟩ := of_decide_eq_true hs
    obtain ⟨app, e, a, hrun, he⟩ := DispatchStage.isWaiting_iff.1 hwaiting
    have hm : s.Moves ((s.moveOn? 0).get hmoves) := moves_of_moveOn? (Option.some_get hmoves).symm
    have ha : e.Awaits (s.node 0) a := .waiting he
    rcases (ranges_are_awaited_no_longer_than_needed ht 0).1 app e a _ hrun ha hm with ⟨-, hr⟩ | ⟨hne, -⟩
    · exact ⟨past, s, _, app, e, a, ht, hrun, ha, hm, hr⟩
    · exact absurd hown hne

end Network

end QuantumNode
