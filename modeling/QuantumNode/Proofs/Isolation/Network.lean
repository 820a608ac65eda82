import QuantumNode.Proofs.Isolation.Frame
import QuantumNode.Proofs.Isolation.Parking
import QuantumNode.Proofs.Ownership.Balance
import QuantumNode.Proofs.Ownership.Release

/-! The applications of a node do not disturb each other. Along every run, no step of a subroutine changes anything about
another application but where the qubit is that it has at the electron: a measurement may move it to a carbon that was
free. -/
namespace QuantumNode

open Node Work Working

variable {n m : Nat}

/-- What an application maps is allocated, and mapped by nobody else. -/
def Node.Secure (node : Node n m) (app : Int) : Prop := ∀ virt p, node.Maps app virt p →
  node.pool.isAllocated p = true ∧ ∀ other v, node.Maps other v p → other = app ∧ v = virt

theorem Node.Accounted.secure {node : Node n m} {held : List Nat} (h : node.Accounted held) (app : Int) :
    node.Secure app :=
  fun _ _ hm => ⟨h.allocated hm, fun _ _ hm' => h.injective hm' hm⟩

/-- The application whose subroutine a dispatcher executes. -/
def DispatchStage.served? : DispatchStage → Option Int
  | .running _ e => some e.app
  | _ => none

namespace Network

variable {s s' : Network n m} {i : Fin n} {app other : Int} {lost : List Nat} {cause : Cause n}
  {past : List (Stride n m)}

theorem runs_of_served? (hc : s.current.map Prod.fst = some (dispatchId i))
    (h : (s.dispatchStage i).served? = some app) : s.Runs i app := by
  obtain ⟨⟨_, wake⟩, hcur, rfl⟩ := Option.map_eq_some_iff.1 hc
  unfold DispatchStage.served? at h
  split at h
  · rename_i k e hst
    exact ⟨⟨wake, hcur⟩, k, e, hst, Option.some.inj h⟩
  · exact nomatch h

/-- The carbon of a measurement was free when the subroutine asked for it, and has been kept for it since. -/
def FreeWhenAsked (i : Fin n) (app : Int) (e : Execution) (r : Readout) (past : List (Stride n m)) : Prop :=
  ∃ later x earlier e₀, past = later ++ x :: earlier ∧ x.before.dispatchStage i = .running app e₀ ∧
    e₀.subroutine = e.subroutine ∧ e₀.Asks (x.before.node i) r ∧
    ∀ y ∈ later, ∃ e', y.before.dispatchStage i = .running app e' ∧ e'.subroutine = e.subroutine ∧
      e'.stage.parking? = some r

theorem freeWhenAsked_now {e e' : Execution} {r : Readout} (hst : s.dispatchStage i = .running app e)
    (he : e'.subroutine = e.subroutine) (ha : e.Asks (s.node i) r) :
    FreeWhenAsked i app e' r (⟨s, cause, s'⟩ :: past) :=
  ⟨[], ⟨s, cause, s'⟩, past, e, rfl, hst, he.symm, ha, fun _ hy => absurd hy List.not_mem_nil⟩

theorem FreeWhenAsked.cons {e e' : Execution} {r : Readout} (h : FreeWhenAsked i app e r past)
    (hst : s.dispatchStage i = .running app e) (hr : e.stage.parking? = some r)
    (he : e'.subroutine = e.subroutine) : FreeWhenAsked i app e' r (⟨s, cause, s'⟩ :: past) := by
  obtain ⟨later, x, earlier, e₀, rfl, hx, he₀, ha, hlater⟩ := h
  refine ⟨⟨s, cause, s'⟩ :: later, x, earlier, e₀, rfl, hx, he₀.trans he.symm, ha, ?_⟩
  rw [List.forall_mem_cons]
  refine ⟨⟨e, hst, he.symm, hr⟩, fun y hy => ?_⟩
  obtain ⟨e'', hst', he'', hr'⟩ := hlater y hy
  exact ⟨e'', hst', he''.trans he.symm, hr'⟩

/-- Whose subroutine the dispatcher of a node executes, and what it keeps for it. -/
structure Supervises (i : Fin n) (past : List (Stride n m)) (s : Network n m) : Prop where
  queued : (s.node i).dispatcher.Attributed
  running : (s.dispatchStage i).Attributed
  parking : ∀ app e r, s.dispatchStage i = .running app e → e.stage.parking? = some r → FreeWhenAsked i app e r past
  relocating : ∀ app e, s.dispatchStage i = .running app e → e.stage.isPlain = false →
    (s.node i).device.config.isNV = true

theorem supervises_of_idle (hq : (s.node i).dispatcher.Attributed) (hidle : s.dispatchStage i = .idle) :
    Supervises i past s := by
  have hne : ∀ app e, s.dispatchStage i ≠ .running app e := fun app e hrun => nomatch hidle.symm.trans hrun
  exact ⟨hq, fun app e hrun => absurd hrun (hne app e), fun app e r hrun => absurd hrun (hne app e),
    fun app e hrun => absurd hrun (hne app e)⟩

theorem Reaches.noBusier (h : s.Reaches i cause s') (hown : s.current.map Prod.fst ≠ some (dispatchId i)) :
    (s.node i).NoBusier (s'.node i) := by
  cases h with
  | spares hslots _ _ _ => exact .of_slots hslots
  | works hshift hslots _ =>
    refine Node.NoBusier.trans ?_ (.of_slots hslots)
    cases hshift with
    | labour hc hx now =>
      cases hx with
      | news => exact (notifyNews_aside ⟨s.node i, s.quantum, now, #[]⟩).books
      | act a => exact (a.work_aside ⟨s.node i, s.quantum, now, #[]⟩).books
      | slots a => exact (a.work_aside ⟨s.node i, s.quantum, now, #[]⟩).books
    | pairing hc => exact (Pairing.step_aside (pairId i) _ _ (s.working i)).books
    | dispatch hc => exact absurd (congrArg (Option.map Prod.fst) hc) hown

/-- A step in which the dispatcher does not go on. -/
theorem Happens.supervises (h : s.Happens cause s') (hs : s.Crewed)
    (hown : s.current.map Prod.fst ≠ some (dispatchId i)) (hsup : Supervises i past s) :
    Supervises i (⟨s, cause, s'⟩ :: past) s' := by
  have hstage := h.dispatchStage_of_ne hs hown
  refine ⟨((h.reaches i).noBusier hown).attributed hsup.queued, hstage ▸ hsup.running, fun app e r hst hr => ?_,
    fun app e hst hr => ?_⟩
  · rw [hstage] at hst
    exact (hsup.parking app e r hst hr).cons hst hr rfl
  · rw [hstage] at hst
    rw [(h.build i).config]
    exact hsup.relocating app e hst hr

/-- A step of the dispatcher itself. -/
theorem Advances.supervises (h : s.Advances s') (hown : s.current.map Prod.fst = some (dispatchId i))
    (hserves : (s.node i).Serves (s.dispatchStage i)) (hb : Node.SameBuild (s.node i) (s'.node i))
    (hsup : Supervises i past s) : Supervises i (⟨s, cause, s'⟩ :: past) s' := by
  rcases h.own hown with ⟨hidle, -, hslots⟩ | ⟨wake, flow, w, hx, hst, hslots, -⟩
  · refine supervises_of_idle ?_ hidle
    rw [hslots.dispatcher]
    exact hsup.queued
  · have hresumes : ∀ app e, s.dispatchStage i = .running app e →
        Ends (Execution.step (dispatchId i) e) (s.working i) fun flow _ => e.Keeps (s.node i) flow := fun app e hrun => by
      rw [hrun] at hserves
      exact Execution.step_keeps (w := s.working i) (dispatchId i) hserves
    have hproceeds : Dispatch.Proceeds (dispatchId i) (s.dispatchStage i) (s.working i) flow :=
      Dispatch.step_proceeds (dispatchId i) wake hsup.queued hsup.running
        (fun app e hrun => (hresumes app e hrun).mono fun _ _ hk e' he' => (hk e' he').subroutine) flow w hx
    have horigin : ∀ app e', s'.dispatchStage i = .running app e' → (∃ s₀, e' = .new s₀) ∨
        ∃ e, s.dispatchStage i = .running app e ∧ e.Resumes (s.node i) e' := fun app e' hrun => by
      rcases hproceeds.origin app e' (hst.symm.trans hrun) with hnew | ⟨e, flow₀, w₀, hrun₀, hx₀, hgo⟩
      · exact .inl hnew
      · exact .inr ⟨e, hrun₀, hresumes app e hrun₀ flow₀ w₀ hx₀ e' hgo⟩
    refine ⟨?_, hst ▸ hproceeds.running, fun app e' r hrun hr => ?_, fun app e' hrun hr => ?_⟩
    · rw [hslots.dispatcher]
      exact (Dispatch.step_attributes (dispatchId i) _ wake).of_exec hx hsup.queued
    · rcases horigin app e' hrun with ⟨s₀, rfl⟩ | ⟨e, hrun₀, hres⟩
      · exact nomatch hr
      · rcases hres.parking r hr with hkept | hasks
        · exact (hsup.parking app e r hrun₀ hkept).cons hrun₀ hkept hres.subroutine
        · exact freeWhenAsked_now hrun₀ hres.subroutine hasks
    · rcases horigin app e' hrun with ⟨s₀, rfl⟩ | ⟨e, hrun₀, hres⟩
      · exact nomatch hr
      · rw [hb.config]
        rcases hres.relocating hr with hmoving | hnv
        · exact hsup.relocating app e hrun₀ hmoving
        · exact hnv

/-- A step of the dispatcher itself that may meet a fault. No subroutine is executed then. -/
theorem Treads.supervises (h : s.Treads s') (hown : s.current.map Prod.fst = some (dispatchId i))
    (hserves : (s.node i).Serves (s.dispatchStage i)) (hsup : Supervises i past s) :
    Supervises i (⟨s, cause, s'⟩ :: past) s' := by
  rcases h.own_dispatch hown with hadv | ⟨wake, f, w, hx, hidle, hslots⟩
  · exact hadv.supervises hown hserves ((Happens.tread h).build i) hsup
  · refine supervises_of_idle ?_ hidle
    rw [hslots.dispatcher]
    exact (Dispatch.step_attributes (dispatchId i) _ wake).of_exec hx hsup.queued

theorem Built.supervises (h : s.Built) (i : Fin n) : Supervises i [] s := by
  refine supervises_of_idle ?_ (h.dispatchStage i)
  rw [h.dispatcher i]
  exact fun _ _ hs => nomatch hs

theorem Course.supervises {c : NetworkConfig} {past : List (Stride c.nodes.length c.links.length)}
    {s : Network c.nodes.length c.links.length} (h : Course c past s) (i : Fin c.nodes.length)
    (hpast : ∀ x ∈ past, ¬ x.cause.frees i) : Supervises i past s := by
  induction h with
  | built h => exact (built_of_build h).supervises i
  | @step past s s' cause h hf ih =>
    rw [List.forall_mem_cons] at hpast
    have hhappens := hf.happens h.crewed
    by_cases hown : s.current.map Prod.fst = some (dispatchId i)
    · obtain ⟨_, ho⟩ := h.owned i hpast.2
      exact (hhappens.treads hown).supervises hown ho.serves (ih hpast.2)
    · exact hhappens.supervises h.crewed hown (ih hpast.2)

/-- Nobody outside acts while a subroutine goes on. -/
theorem Follows.not_frees (h : s.Follows cause s') (hruns : s.Runs i app) : ¬ cause.frees i := by
  obtain ⟨⟨wake, hc⟩, -⟩ := hruns
  rintro ⟨slot, rfl⟩
  cases h with
  | slots hidle _ _ => exact nomatch hidle.symm.trans hc

/-- A measurement on an NV device moves the qubit that another application has at the electron to a carbon that nobody
maps, and that was free when the measurement asked for it. -/
structure MakesWay (i : Fin n) (past : List (Stride n m)) (s : Network n m) (other : Int) (mem mem' : AppMemory)
    (e : Execution) (r : Readout) (virt : Nat) : Prop where
  nv : (s.node i).device.config.isNV = true
  moving : ∃ c steps, e.stage = .moving r (some (other, virt)) c [] steps
  electron : mem.phys? virt = some 0
  moves : mem.Moves virt r.spare mem'
  carbon : r.spare ≠ 0
  free : ∀ app v, ¬ (s.node i).Maps app v r.spare
  asked : FreeWhenAsked i e.app e r past

/-- A step of a subroutine of another application. -/
theorem Reaches.isolated (h : s.Reaches i cause s') (hsup : Supervises i past s) (ho : s.Owned lost i) (hruns : s.Runs i app)
    (hne : other ≠ app) {mem : AppMemory} (hmem : (s.node i).apps.get? other = some mem) :
    ∃ mem', (s'.node i).apps.get? other = some mem' ∧ mem.Undisturbed mem' ∧
      (mem' = mem ∨ ∃ e r virt, s.dispatchStage i = .running app e ∧ MakesWay i past s other mem mem' e r virt) := by
  obtain ⟨⟨wake, hc⟩, k, e, hst, rfl⟩ := hruns
  obtain rfl : e.app = k := hsup.running k e hst
  have hown : s.current.map Prod.fst = some (dispatchId i) := congrArg (Option.map Prod.fst) hc
  have hevicts : ∀ virt slot, e.Evicts other virt slot →
      (s.node i).Maps other virt 0 ∧ ∀ a v, ¬ (s.node i).Maps a v slot := by
    rintro virt slot ⟨r, c, steps, hstage, rfl⟩
    have hserves := ho.serves
    have hacc := ho.accounted
    rw [held, hst] at hacc
    rw [hst, Serves, hstage] at hserves
    refine ⟨hserves.2.2.maps hmem, fun a v hm => hacc.apart hm (List.mem_append_right _ (List.mem_append_right _ ?_))⟩
    rw [DispatchStage.held, hstage]
    exact List.mem_singleton_self _
  cases h with
  | spares _ _ _ hdispatch =>
    rw [hdispatch hown] at hst
    cases hst
  | works hshift hslots _ =>
    cases hshift with
    | labour hc' _ _ => cases hc'.symm.trans hc
    | pairing hc' => exact absurd (congrArg Prod.fst (Option.some.inj (hc'.symm.trans hc))) (pairId_ne_dispatchId i i)
    | @dispatch wake hc' =>
      rw [hst] at hslots
      rw [hslots.apps]
      rcases Dispatch.step_moves (w := s.working i) (dispatchId i) wake hne ho.accounted.ascending hmem hevicts with
        hsame | ⟨virt, slot, mem', hev, h0, hmoves, hmem'⟩
      · exact ⟨mem, hsame, .refl mem, .inl rfl⟩
      · obtain ⟨helectron, hfree⟩ := hevicts virt slot hev
        obtain ⟨r, c, steps, hstage, rfl⟩ := hev
        refine ⟨mem', hmem', hmoves.undisturbed h0, .inr ⟨e, r, virt, hst, ?_⟩⟩
        exact {
          nv := hsup.relocating _ e hst (by rw [hstage]; rfl)
          moving := ⟨c, steps, hstage⟩
          electron := h0
          moves := hmoves
          carbon := fun hzero => hfree other virt (hzero ▸ helectron)
          free := hfree
          asked := hsup.parking _ e r hst (by rw [hstage]; rfl) }

/-- Along every run in which nobody returns slots by hand, what is done for one application of a node leaves the others
alone. A step of a subroutine changes neither registers nor arrays nor program counter of another application, and not
which of its virtual ids are mapped. It changes nothing at all, unless a measurement on an NV device moves that
application's qubit from the electron to a carbon that was free. Clearing and stopping an application change nothing about
another. What the other application maps remains its own. -/
theorem applications_are_isolated {c : NetworkConfig} {past : List (Stride c.nodes.length c.links.length)}
    {s : Network c.nodes.length c.links.length} (h : Course c past s) (i : Fin c.nodes.length)
    (hpast : ∀ x ∈ past, ¬ x.cause.frees i) {app other : Int} (hne : other ≠ app) {mem : AppMemory}
    (hmem : (s.node i).apps.get? other = some mem) :
    (s.Runs i app → ∀ cause s', s.Follows cause s' →
      ∃ mem', (s'.node i).apps.get? other = some mem' ∧ mem.Undisturbed mem' ∧
        (mem' = mem ∨ ∃ e r virt, s.dispatchStage i = .running app e ∧ MakesWay i past s other mem mem' e r virt) ∧
        (s'.node i).Secure other) ∧
    (∀ remove, ∃ w, (Dispatch.clearApp app remove).exec (s.working i) = (.ok (), w) ∧
      w.part.apps.get? other = some mem ∧ w.part.Secure other) ∧
    ∃ w, (Dispatch.stopApp app).exec (s.working i) = (.ok (), w) ∧
      w.part.apps.get? other = some mem ∧ w.part.Secure other := by
  obtain ⟨lost, ho⟩ := h.owned i hpast
  refine ⟨fun hruns cause s' hf => ?_, fun remove => ?_, ?_⟩
  · obtain ⟨mem', hmem', hund, hchange⟩ := ((hf.happens h.crewed).reaches i).isolated (h.supervises i hpast) ho hruns hne hmem
    obtain ⟨_, ho', -⟩ := hf.owned h.crewed (hf.not_frees hruns) ho
    exact ⟨mem', hmem', hund, hchange, ho'.accounted.secure other⟩
  · obtain ⟨_, w, hx, hacc⟩ := Dispatch.clearApp_attains (w := s.working i) ho.accounted app remove
    exact ⟨w, hx, ((Dispatch.clearApp_leaves hne remove).of_exec hx).trans hmem, hacc.secure other⟩
  · obtain ⟨_, w, hx, hacc⟩ := Dispatch.stopApp_attains (w := s.working i) ho.accounted app
    exact ⟨w, hx, ((Dispatch.stopApp_leaves hne).of_exec hx).trans hmem, hacc.secure other⟩

/-- One application has its qubit at the electron, and the other measures a carbon. -/
def carbonDuet : List (Direction carbonConfig.nodes.length) :=
  [.start, .run 0 100, .act (.post 0 "INIT_NEW_APP 1\n"), .act (.post 0 "INIT_NEW_APP 1\n"),
    .act (.post 0 "SUBROUTINE\n# NETQASM 1.0\n# APPID 0\nset Q0 0\nqalloc Q0\ninit Q0\n"),
    .act (.post 0 "SUBROUTINE\n# NETQASM 1.0\n# APPID 1\nset Q0 0\nqalloc Q0\ninit Q0\nmeas Q0 M0\n"), .run 1700000 33]

theorem applications_are_isolated_moving_electron : ∃ past s s' mem mem' e r virt,
    Course carbonConfig past s ∧ (∀ x ∈ past, ¬ x.cause.frees 0) ∧ s.Runs 0 1 ∧ s.Moves s' ∧
      (s.node 0).apps.get? 0 = some mem ∧ (s'.node 0).apps.get? 0 = some mem' ∧ mem.Undisturbed mem' ∧
      s.dispatchStage 0 = .running 1 e ∧ MakesWay 0 past s 0 mem mem' e r virt ∧ (s'.node 0).Secure 0 ∧
      ∃ w, (Dispatch.stopApp 1).exec (s.working 0) = (.ok (), w) ∧ w.part.apps.get? 0 = some mem ∧ w.part.Secure 0 := by
  obtain ⟨_, s, ht, hs⟩ := Trace.exists_of_rehearse carbonConfig ClientAct.Orderly carbonDuet
    (fun r => r.2.current.map Prod.fst = some (dispatchId (0 : Fin carbonConfig.nodes.length)) ∧
      (r.2.dispatchStage 0).served? = some 1 ∧ ((r.2.node 0).apps.get? 0).bind (·.phys? 0) = some 0 ∧
      (r.2.moveOn? 0).isSome = true ∧
      (r.2.moveOn? 0).any (fun s' => ((s'.node 0).apps.get? 0).bind (·.phys? 0) = some 2) = true)
    (by decide +kernel) (by decide)
  obtain ⟨hcur, hserved, hbefore, hmoves, hafter⟩ := of_decide_eq_true hs
  obtain ⟨mem, hmem, h0⟩ := Option.bind_eq_some_iff.1 hbefore
  obtain ⟨s', hs'⟩ := Option.isSome_iff_exists.1 hmoves
  rw [hs', Option.any_some, decide_eq_true_iff] at hafter
  have hruns : s.Runs 0 1 := runs_of_served? hcur hserved
  have hm : s.Moves s' := moves_of_moveOn? hs'
  obtain ⟨past, hcourse, hfrugal⟩ := ht.frugal
  have hpast : ∀ x ∈ past, ¬ x.cause.frees 0 := fun x hx => (hfrugal x hx 0).not_frees
  obtain ⟨hsteps, -, hstop⟩ := applications_are_isolated hcourse 0 hpast (show (0 : Int) ≠ 1 by decide) hmem
  obtain ⟨mem', hmem', hund, hsame | ⟨e, r, virt, hst, hway⟩, hsecure⟩ := hsteps hruns _ s' (.moves hm)
  · rw [hmem', Option.bind_some, hsame, h0] at hafter
    exact nomatch hafter
  · exact ⟨past, s, s', mem, mem', e, r, virt, hcourse, hpast, hruns, hm, hmem, hmem', hund, hst, hway, hsecure, hstop⟩

end Network

end QuantumNode
