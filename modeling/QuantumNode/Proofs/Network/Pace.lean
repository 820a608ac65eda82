import QuantumNode.Proofs.Network.Bystander

/-! The pace of a network: a pair service has at most one turn at a time, nobody has one before the start, and a
dispatcher that relocates a qubit goes on at once. -/
namespace QuantumNode

open Node Work Working

variable {n m : Nat}

/-- Only a relocation that is to go on at once depends on which slots are allocated. -/
theorem ExecutionStage.Parks.of_not_isRelocating {stage : ExecutionStage} {pool pool' : QubitPool} (h : stage.Parks pool)
    (hr : stage.isRelocating = false) : stage.Parks pool' := by
  cases stage with
  | relocating _ _ => exact nomatch hr
  | _ => exact h

theorem DispatchStage.Parks.of_not_isRelocating {stage : DispatchStage} {pool pool' : QubitPool} (h : stage.Parks pool)
    (hr : stage.isRelocating = false) : stage.Parks pool' := by
  cases stage with
  | running app e =>
    have hstage : e.stage.Parks pool := h
    exact hstage.of_not_isRelocating hr
  | _ => trivial

namespace Network

/-- A dispatcher that relocates a qubit goes on at once, and parks the electron's qubit at a carbon. -/
def Relocates (s : Network n m) (i : Fin n) : Prop :=
  (s.dispatchStage i).Parks (s.node i).pool ∧
    ((s.dispatchStage i).isRelocating = true → s.current.map Prod.fst = some (dispatchId i))

/-- What holds of the turns of processes along every run. -/
structure Paced (s : Network n m) : Prop where
  electron : ∀ i, (s.node i).Electron
  unstarted : s.started = false → ∀ q, s.turns q = 0
  once : ∀ (i : Fin n) (process : Process n m), s.processes.get? (pairId i) = some process → s.turns (pairId i) ≤ 1
  relocates : ∀ i, s.Relocates i

variable {s s' : Network n m} {i : Fin n} {cause : Cause n}

theorem relocates_of_idle (h : s.dispatchStage i = .idle) : s.Relocates i := by
  rw [Relocates, h]
  exact ⟨trivial, nofun⟩

/-! The beginning. -/

theorem Built.turns (h : s.Built) (q : ProcessId) : s.turns q = 0 := by
  have hnode : ∀ i, (s.node i).lines q = 0 := fun i => by
    obtain ⟨latency, hinbox⟩ := h.inbox i
    obtain ⟨latencies, hservice⟩ := h.service i
    simp [Node.lines, (h.signals i).1, (h.signals i).2, hinbox, hservice, Signal.new, Channel.new, PairService.new]
  have hhost : ∀ i, (s.host i).lines q = 0 := fun i => by
    obtain ⟨⟨latency, hfrom⟩, latencies, hpeers⟩ := h.host i
    have hget : ∀ j, ((latencies.map Channel.new).get j : Channel String ProcessId).waiters = [] := fun j => by
      change (latencies.map Channel.new)[j.val].waiters = []
      rw [Vector.getElem_map]
      rfl
    rw [Host.lines, hfrom, hpeers, Finset.sum_eq_zero fun j _ => by rw [hget j]; rfl]
    rfl
  have hlink : ∀ l, (s.wired l).lines q = 0 := fun l => by
    obtain ⟨config, a, b, hw, -⟩ := h.links l
    simp [WiredLink.lines, hw, WiredLink.new, Channel.new]
  simp [Network.turns, due, waits, h.ahead, hnode, hhost, hlink]

theorem turns_spawn (s : Network n m) (name : String) (a : Activity n m) (q : ProcessId) :
    (s.spawn name a).turns q = s.turns q + if s.fresh = q then 1 else 0 := by
  have h := (passes_schedule { s with processes := s.processes.insert s.fresh ⟨name, a⟩, fresh := s.fresh + 1 } 0
    (.resume s.fresh .go)).turns q
  simp only [NetworkEvent.resumed?, Option.some.injEq] at h
  exact h

/-- Each process has one turn when the network has been started. -/
theorem turns_start (ht : ∀ q, s.turns q = 0) (q : ProcessId) : s.start.turns q ≤ 1 := by
  have h : ∀ q, s.start.turns q ≤ 1 ∧ (s.start.fresh ≤ q → s.start.turns q = 0) := by
    refine start_invariant (I := fun s : Network n m => ∀ q, s.turns q ≤ 1 ∧ (s.fresh ≤ q → s.turns q = 0))
      (fun _ h => h) (fun s name a _ h q => ?_) fun q => ⟨by simp [ht], fun _ => ht q⟩
    obtain ⟨hle, hzero⟩ := h q
    have hfresh : (s.spawn name a).fresh = s.fresh + 1 := rfl
    rw [turns_spawn, hfresh]
    split
    · rename_i hq
      rw [hzero (Nat.le_of_eq hq)]
      exact ⟨Nat.le_refl _, fun h => absurd (hq ▸ h) (Nat.not_succ_le_self _)⟩
    · exact ⟨hle, fun h => hzero (Nat.le_of_succ_le h)⟩
  exact (h q).1

theorem Built.paced (h : s.Built) : s.Paced := by
  refine ⟨h.electron, fun _ => h.turns, fun i process hp => ?_, fun i => relocates_of_idle (h.dispatchStage i)⟩
  rw [h.turns]
  exact Nat.zero_le _

/-! The turns. -/

theorem Concludes.started {p : ProcessId} {process : Process n m}
    {result : Except Fault (Flow m (Activity n m) (Option Outcome))} (h : s.Concludes p process result s') :
    s'.started = s.started := by
  rcases h with ⟨flow, -, hr⟩ | ⟨-, rfl⟩
  · exact hr.spares.started
  · rfl

theorem Treads.started (h : s.Treads s') : s'.started = s.started := by
  cases h with
  | gone _ _ => rfl
  | pairing _ _ _ hr => exact hr.started.trans (spares_commit _ _ _).started
  | dispatch _ _ _ hr => exact hr.started.trans (spares_commit _ _ _).started
  | @host i _ _ _ _ w _ _ _ _ hr =>
    have hsp := spares_effects { s.setHost i w.part with quantum := w.quantum } w.effects
    exact hr.started.trans hsp.started

theorem Happens.unstarted (h : s.Happens cause s') (hs : s.Crewed) (hp : s.Paced) (hst : s'.started = false)
    (q : ProcessId) : s'.turns q = 0 := by
  cases h with
  | start hc =>
    cases hst' : s.started with
    | false =>
      rw [(start_launched hs hst').1] at hst
      cases hst
    | true =>
      rw [Network.start, if_pos hst', hst'] at hst
      cases hst
  | @hear p wake a hc ha =>
    have hzero : s.due p + s.waits p = 0 := hp.unstarted hst p
    simp [due, ha, NetworkEvent.resumed?] at hzero
  | pass hc hs ht =>
    rw [ht.turns, hp.unstarted (hs.started.symm.trans hst)]
  | @labour _ j x a hc hd hx =>
    have hst : s.started = false := (spares_commit { s with agenda := a } _ _).started.symm.trans hst
    have hz : ({ s with agenda := a } : Network n m).turns q = 0 := (congrArg (· + _) (hd q)).trans (hp.unstarted hst q)
    have hw := (hx.stirs (({ s with agenda := a } : Network n m).working j)).turns q (by simp)
    have hc := turns_commit { s with agenda := a } j (x.exec (({ s with agenda := a } : Network n m).working j)).2 q
    have hlines : (({ s with agenda := a } : Network n m).working j).turns q = (s.node j).lines q := Nat.zero_add _
    have hnode : (({ s with agenda := a } : Network n m).node j).lines q = (s.node j).lines q := rfl
    omega
  | tread h =>
    obtain ⟨p, hcur⟩ := h.going
    have hzero : s.due p + s.waits p = 0 := hp.unstarted (h.started.symm.trans hst) p
    have := due_of_current hcur
    omega

theorem Treads.present (h : s.Treads s') (hc : s.current.map Prod.fst = some (pairId i)) {process : Process n m}
    (hget : s'.processes.get? (pairId i) = some process) : ∃ process, s.processes.get? (pairId i) = some process := by
  cases h with
  | @gone p _ hcur hp => exact ⟨process, hget⟩
  | @pairing j _ _ _ _ _ _ hcur hp _ _ =>
    rw [hcur] at hc
    have hid : pairId j = pairId i := Option.some.inj hc
    exact ⟨_, hid ▸ hp⟩
  | @dispatch j _ _ _ _ _ _ hcur hp _ _ =>
    rw [hcur] at hc
    have hid : dispatchId j = pairId i := Option.some.inj hc
    exact ⟨_, hid ▸ hp⟩
  | @host j _ _ _ _ _ _ hcur hp _ _ =>
    rw [hcur] at hc
    have hid : hostId j = pairId i := Option.some.inj hc
    exact ⟨_, hid ▸ hp⟩

theorem Happens.once (h : s.Happens cause s') (hp : s.Paced) {process : Process n m}
    (hget : s'.processes.get? (pairId i) = some process) : s'.turns (pairId i) ≤ 1 := by
  by_cases hown : s.current.map Prod.fst = some (pairId i)
  · cases h with
    | tread h =>
      obtain ⟨process', hget'⟩ := h.present hown hget
      have hbefore := hp.once i process' hget'
      rcases h.own hown with ⟨t, k, hf⟩ | hf
      · exact Nat.le_trans hf.turns hbefore
      · exact Nat.le_trans (hf.turns process hget) hbefore
    | start hc => exact absurd hown (by simp [hc])
    | hear hc _ => exact absurd hown (by simp [hc])
    | pass hc _ _ => exact absurd hown (by simp [hc])
    | labour hc _ _ => exact absurd hown (by simp [hc])
  · rcases h.bystands hown ((hp.relocates i).1) with hb | ⟨hst, rfl⟩
    · exact Nat.le_trans hb.turns (hp.once i process (hb.process.symm.trans hget))
    · exact turns_start (hp.unstarted hst) _

/-! Dispatchers. -/

/-- A dispatcher that does not go on, and is not to, relocates nothing. -/
theorem Relocates.of_ne (h : s.Relocates i) (hc : s.current.map Prod.fst ≠ some (dispatchId i))
    (hst : s'.dispatchStage i = s.dispatchStage i) : s'.Relocates i := by
  have hr : (s.dispatchStage i).isRelocating = false := Bool.eq_false_iff.2 fun hr => hc (h.2 hr)
  rw [Relocates, hst]
  exact ⟨h.1.of_not_isRelocating hr, fun h => absurd h (by simp [hr])⟩

/-- A dispatcher at its own turn. -/
theorem Treads.relocates (h : s.Treads s') (hc : s.current.map Prod.fst = some (dispatchId i))
    (he : (s.node i).Electron) (hr : s.Relocates i) : s'.Relocates i := by
  cases h with
  | @gone p wake hcur hp =>
    obtain rfl : p = dispatchId i := by simpa [hcur] using hc
    refine relocates_of_idle ?_
    change s.dispatchStage i = _
    unfold dispatchStage
    rw [hp]
  | @pairing j name stage wake result w _ hcur hp hx hr =>
    rw [hcur] at hc
    exact absurd (Option.some.inj hc) (pairId_ne_dispatchId j i)
  | @host j name stage wake result w _ hcur hp hx hr =>
    rw [hcur] at hc
    exact absurd (Option.some.inj hc) (dispatchId_ne_hostId i j).symm
  | @dispatch j name stage wake result w _ hcur hp hx hr' =>
    obtain rfl : j = i := by
      rw [hcur] at hc
      exact dispatchId_inj.1 (Option.some.inj hc)
    have hstage : s.dispatchStage j = stage := dispatchStage_eq hp
    rcases hr' with ⟨flow, hflow, hr'⟩ | ⟨-, rfl⟩
    · cases result with
      | error f => exact nomatch hflow
      | ok flow =>
        cases hflow
        rw [Relocates, hstage] at hr
        obtain ⟨hparks, hrests⟩ := Dispatch.step_parks (dispatchId j) wake (w := s.working j) he hr.1 flow w hx
        have hslots := commit_slots s j w j
        rw [if_pos rfl] at hslots
        rw [Relocates, hr'.dispatchStage, (hslots.trans (hr'.slots j)).pool]
        refine ⟨hparks, fun hrel => ?_⟩
        cases flow with
        | go stage' =>
          cases hr' with
          | go _ => rfl
        | rest stage' => exact absurd hrel (by simp [hrests rfl])
        | call _ _ _ _ => exact nomatch dispatch_asks hx
        | finished e => exact nomatch e
    · refine relocates_of_idle ?_
      unfold dispatchStage
      rw [processes_drop, if_pos rfl]

theorem Happens.relocates (h : s.Happens cause s') (hs : s.Crewed) (he : (s.node i).Electron) (hr : s.Relocates i) :
    s'.Relocates i := by
  have hnone : s.current = none → s.current.map Prod.fst ≠ some (dispatchId i) := fun hc => by simp [hc]
  cases h with
  | start hc => exact hr.of_ne (hnone hc) (start_dispatchStage hs i)
  | hear hc _ => exact hr.of_ne (hnone hc) rfl
  | pass hc h _ => exact hr.of_ne (hnone hc) (dispatchStage_congr h.processes i)
  | labour hc _ _ => exact hr.of_ne (hnone hc) (dispatchStage_congr (spares_commit _ _ _).processes i)
  | tread h =>
    by_cases hc : s.current.map Prod.fst = some (dispatchId i)
    · exact h.relocates hc he hr
    · exact hr.of_ne hc (dispatchStage_of_get? (h.processes_of_ne hc))

theorem Happens.paced (h : s.Happens cause s') (hs : s.Crewed) (hp : s.Paced) : s'.Paced := by
  exact ⟨fun i => (h.build i).electron (hp.electron i), h.unstarted hs hp, fun i process => h.once hp,
    fun i => h.relocates hs (hp.electron i) (hp.relocates i)⟩

theorem Course.paced {c : NetworkConfig} {past : List (Stride c.nodes.length c.links.length)}
    {s : Network c.nodes.length c.links.length} (h : Course c past s) : s.Paced := by
  induction h with
  | built h => exact (built_of_build h).paced
  | step hprev hf ih => exact (hf.happens hprev.crewed).paced hprev.crewed ih

end Network

end QuantumNode
