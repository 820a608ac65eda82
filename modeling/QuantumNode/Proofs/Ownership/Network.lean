import QuantumNode.Proofs.Isolation.Frame
import QuantumNode.Proofs.Network.Bystander
import QuantumNode.Proofs.Ownership.Fault

/-! In every reachable state of a network each node's slots are accounted for: a slot that is allocated is mapped by
one virtual id of one application, or held by the pair or the measurement that is under way, or lost to a fault. -/
namespace QuantumNode

open Node Work Working

variable {n m : Nat}

namespace Node

variable {node node' : Node n m} {held : List Nat}

theorem Accounted.congr (h : node.Accounted held) (hs : node.SameSlots node') : node'.Accounted held :=
  h.of_same (hs.apps ▸ h.ascending) (maps_congr hs.apps) hs.pool

theorem Electron.congr (h : node.Electron) (hs : node.SameSlots node') : node'.Electron :=
  h.of_same (by rw [hs.device]) fun p => by rw [hs.pool]

theorem Enrolled.congr (h : node.Enrolled) (hs : node.SameSlots node') : node'.Enrolled := fun app happ => by
  rw [hasApp, hs.apps] at happ
  rw [hs.dispatcher]
  exact h app happ

theorem SameSlots.stillMaps (hs : node.SameSlots node') {app virt : Int} {p : Nat} (h : node.StillMaps app virt p) :
    node'.StillMaps app virt p :=
  h.mono (maps_congr hs.apps ..).2 fun hg => by rwa [Gone, hasApp, hs.apps, hs.dispatcher]

theorem Serves.mono {stage : DispatchStage} (h : node.Serves stage)
    (hm : ∀ {a v p}, node.StillMaps a v p → node'.StillMaps a v p) (hc : node'.device.config = node.device.config) :
    node'.Serves stage := by
  cases stage with
  | running app e => exact Sound.mono h hm hc
  | _ => trivial

theorem Serves.congr {stage : DispatchStage} (h : node.Serves stage) (hs : node.SameSlots node') : node'.Serves stage :=
  h.mono hs.stillMaps (by rw [hs.device])

end Node

/-- Nobody loses a slot, and applications that have gone do not come back. -/
theorem Working.Lodges.serves {w w' : Working (Node n m) n m} {a b : List Nat} {stage : DispatchStage} (h : Lodges a b w w')
    (he : Enrols w w') (hs : w.part.Serves stage) : w'.part.Serves stage :=
  hs.mono (fun hm => hm.mono h.keeps he.gone) h.config

namespace Network

/-- The slots of a node that the pair and the measurement under way hold. -/
def held (s : Network n m) (i : Fin n) : List Nat := (s.pairStage i).held ++ (s.dispatchStage i).held

/-- A node's slots are accounted for, and the measurement under way finds what it relies on. -/
structure Owned (lost : List Nat) (s : Network n m) (i : Fin n) : Prop where
  accounted : (s.node i).Accounted (lost ++ s.held i)
  electron : (s.node i).Electron
  enrolled : (s.node i).Enrolled
  serves : (s.node i).Serves (s.dispatchStage i)

variable {s s' : Network n m} {i : Fin n} {lost given taken others more : List Nat} {w : Working (Node n m) n m}

theorem Owned.congr (h : s.Owned lost i) (hs : (s.node i).SameSlots (s'.node i)) (hps : s'.pairStage i = s.pairStage i)
    (hds : s'.dispatchStage i = s.dispatchStage i) : s'.Owned lost i := by
  refine ⟨?_, h.electron.congr hs, h.enrolled.congr hs, ?_⟩
  · rw [held, hps, hds]
    exact h.accounted.congr hs
  · rw [hds]
    exact h.serves.congr hs

theorem Owned.spares (h : s.Owned lost i) (hs : Spares s s') : s'.Owned lost i :=
  h.congr (hs.slots i) (pairStage_congr hs.processes i) (dispatchStage_congr hs.processes i)

/-- Work that exchanges some of the slots that are held for others, of which some are lost. -/
theorem Owned.works (h : s.Owned lost i) (hgiven : (s.held i).Perm (given ++ others)) (ht : Trades given taken (s.working i) w)
    (he : Enrols (s.working i) w) (hslots : w.part.SameSlots (s'.node i)) (hserves : w.part.Serves (s'.dispatchStage i))
    (htaken : (taken ++ others).Perm (more ++ s'.held i)) : s'.Owned (more ++ lost) i := by
  refine ⟨?_, (ht.electron h.electron).congr hslots, (he.enrolled h.enrolled).congr hslots, hserves.congr hslots⟩
  have hbefore : (lost ++ s.held i).Perm (given ++ (others ++ lost)) := by
    rw [← List.append_assoc]
    exact List.perm_append_comm.trans (hgiven.append_right lost)
  have hafter : (taken ++ (others ++ lost)).Perm ((more ++ lost) ++ s'.held i) := by
    rw [← List.append_assoc, List.append_assoc more]
    refine (htaken.append_right lost).trans ?_
    rw [List.append_assoc]
    exact List.perm_append_comm.append_left more
  exact ((ht.accounted _ (h.accounted.perm hbefore)).perm hafter).congr hslots

/-- Work at a node beside its processes. -/
theorem Owned.commit (h : s.Owned lost i) (ht : Trades [] more (s.working i) w) (he : Enrols (s.working i) w)
    (hserves : w.part.Serves (s.dispatchStage i)) : (s.commit i w).Owned (more ++ lost) i := by
  have hslots := commit_slots s i w i
  rw [if_pos rfl] at hslots
  have hgiven : (s.held i).Perm ([] ++ s.held i) := .refl _
  have hps : (s.commit i w).pairStage i = s.pairStage i := pairStage_congr (spares_commit s i w).processes i
  have hds : (s.commit i w).dispatchStage i = s.dispatchStage i := dispatchStage_congr (spares_commit s i w).processes i
  refine h.works hgiven ht he hslots (hds ▸ hserves) ?_
  rw [held, held, hps, hds]

/-- A step of the pair service. -/
theorem Owned.pairing (h : s.Owned lost i) (hl : Lodges (s.pairStage i).held taken (s.working i) w)
    (he : Enrols (s.working i) w) (hslots : w.part.SameSlots (s'.node i))
    (hds : s'.dispatchStage i = s.dispatchStage i) (htaken : taken.Perm (more ++ (s'.pairStage i).held)) :
    s'.Owned (more ++ lost) i := by
  refine h.works (.refl _) hl.toTrades he hslots (hds ▸ hl.serves he h.serves) ?_
  rw [held, hds, ← List.append_assoc]
  exact htaken.append_right _

/-- A step of the dispatcher. -/
theorem Owned.dispatch (h : s.Owned lost i) (ht : Trades (s.dispatchStage i).held taken (s.working i) w)
    (he : Enrols (s.working i) w) (hslots : w.part.SameSlots (s'.node i)) (hps : s'.pairStage i = s.pairStage i)
    (hserves : w.part.Serves (s'.dispatchStage i)) (htaken : taken.Perm (more ++ (s'.dispatchStage i).held)) :
    s'.Owned (more ++ lost) i := by
  refine h.works List.perm_append_comm ht he hslots hserves ?_
  rw [held, hps]
  refine (htaken.append_right _).trans ?_
  rw [List.append_assoc]
  exact List.perm_append_comm.append_left more

/-- A small step of a process of the node. -/
theorem Advances.owned (h : s.Advances s') (ho : s.Owned lost i)
    (hown : s.current.map Prod.fst = some (pairId i) ∨ s.current.map Prod.fst = some (dispatchId i)) :
    s'.Owned lost i := by
  cases h with
  | gone _ _ => exact ho.congr (.refl _) rfl rfl
  | @pairing j name stage wake flow w _ hc hp hx hr =>
    simp only [hc, Option.map_some, Option.some.injEq] at hown
    obtain rfl : j = i := hown.elim (fun h => pairId_inj.1 h) fun h => absurd h (pairId_ne_dispatchId j i)
    have hslots := (commit_slots s j w j).trans (hr.slots j)
    rw [if_pos rfl] at hslots
    have hds : s'.dispatchStage j = s.dispatchStage j :=
      (hr.dispatchStage_of_ne (pairId_ne_dispatchId j j).symm).trans
        (dispatchStage_congr (spares_commit s j w).processes j)
    have hl : Lodges (s.pairStage j).held flow.stage.held (s.working j) w := by
      rw [pairStage_eq hp]
      exact Pairing.step_lodges (pairId j) stage wake flow w hx
    have htaken : flow.stage.held.Perm ([] ++ (s'.pairStage j).held) := by
      rw [hr.pairStage]
      exact .refl _
    exact ho.pairing hl ((Pairing.step_enrols (pairId j) stage wake).of_exec hx) hslots hds htaken
  | @dispatch j name stage wake flow w _ hc hp hx hr =>
    simp only [hc, Option.map_some, Option.some.injEq] at hown
    obtain rfl : j = i := hown.elim (fun h => absurd h.symm (pairId_ne_dispatchId i j)) fun h => dispatchId_inj.1 h
    have hslots := (commit_slots s j w j).trans (hr.slots j)
    rw [if_pos rfl] at hslots
    have hps : s'.pairStage j = s.pairStage j :=
      (hr.pairStage_of_ne (pairId_ne_dispatchId j j)).trans (pairStage_congr (spares_commit s j w).processes j)
    have hds : s.dispatchStage j = stage := dispatchStage_eq hp
    have hout := Dispatch.step_outcome (dispatchId j) stage wake ho.accounted.ascending ho.electron (hds ▸ ho.serves)
      flow w hx
    have hstage : Trades stage.held flow.stage.held (s.working j) w ∧ w.part.Serves flow.stage := by
      cases flow with
      | go _ => exact hout
      | rest _ => exact hout
      | call _ _ _ _ => exact absurd hout id
      | finished e => exact nomatch e
    have htaken : flow.stage.held.Perm ([] ++ (s'.dispatchStage j).held) := by
      rw [hr.dispatchStage]
      exact .refl _
    refine ho.dispatch (hds ▸ hstage.1) ((Dispatch.step_enrols (dispatchId j) stage wake).of_exec hx) hslots hps ?_ htaken
    rw [hr.dispatchStage]
    exact hstage.2
  | @host j _ _ _ _ _ _ hc _ _ _ =>
    simp only [hc, Option.map_some, Option.some.injEq] at hown
    exact hown.elim (fun h => absurd h.symm (pairId_ne_hostId i j)) fun h => absurd h.symm (dispatchId_ne_hostId i j)

/-- A small step of another process, be it a fault. -/
theorem Treads.owned_of_ne (h : s.Treads s') (ho : s.Owned lost i)
    (hown : ¬ (s.current.map Prod.fst = some (pairId i) ∨ s.current.map Prod.fst = some (dispatchId i))) :
    s'.Owned lost i := by
  obtain ⟨hpair, hdispatch⟩ := not_or.1 hown
  refine ho.congr ?_ (pairStage_of_get? (h.processes_of_ne hpair)) (dispatchStage_of_get? (h.processes_of_ne hdispatch))
  cases h.reaches i with
  | spares hslots _ _ _ => exact hslots
  | works hshift _ _ =>
    cases hshift with
    | labour hc _ _ =>
      obtain ⟨p, hp⟩ := h.going
      rw [hc] at hp
      exact nomatch hp
    | pairing hc => exact absurd (congrArg (Option.map Prod.fst) hc) hpair
    | dispatch hc => exact absurd (congrArg (Option.map Prod.fst) hc) hdispatch

/-- A pair service that has its turn goes on, or ends with a fault of its own or of the link that it calls. -/
theorem Treads.own_pairing (h : s.Treads s') (hown : s.current.map Prod.fst = some (pairId i)) :
    s.Advances s' ∨ ∃ wake result w, (Pairing.step (pairId i) (s.pairStage i) wake).exec (s.working i) = (result, w) ∧
      s'.pairStage i = .idle ∧ w.part.SameSlots (s'.node i) := by
  cases h with
  | gone hc hp => exact .inl (.gone hc hp)
  | @pairing j name stage wake result w _ hc hp hx hr =>
    simp only [hc, Option.map_some, Option.some.injEq] at hown
    obtain rfl := pairId_inj.1 hown
    have hslots := hr.slots_commit (i := j)
    rw [if_pos rfl] at hslots
    rcases hr with ⟨flow, hflow, hr⟩ | ⟨-, rfl⟩
    · cases result with
      | error f => exact nomatch hflow
      | ok flow =>
        cases hflow
        exact .inl (.pairing hc hp hx hr)
    · refine .inr ⟨wake, result, w, by rwa [pairStage_eq hp], pairStage_of_gone ?_, hslots⟩
      rw [processes_drop, if_pos rfl]
  | @dispatch j _ _ _ _ _ _ hc _ _ _ =>
    simp only [hc, Option.map_some, Option.some.injEq] at hown
    exact absurd hown.symm (pairId_ne_dispatchId i j)
  | @host j _ _ _ _ _ _ hc _ _ _ =>
    simp only [hc, Option.map_some, Option.some.injEq] at hown
    exact absurd hown.symm (pairId_ne_hostId i j)

/-- A dispatcher that has its turn goes on, or ends with a fault of its own. -/
theorem Treads.own_dispatch (h : s.Treads s') (hown : s.current.map Prod.fst = some (dispatchId i)) :
    s.Advances s' ∨ ∃ wake f w, (Dispatch.step (dispatchId i) (s.dispatchStage i) wake).exec (s.working i) = (.error f, w) ∧
      s'.dispatchStage i = .idle ∧ w.part.SameSlots (s'.node i) := by
  cases h with
  | gone hc hp => exact .inl (.gone hc hp)
  | @pairing j _ _ _ _ _ _ hc _ _ _ =>
    simp only [hc, Option.map_some, Option.some.injEq] at hown
    exact absurd hown (pairId_ne_dispatchId j i)
  | @dispatch j name stage wake result w _ hc hp hx hr =>
    simp only [hc, Option.map_some, Option.some.injEq] at hown
    obtain rfl := dispatchId_inj.1 hown
    have hslots := hr.slots_commit (i := j)
    rw [if_pos rfl] at hslots
    rcases hr with ⟨flow, hflow, hr⟩ | ⟨hasks, rfl⟩
    · cases result with
      | error f => exact nomatch hflow
      | ok flow =>
        cases hflow
        exact .inl (.dispatch hc hp hx hr)
    · cases result with
      | ok flow =>
        have hloud := hasks _ rfl
        rw [Flow.asks_map, Dispatch.step_local (dispatchId j) stage wake _ _ _ hx] at hloud
        exact nomatch hloud
      | error f =>
        refine .inr ⟨wake, f, w, by rwa [dispatchStage_eq hp], dispatchStage_of_gone ?_, hslots⟩
        rw [processes_drop, if_pos rfl]
  | @host j _ _ _ _ _ _ hc _ _ _ =>
    simp only [hc, Option.map_some, Option.some.injEq] at hown
    exact absurd hown.symm (dispatchId_ne_hostId i j)

/-- A small step of a process of the node. What it holds is lost if it meets a fault. -/
theorem Treads.owned (h : s.Treads s') (ho : s.Owned lost i)
    (hown : s.current.map Prod.fst = some (pairId i) ∨ s.current.map Prod.fst = some (dispatchId i)) :
    ∃ more, s'.Owned (more ++ lost) i := by
  have hkept (hadv : s.Advances s') : ∃ more, s'.Owned (more ++ lost) i := ⟨[], hadv.owned ho hown⟩
  have hother : ∀ {p q : ProcessId}, s.current.map Prod.fst = some p → p ≠ q →
      s'.processes.get? q = s.processes.get? q := fun hp hne =>
    h.processes_of_ne fun hq => hne (Option.some.inj (hp.symm.trans hq))
  rcases hown with hpair | hdispatch
  · rcases h.own_pairing hpair with hadv | ⟨wake, result, w, hx, hidle, hslots⟩
    · exact hkept hadv
    · obtain ⟨taken, hl⟩ : Strands Lodges (s.pairStage i).held (s.working i) w := by
        cases result with
        | error f => exact Pairing.step_strands (pairId i) _ wake f w hx
        | ok flow => exact ⟨_, Pairing.step_lodges (pairId i) _ wake flow w hx⟩
      refine ⟨taken, ho.pairing hl ((Pairing.step_enrols (pairId i) _ wake).of_exec hx) hslots
        (dispatchStage_of_get? (hother hpair (pairId_ne_dispatchId i i))) ?_⟩
      rw [hidle]
      exact .of_eq (List.append_nil _).symm
  · rcases h.own_dispatch hdispatch with hadv | ⟨wake, f, w, hx, hidle, hslots⟩
    · exact hkept hadv
    · obtain ⟨taken, ht⟩ := Dispatch.step_strands (dispatchId i) _ wake ho.accounted.ascending ho.electron ho.serves f w hx
      refine ⟨taken, ho.dispatch ht ((Dispatch.step_enrols (dispatchId i) _ wake).of_exec hx) hslots
        (pairStage_of_get? (hother hdispatch (pairId_ne_dispatchId i i).symm)) ?_ ?_⟩
      · rw [hidle]
        trivial
      · rw [hidle]
        exact .of_eq (List.append_nil _).symm

end Network

/-! Work from outside. -/

theorem NodeAct.work_lodges {a : NodeAct} (ha : ∀ app, a ≠ .stop app) :
    Within (Lodges [] []) (a.work : NodeWork n m Unit) := by
  cases a with
  | register maxQubits => exact (Dispatch.initApp_lodges maxQubits).bind fun _ => .pure _
  | declare app address values =>
    refine Within.lodges (Node.updateMemory_mild app fun _ _ h => ?_)
    cases h
    rfl
  | openSocket app socket remote => exact Within.lodges (Pairing.openSocket_mild _ _ _)
  | submit r => exact Within.lodges (Node.submit_still r).thrifty
  | abort app => exact Within.lodges (Pairing.abort_sociable app)
  | stop app => exact absurd rfl (ha app)
  | clearOnStop clear => exact Within.lodges (Dispatch.modifyDispatcher_steering _)

/-- A slot that is taken by hand is held by nobody. -/
theorem SlotAct.work_lodges {a : SlotAct} (ha : ∀ slot, a ≠ .free slot) (w : Working (Node n m) n m) :
    ∃ more, Lodges [] more w (a.work.exec w).2 := by
  have htake : ∀ {x : NodeWork n m Nat}, (Ends x w fun p w' => Lodges [] [p] w w') → Halts x w (· = w) →
      ∃ more, Lodges [] more w ((do let _ ← x : NodeWork n m Unit).exec w).2 := fun {x} hok hfault => by
    rw [exec_bind]
    rcases hx : x.exec w with ⟨f | p, w'⟩
    · obtain rfl := hfault f w' hx
      exact ⟨[], Std.Refl.refl w'⟩
    · exact ⟨[p], hok p w' hx⟩
  cases a with
  | allocate => exact htake allocate_lodges allocate_halts
  | allocateCommunication => exact htake allocateCommunication_lodges allocateCommunication_halts
  | free slot => exact absurd rfl (ha slot)

/-- Somebody outside returns a slot of a node, whosever it is. -/
def Cause.frees (cause : Cause n) (i : Fin n) : Prop := ∃ slot, cause = .slots i (.free slot)

namespace Network

/-- What a step of a run does not do to a node: no process of it meets a fault, and nobody takes or returns its slots by
hand. -/
structure Stride.Frugal (x : Stride n m) (i : Fin n) : Prop where
  copes : ∀ f s', x.before.proceed = .failed f s' →
    ¬ (x.before.current.map Prod.fst = some (pairId i) ∨ x.before.current.map Prod.fst = some (dispatchId i))
  slots : ∀ a, x.cause ≠ .slots i a

theorem Stride.Frugal.not_frees {x : Stride n m} {i : Fin n} (h : x.Frugal i) : ¬ x.cause.frees i :=
  fun ⟨slot, hcause⟩ => h.slots (.free slot) hcause

variable {s s' : Network n m} {i : Fin n} {lost : List Nat} {cause : Cause n}

theorem Owned.labour {x : NodeWork n m Unit} (h : s.Owned lost i) (hl : Labour i cause x) (hfree : ¬ cause.frees i) :
    ∃ more, (s.commit i (x.exec (s.working i)).2).Owned (more ++ lost) i ∧ ((∀ a, cause ≠ .slots i a) → more = []) := by
  have henrols : Enrols (s.working i) (x.exec (s.working i)).2 := hl.sociable _
  have hlodges : ∀ {more}, Lodges [] more (s.working i) (x.exec (s.working i)).2 →
      (s.commit i (x.exec (s.working i)).2).Owned (more ++ lost) i :=
    fun hl => h.commit hl.toTrades henrols (hl.serves henrols h.serves)
  cases hl with
  | news => exact ⟨[], hlodges (Node.notifyNews_still.thrifty.lodges _), fun _ => rfl⟩
  | slots a =>
    have ha : ∀ slot, a ≠ .free slot := fun slot ha => hfree ⟨slot, congrArg (Cause.slots i) ha⟩
    obtain ⟨more, hmore⟩ := SlotAct.work_lodges ha (s.working i)
    exact ⟨more, hlodges hmore, fun hslots => absurd rfl (hslots a)⟩
  | act a =>
    refine ⟨[], ?_, fun _ => rfl⟩
    by_cases ha : ∃ app, a = .stop app
    · obtain ⟨app, rfl⟩ := ha
      obtain ⟨_, w, hx, ht, -⟩ := (Dispatch.stopApp_attains (w := s.working i) h.accounted app).ends
        (Dispatch.stopApp_trades app)
      have hkeeps := Dispatch.stopApp_keeps app () w hx
      rw [NodeAct.work, hx] at henrols ⊢
      refine h.commit ht henrols (h.serves.mono (fun {a v p} hm => ?_) ht.config)
      rcases hm with hmaps | hgone
      · refine (hkeeps a v p hmaps).imp_right fun hno => ⟨hno, ?_⟩
        obtain ⟨mem, hmem, -⟩ := hmaps
        have hlt := h.enrolled a (by rw [hasApp, SortedMap.contains, hmem]; rfl)
        have hnext : (s.node i).dispatcher.nextApp ≤ w.part.dispatcher.nextApp := henrols.next
        change a < (w.part.dispatcher.nextApp : Int)
        omega
      · exact .inr (henrols.gone hgone)
    · exact hlodges (NodeAct.work_lodges (fun app h => ha ⟨app, h⟩) _)

/-- A step of a run keeps a node's slots accounted for, as long as nobody outside returns them. None is lost unless a
process of the node meets a fault, or slots are taken by hand. -/
theorem Follows.owned (h : s.Follows cause s') (hs : s.Crewed) (hfree : ¬ cause.frees i) (ho : s.Owned lost i) :
    ∃ more, s'.Owned (more ++ lost) i ∧ ((⟨s, cause, s'⟩ : Stride n m).Frugal i → more = []) := by
  have hkept (h : s'.Owned lost i) : ∃ more, s'.Owned (more ++ lost) i ∧
      ((⟨s, cause, s'⟩ : Stride n m).Frugal i → more = []) := ⟨[], h, fun _ => rfl⟩
  have hadv (hx : (⟨s, cause, s'⟩ : Stride n m).Frugal i)
      (hown : s.current.map Prod.fst = some (pairId i) ∨ s.current.map Prod.fst = some (dispatchId i)) : s.Advances s' := by
    have hfine : ∀ f, s.proceed ≠ .failed f s' := fun f hfail => hx.copes f _ hfail hown
    exact hown.elim (fun hc => h.advances hs hc hfine) fun hc => h.advances hs hc hfine
  cases h.happens hs with
  | start _ =>
    refine hkept (ho.congr ?_ (start_pairStage hs i) (start_dispatchStage hs i))
    rw [start_node]
    exact .refl _
  | hear _ _ => exact hkept (ho.congr (.refl _) rfl rfl)
  | pass _ hspares _ => exact hkept (ho.spares hspares)
  | @labour _ j x a _ _ hl =>
    let s₁ : Network n m := { s with agenda := a }
    have ho₁ : s₁.Owned lost i := ho.congr (.refl _) rfl rfl
    by_cases hj : i = j
    · subst hj
      obtain ⟨more, hmore, hnone⟩ := ho₁.labour hl hfree
      exact ⟨more, hmore, fun hx => hnone hx.slots⟩
    · have hslots := commit_slots s₁ j (x.exec (s₁.working j)).2 i
      rw [if_neg hj] at hslots
      have hprocesses := (spares_commit s₁ j (x.exec (s₁.working j)).2).processes
      exact hkept (ho₁.congr hslots (pairStage_congr hprocesses i) (dispatchStage_congr hprocesses i))
  | tread ht =>
    by_cases hown : s.current.map Prod.fst = some (pairId i) ∨ s.current.map Prod.fst = some (dispatchId i)
    · by_cases hx : (⟨s, .network, s'⟩ : Stride n m).Frugal i
      · exact hkept ((hadv hx hown).owned ho hown)
      · obtain ⟨more, hmore⟩ := ht.owned ho hown
        exact ⟨more, hmore, fun hx' => absurd hx' hx⟩
    · exact hkept (ht.owned_of_ne ho hown)

theorem Built.owned {s : Network n m} (h : s.Built) (i : Fin n) : s.Owned [] i := by
  have hmaps : ∀ app virt p, ¬ (s.node i).Maps app virt p := fun app virt p ⟨mem, hmem, _⟩ => by
    rw [h.apps i] at hmem
    exact nomatch hmem
  refine ⟨?_, h.electron i, fun app happ => ?_, ?_⟩
  · rw [held, h.pairStage, h.dispatchStage]
    exact {
      ascending := by
        rw [h.apps i]
        exact SortedMap.ascending_empty
      injective := fun hm => absurd hm (hmaps _ _ _)
      allocated := fun hm => absurd hm (hmaps _ _ _)
      apart := fun hm => absurd hm (hmaps _ _ _)
      heldAllocated := nofun
      nodup := .nil
      covered := fun ha => by
        rw [h.unallocated i] at ha
        exact nomatch ha }
  · rw [hasApp, h.apps i] at happ
    exact nomatch happ
  · rw [h.dispatchStage]
    trivial

section Course

variable {c : NetworkConfig} {past : List (Stride c.nodes.length c.links.length)}
  {s : Network c.nodes.length c.links.length}

/-- Along every run a node's slots are accounted for, as long as nobody outside returns them. -/
theorem Course.owned (h : Course c past s) (i : Fin c.nodes.length) (hpast : ∀ x ∈ past, ¬ x.cause.frees i) :
    ∃ lost, s.Owned lost i := by
  induction h with
  | built h => exact ⟨[], (built_of_build h).owned i⟩
  | step h hf ih =>
    rw [List.forall_mem_cons] at hpast
    obtain ⟨lost, ho⟩ := ih hpast.2
    obtain ⟨more, hmore, -⟩ := hf.owned h.crewed hpast.1 ho
    exact ⟨_, hmore⟩

/-- No slot of a node is lost without a fault of a process of its own. -/
theorem Course.owned_of_frugal (h : Course c past s) (i : Fin c.nodes.length) (hpast : ∀ x ∈ past, x.Frugal i) :
    s.Owned [] i := by
  induction h with
  | built h => exact (built_of_build h).owned i
  | step h hf ih =>
    rw [List.forall_mem_cons] at hpast
    obtain ⟨more, hmore, hnone⟩ := hf.owned h.crewed hpast.1.not_frees (ih hpast.2)
    rwa [hnone hpast.1] at hmore

end Course

theorem Moves.frugal (h : s.Moves s') (i : Fin n) : (⟨s, .network, s'⟩ : Stride n m).Frugal i := by
  refine ⟨fun f s'' hf => ?_, nofun⟩
  have hidle (hc : s.current = none) :
      ¬ (s.current.map Prod.fst = some (pairId i) ∨ s.current.map Prod.fst = some (dispatchId i)) := by simp [hc]
  cases h with
  | start hc => exact hidle hc
  | proceed h => exact nomatch h.symm.trans hf
  | begin hc _ => exact hidle hc
  | wait hc _ => exact hidle hc

theorem act_frugal {a : ClientAct n} (hc : s.current = none) (i : Fin n) :
    (⟨s, .client a, s'⟩ : Stride n m).Frugal i :=
  ⟨fun _ _ _ => by simp [hc], nofun⟩

section Trace

variable {c : NetworkConfig} {may : ClientAct c.nodes.length → Prop}
  {past : List (Moment c.nodes.length c.links.length)} {s : Network c.nodes.length c.links.length}

/-- A run in which no fault is met. -/
theorem Trace.frugal (h : Trace c may past s) : ∃ strides, Course c strides s ∧ ∀ x ∈ strides, ∀ i, x.Frugal i := by
  induction h with
  | built h => exact ⟨[], .built h, fun _ hx => absurd hx List.not_mem_nil⟩
  | @move past s s' h hm ih =>
    obtain ⟨strides, hcourse, ho⟩ := ih
    exact ⟨⟨s, .network, s'⟩ :: strides, hcourse.step (.moves hm), List.forall_mem_cons.2 ⟨hm.frugal, ho⟩⟩
  | @act past s s' h a _ hc hr ih =>
    obtain ⟨strides, hcourse, ho⟩ := ih
    exact ⟨⟨s, .client a, s'⟩ :: strides, hcourse.step (.of_run hc hr), List.forall_mem_cons.2 ⟨act_frugal hc, ho⟩⟩

/-- Along every such run each node's slots are accounted for. -/
theorem Trace.owned (h : Trace c may past s) (i : Fin c.nodes.length) : s.Owned [] i := by
  obtain ⟨strides, hcourse, ho⟩ := h.frugal
  exact hcourse.owned_of_frugal i fun x hx => ho x hx i

end Trace

end Network

/-- Whatever a client does but stop an application on the spot. Stopping is left to messages for the node. -/
def ClientAct.Orderly : ClientAct n → Prop
  | .atNode _ (.stop _) => False
  | _ => True

instance : DecidablePred (ClientAct.Orderly (n := n))
  | .atNode _ (.stop _) => .isFalse id
  | .atNode _ (.register _) | .atNode _ (.declare ..) | .atNode _ (.openSocket ..) | .atNode _ (.submit _)
  | .atNode _ (.abort _) | .atNode _ (.clearOnStop _) | .post .. | .enqueue .. | .alarm .. => .isTrue trivial

end QuantumNode
