import QuantumNode.Proofs.Network.Course
import QuantumNode.Proofs.Node.Parking
import QuantumNode.Proofs.Node.Supply

/-! How a pair service waits for a slot to communicate with. It is told of every slot that becomes free, and of nothing
else; it tries again once for what it has been told, and counts each time that it finds nothing. -/
namespace QuantumNode

open Node Work Working

variable {n m : Nat}

/-! What the work of a node does to the slots, and to whoever waits for one. -/

/-- Either no slot that communicates has become free and no application has been aborted, or whoever waits for a slot
goes on. -/
def Working.Heeds (told : Prop) (w w' : Working (Node n m) n m) : Prop :=
  Retains w w' ∨ w.part.memoryFreed.notified < w'.part.memoryFreed.notified ∧ (w'.part.memoryFreed.waiters = [] ∧
    ∀ q, w.resumed q + w.part.memoryFreed.waiters.count q ≤ w'.resumed q) ∧
      (told ∨ ∃ slot, w.part.pool.isAllocated slot = true ∧ w'.part.pool.isAllocated slot = false)

theorem Working.Stirs.woken {x : Option ProcessId} {w w' : Working (Node n m) n m} (h : Stirs x w w')
    (hlt : w.part.memoryFreed.notified < w'.part.memoryFreed.notified) : w'.part.memoryFreed.waiters = [] ∧
      ∀ q, w.resumed q + w.part.memoryFreed.waiters.count q ≤ w'.resumed q := by
  rcases h.freed with hsame | ⟨-, h⟩
  · have hsame : w'.part.memoryFreed = w.part.memoryFreed := hsame
    rw [hsame] at hlt
    exact absurd hlt (Nat.lt_irrefl _)
  · exact h

theorem Working.Supplies.heeds {x : Option ProcessId} {w w' : Working (Node n m) n m} {told : Prop} (h : Supplies w w')
    (hs : Stirs x w w') : Heeds told w w' := by
  rcases h with h | h
  · exact .inl h
  · rcases h.freed with ⟨hf, ha⟩ | ⟨hlt, hslot⟩
    · exact .inl ⟨hf, fun slot _ h => (ha slot).trans h, h.aborted⟩
    · exact .inr ⟨hlt, hs.woken hlt, .inr hslot⟩

theorem Node.exec_abortLink (remote : Int) (w : Working (Node n m) n m) :
    ∃ w', (abortLink remote).exec w = (.ok (), w') ∧ w'.part = w.part := by
  rcases hl : w.part.ports.links.get? remote with _ | ⟨l, e⟩
  · refine ⟨w, ?_, rfl⟩
    simp only [abortLink, exec_bind, exec_part, hl, exec_pure]
  · refine ⟨{ w with effects := w.effects.push (.abortLink l e) }, ?_, rfl⟩
    simp only [abortLink, exec_bind, exec_part, hl, exec_emit]

/-- Whoever waits for a slot is told when an application is aborted. -/
theorem Pairing.abort_notifies (app : Int) (w : Working (Node n m) n m) :
    w.part.memoryFreed.notified < ((Pairing.abort app).exec w).2.part.memoryFreed.notified := by
  have hrest : ∀ w : Working (Node n m) n m, w.part.memoryFreed.notified <
      ((do notifyMemoryFreed; notifyArrayWritten : NodeWork n m Unit).exec w).2.part.memoryFreed.notified := fun w => by
    obtain ⟨w₁, h₁, hpart₁, -⟩ := exec_notifyMemoryFreed w
    obtain ⟨w₂, h₂, hpart₂, -⟩ := exec_notifyArrayWritten w₁
    rw [exec_bind, h₁]
    simp only [h₂, hpart₂, hpart₁]
    exact Nat.lt_succ_self _
  have hcall : ∀ call, w.part.memoryFreed.notified <
      ((Pairing.abort app).exec { w with part.service.inFlight := call }).2.part.memoryFreed.notified := fun call => by
    let w₁ : Working (Node n m) n m :=
      { w with
        part.service := { w.part.service with inFlight := call }.markAborted app
        effects := w.effects.push
          (.log .info (w.part.component "Netstack") s!"aborting entanglement requests of app {app}") }
    rcases call with _ | ⟨owner, remote⟩
    · exact hrest w₁
    · have he : (Pairing.abort app).exec { w with part.service.inFlight := some (owner, remote) } =
          (if owner = app then do
            abortLink remote
            notifyMemoryFreed
            notifyArrayWritten
          else do
            notifyMemoryFreed
            notifyArrayWritten : NodeWork n m Unit).exec w₁ := rfl
      rw [he]
      split
      · obtain ⟨w₂, h₂, hpart⟩ := exec_abortLink remote w₁
        rw [exec_bind, h₂]
        have := hrest w₂
        rwa [hpart] at this
      · exact hrest w₁
  exact hcall w.part.service.inFlight

/-- What a client does to a node lets nobody begin to wait. -/
theorem NodeAct.work_sociable {R : Working (Node n m) n m → Working (Node n m) n m → Prop} [Placid R]
    [∀ app, Filling app R] [Steering R] [Pooling R] [Dispatch.Enrolling R] [∀ app, Wiping app R] [Vocal R] (a : NodeAct)
    (hm : ∀ app, a = .abort app → Marking app R) : Within R (a.work : NodeWork n m Unit) := by
  cases a with
  | register maxQubits => exact (Dispatch.Enrolling.enrol maxQubits).bind fun _ => .pure _
  | declare app address values =>
    refine updateMemory_filling app fun mem mem' h => ?_
    cases h
    exact ⟨rfl, rfl⟩
  | openSocket app socket remote => exact Pairing.openSocket_mild app socket remote
  | submit r => exact submit_mild r
  | abort app =>
    have := hm app rfl
    exact Pairing.abort_sociable app
  | stop app => exact Dispatch.stopApp_wiping app
  | clearOnStop clear => exact Dispatch.modifyDispatcher_steering _

theorem NodeAct.work_supplies {a : NodeAct} (ha : ∀ app, a ≠ .abort app) :
    Within Supplies (a.work : NodeWork n m Unit) := by
  cases a with
  | register maxQubits => exact Within.supplies ((Dispatch.initApp_clearing maxQubits).bind fun _ => .pure _)
  | declare app address values =>
    refine Within.supplies (updateMemory_mild app fun mem mem' h => ?_)
    cases h
    rfl
  | openSocket app socket remote => exact Within.supplies (Pairing.openSocket_mild app socket remote)
  | submit r => exact Within.supplies (submit_mild r)
  | abort app => exact absurd rfl (ha app)
  | stop app => exact Dispatch.stopApp_supplies app
  | clearOnStop clear => exact Within.supplies (Dispatch.modifyDispatcher_steering _)

theorem SlotAct.work_pooling {R : Working (Node n m) n m → Working (Node n m) n m → Prop} [Bland R] [Pooling R] (a : SlotAct) :
    Within R (a.work : NodeWork n m Unit) := by
  cases a with
  | allocate => exact allocate_pooling.bind fun _ => .pure _
  | allocateCommunication => exact allocateCommunication_pooling.bind fun _ => .pure _
  | free slot => exact freeQubit_pooling slot

theorem SlotAct.work_supplies (a : SlotAct) : Within Supplies (a.work : NodeWork n m Unit) := by
  cases a with
  | allocate => exact allocate_supplies.last fun _ => .pure _
  | allocateCommunication => exact allocateCommunication_supplies.last fun _ => .pure _
  | free slot => exact (freeQubit_relinquishes slot).mono fun _ _ h => .inr h

/-! What never changes about a node. -/

/-- The device, and the slots that communicate, are those that the node was built with. -/
structure Node.SameBuild (x y : Node n m) : Prop where
  config : y.device.config = x.device.config
  communication : ∀ slot, y.pool.isCommunication slot = x.pool.isCommunication slot

namespace Node.SameBuild

variable {x y z : Node n m}

theorem of_slots (h : x.SameSlots y) : x.SameBuild y :=
  ⟨by rw [h.device], fun slot => by rw [h.pool]⟩

theorem trans (h : x.SameBuild y) (h' : y.SameBuild z) : x.SameBuild z :=
  ⟨h'.config.trans h.config, fun slot => (h'.communication slot).trans (h.communication slot)⟩

theorem electron (h : x.SameBuild y) (he : x.Electron) : y.Electron := he.of_same h.config h.communication

end Node.SameBuild

theorem Working.Stirs.build {x : Option ProcessId} {w w' : Working (Node n m) n m} (h : Stirs x w w') :
    w.part.SameBuild w'.part :=
  ⟨h.config, h.communication⟩

/-- Somebody outside aborts an application of a node. -/
def Cause.aborts (cause : Cause n) (i : Fin n) : Prop := ∃ app, cause = .client (.atNode i (.abort app))

namespace Network

theorem Labour.vocal {R : Working (Node n m) n m → Working (Node n m) n m → Prop} [Placid R] [∀ app, Filling app R]
    [Steering R] [Pooling R] [Dispatch.Enrolling R] [∀ app, Wiping app R] [Vocal R] {i : Fin n} {cause : Cause n}
    {x : NodeWork n m Unit} (h : Labour i cause x) (hm : ∀ app, cause = .client (.atNode i (.abort app)) → Marking app R) :
    Within R x := by
  cases h with
  | news => exact notifyNews_rousing
  | act a => exact a.work_sociable fun app ha => hm app (ha ▸ rfl)
  | slots a => exact a.work_pooling

theorem Labour.sociable {R : Working (Node n m) n m → Working (Node n m) n m → Prop} [Placid R] [∀ app, Filling app R]
    [Steering R] [Pooling R] [Dispatch.Enrolling R] [∀ app, Wiping app R] [Affable R] {i : Fin n} {cause : Cause n}
    {x : NodeWork n m Unit} (h : Labour i cause x) : Within R x :=
  h.vocal fun _ _ => inferInstance

theorem Labour.stirs {i : Fin n} {cause : Cause n} {x : NodeWork n m Unit} (h : Labour i cause x) :
    Within (Stirs none) x := h.sociable

theorem Labour.heeds {i : Fin n} {cause : Cause n} {x : NodeWork n m Unit} (h : Labour i cause x) :
    Within (Heeds (cause.aborts i)) x := fun w => by
  have hs := h.stirs w
  cases h with
  | news => exact .inl (notifyNews_unmoved w).retains
  | act a =>
    by_cases ha : ∃ app, a = .abort app
    · obtain ⟨app, rfl⟩ := ha
      have hlt := Pairing.abort_notifies app w
      exact .inr ⟨hlt, hs.woken hlt, .inl ⟨app, rfl⟩⟩
    · exact (NodeAct.work_supplies (fun app h => ha ⟨app, h⟩) w).heeds hs
  | slots a => exact (a.work_supplies w).heeds hs

/-! What happens while a pair service waits. -/

/-- What a step of a run does to a pair service that does not go on: if a slot has become free at its node, or an
application has been aborted, it is told; otherwise it finds what it has found before. -/
structure Bystands (i : Fin n) (cause : Cause n) (s s' : Network n m) : Prop where
  process : s'.processes.get? (pairId i) = s.processes.get? (pairId i)
  due : s.due (pairId i) ≤ s'.due (pairId i)
  turns : s'.turns (pairId i) ≤ s.turns (pairId i)
  waits : (s'.node i).service.allocationWaits = (s.node i).service.allocationWaits
  supply : ((s'.node i).memoryFreed = (s.node i).memoryFreed ∧
      (∀ slot, (s.node i).pool.isCommunication slot = true → (s.node i).pool.isAllocated slot = true →
        (s'.node i).pool.isAllocated slot = true) ∧
      ∀ app, (s'.node i).service.isAborted app = true → (s.node i).service.isAborted app = true) ∨
    (s.node i).memoryFreed.notified < (s'.node i).memoryFreed.notified ∧
      s.due (pairId i) + (s.node i).memoryFreed.waiters.count (pairId i) ≤ s'.due (pairId i) ∧
      (cause.aborts i ∨ ∃ slot, (s.node i).pool.isAllocated slot = true ∧ (s'.node i).pool.isAllocated slot = false)

variable {s s₁ s' : Network n m} {i j : Fin n} {cause : Cause n}

theorem Bystands.refl (i : Fin n) (cause : Cause n) (s : Network n m) : Bystands i cause s s :=
  ⟨rfl, Nat.le_refl _, Nat.le_refl _, rfl, .inl ⟨rfl, fun _ _ h => h, fun _ h => h⟩⟩

/-- What comes after a step in which somebody else has been at work. -/
theorem Bystands.congr (h : Bystands i cause s s₁) (hp : s'.processes.get? (pairId i) = s₁.processes.get? (pairId i))
    (hd : s₁.due (pairId i) ≤ s'.due (pairId i)) (ht : s'.turns (pairId i) ≤ s₁.turns (pairId i))
    (hs : (s₁.node i).SameSlots (s'.node i)) : Bystands i cause s s' := by
  refine ⟨hp.trans h.process, Nat.le_trans h.due hd, Nat.le_trans ht h.turns, ?_, ?_⟩
  · rw [hs.service]
    exact h.waits
  · rw [hs.memoryFreed, hs.pool, hs.service]
    refine h.supply.imp_right fun ⟨hlt, hdue, hc⟩ => ⟨hlt, Nat.le_trans hdue hd, hc⟩

theorem resumed_working (s : Network n m) (j : Fin n) (q : ProcessId) : (s.working j).resumed q = 0 := rfl

/-- Somebody has been at work at a node, and nobody else has begun to wait. -/
theorem bystands_commit {w : Working (Node n m) n m} (ht : w.turns (pairId i) ≤ (s.working j).turns (pairId i))
    (hw : i = j → w.part.service.allocationWaits = (s.node j).service.allocationWaits ∧
      Heeds (cause.aborts i) (s.working j) w) : Bystands i cause s (s.commit j w) := by
  have hslots := commit_slots s j w i
  have hd := due_commit s j w (pairId i)
  refine ⟨by rw [(spares_commit s j w).processes]; rfl, Nat.le_trans (Nat.le_add_right _ _) hd, ?_, ?_, ?_⟩
  · have hturns := turns_commit s j w (pairId i)
    have hlines : (s.working j).turns (pairId i) = (s.node j).lines (pairId i) := Nat.zero_add _
    omega
  · rw [hslots.service]
    split
    · rename_i hij
      subst hij
      exact (hw rfl).1
    · rfl
  · rw [hslots.memoryFreed, hslots.pool, hslots.service]
    by_cases hij : i = j
    · subst hij
      rw [if_pos rfl]
      rcases (hw rfl).2 with h | ⟨hlt, ⟨-, hres⟩, hc⟩
      · exact .inl ⟨h.freed, h.slots, h.aborted⟩
      · refine .inr ⟨hlt, ?_, hc⟩
        have := hres (pairId i)
        rw [resumed_working, Nat.zero_add] at this
        exact Nat.le_trans (Nat.add_le_add_left this _) hd
    · rw [if_neg hij]
      exact .inl ⟨rfl, fun _ _ h => h, fun _ h => h⟩

theorem bystands_pass (hs : Spares s s') (hp : Passes (fun _ => 0) s s') : Bystands i cause s s' :=
  (Bystands.refl i cause s).congr (by rw [hs.processes]) (hp.due _) (Nat.le_of_eq (hp.turns _)) (hs.slots i)

theorem Concludes.bystands {p : ProcessId} {process : Process n m}
    {result : Except Fault (Flow m (Activity n m) (Option Outcome))} (hr : s₁.Concludes p process result s')
    (hc : s₁.current.map Prod.fst = some p) (hp : pairId i ≠ p) (h : Bystands i cause s s₁) : Bystands i cause s s' :=
  have ht := hr.turns hc (pairId i)
  h.congr (hr.processes_of_ne hp) (ht.1 hp) ht.2 (hr.slots i)

/-- A small step of another process. -/
theorem Treads.bystands (h : s.Treads s') (hown : s.current.map Prod.fst ≠ some (pairId i))
    (hparks : (s.dispatchStage i).Parks (s.node i).pool) : Bystands i cause s s' := by
  cases h with
  | @gone p wake hc hp =>
    have hne : p ≠ pairId i := by simpa [hc] using hown
    have hd := due_current s (pairId i)
    have ht := turns_current s (pairId i)
    simp only [hc, Option.map_some, Option.some.injEq, if_neg hne, Nat.zero_add] at hd ht
    exact (Bystands.refl i cause s).congr rfl (Nat.le_of_eq hd) (Nat.le_of_eq ht.symm) (.refl _)
  | @pairing j name stage wake result w _ hc hp hx hr =>
    have hne : pairId i ≠ pairId j := by simpa [hc, eq_comm] using hown
    have hcur : (s.commit j w).current.map Prod.fst = some (pairId j) := by
      rw [current_commit, hc]
      rfl
    refine hr.bystands hcur hne (bystands_commit ?_ fun hij => absurd (pairId_inj.2 hij) hne)
    rcases Pairing.step_tries (pairId j) stage wake (s.working j) with ⟨t, k, w', -, he, hw⟩ | ⟨hs, -⟩
    · rw [hx] at he
      cases he
      rw [hw.turns, if_neg hne]
      exact Nat.le_refl _
    · rw [hx] at hs
      exact hs.turns _ fun h => hne (Option.some.inj h).symm
  | @dispatch j name stage wake result w _ hc hp hx hr =>
    have hcur : (s.commit j w).current.map Prod.fst = some (dispatchId j) := by
      rw [current_commit, hc]
      rfl
    have hs : Stirs (some (dispatchId j)) (s.working j) w := (Dispatch.step_lavish (dispatchId j) stage wake).of_exec hx
    refine hr.bystands hcur (pairId_ne_dispatchId i j)
      (bystands_commit (hs.turns _ fun h => pairId_ne_dispatchId i j (Option.some.inj h).symm) fun hij => ?_)
    subst hij
    refine ⟨hs.allocationWaits, ?_⟩
    have hst : s.dispatchStage i = stage := dispatchStage_eq hp
    rw [hst] at hparks
    have hsup := Dispatch.step_supplies (dispatchId i) stage wake (w := s.working i) fun _ _ _ _ hs he =>
      DispatchStage.Parks.spare hparks hs he
    rw [hx] at hsup
    exact hsup.heeds hs
  | @host j name stage wake result w _ hc hp hx hr =>
    have hsp : Spares { s.setHost j w.part with quantum := w.quantum } (s.commitHost j w) := spares_effects _ _
    have hcur : (s.commitHost j w).current.map Prod.fst = some (hostId j) := by
      rw [hsp.current]
      exact congrArg (Option.map Prod.fst) hc
    have hs := (HostRun.step_solitary (hostId j) stage wake).of_exec hx
    refine hr.bystands hcur (pairId_ne_hostId i j) ((Bystands.refl i cause s).congr ?_ ?_ ?_ (hsp.slots i))
    · rw [hsp.processes]
      rfl
    · exact Nat.le_trans (Nat.le_add_right _ _) (due_commitHost s j w (pairId i))
    · have ht := turns_commitHost s j w (pairId i)
      have hres := hs.resumed _ (pairId_ne_hostId i j)
      have hlines := hs.lines _ (pairId_ne_hostId i j)
      have hzero : Working.resumed (⟨s.host j, s.quantum, s.now, #[]⟩ : Working (Host n) n m) (pairId i) = 0 := rfl
      dsimp only at hlines
      omega

/-- The agenda from which an event has been taken does not matter. -/
theorem Bystands.of_agenda {a : Agenda (NetworkEvent n m)} (hd : ∀ q, ({ s with agenda := a } : Network n m).due q = s.due q)
    (h : Bystands i cause { s with agenda := a } s') : Bystands i cause s s' := by
  have ht : ({ s with agenda := a } : Network n m).turns (pairId i) = s.turns (pairId i) := congrArg (· + _) (hd _)
  have ⟨hprocess, hdue, hturns, hwaits, hsupply⟩ := h
  rw [hd] at hdue hsupply
  rw [ht] at hturns
  exact ⟨hprocess, hdue, hturns, hwaits, hsupply⟩

/-- A step in which a pair service does not go on, unless it is the start of the network. -/
theorem Happens.bystands (h : s.Happens cause s') (hown : s.current.map Prod.fst ≠ some (pairId i))
    (hparks : (s.dispatchStage i).Parks (s.node i).pool) :
    Bystands i cause s s' ∨ s.started = false ∧ s' = s.start := by
  cases h with
  | start hc =>
    cases hst : s.started with
    | false => exact .inr ⟨rfl, rfl⟩
    | true =>
      rw [Network.start, if_pos hst]
      exact .inl (.refl i _ s)
  | @hear p wake a hc ha =>
    have hd := due_hear hc ha
    exact .inl ((Bystands.refl i _ s).congr rfl (Nat.le_of_eq (hd _).symm) (Nat.le_of_eq (congrArg (· + _) (hd _))) (.refl _))
  | pass hc hs hp => exact .inl (bystands_pass hs hp)
  | @labour _ j x a hc hd hx =>
    have hs := hx.stirs (({ s with agenda := a } : Network n m).working j)
    refine .inl (.of_agenda hd (bystands_commit (hs.turns _ (by simp)) fun hij => ?_))
    subst hij
    exact ⟨hs.allocationWaits, hx.heeds _⟩
  | tread h => exact .inl (h.bystands hown hparks)

theorem Happens.build (h : s.Happens cause s') (i : Fin n) : Node.SameBuild (s.node i) (s'.node i) := by
  cases h.reaches i with
  | spares hs _ _ _ => exact .of_slots hs
  | works hshift hs _ =>
    refine Node.SameBuild.trans ?_ (.of_slots hs)
    cases hshift with
    | labour hc hx now => exact (hx.stirs ⟨s.node i, s.quantum, now, #[]⟩).build
    | @pairing wake hc =>
      rcases Pairing.step_tries (pairId i) (s.pairStage i) wake (s.working i) with ⟨t, k, w', -, he, hw⟩ | ⟨hs, -⟩
      · rw [he]
        exact ⟨hw.config, fun slot => by rw [hw.pool]; rfl⟩
      · exact hs.build
    | @dispatch wake hc =>
      have hs : Stirs (some (dispatchId i)) (s.working i) _ :=
        Dispatch.step_lavish (dispatchId i) (s.dispatchStage i) wake (s.working i)
      exact hs.build

/-! A pair service at its own turn. -/

/-- A pair service has looked for a slot, found none, and waits for one. -/
structure Famished (i : Fin n) (t : PairTask) (k : Nat) (s s' : Network n m) : Prop where
  asked : Pairing.Asks t k (s.pairStage i)
  stage : s'.pairStage i = .starving t k
  waits : (s'.node i).service.allocationWaits = (s.node i).service.allocationWaits + 1
  exhausted : (s'.node i).pool = (s.node i).pool ∧ (s.node i).pool.Exhausted
  going : (s'.node i).service.isAborted t.request.app = false
  notified : (s'.node i).memoryFreed.notified = (s.node i).memoryFreed.notified
  waiting : 0 < (s'.node i).memoryFreed.waiters.count (pairId i)
  turns : s'.turns (pairId i) ≤ s.turns (pairId i)

/-- A pair service has looked for a slot, and does not wait for one: either its application has been aborted, or it has
taken a slot that communicates and was free, and asks a link for a pair. A link that it cannot ask ends it. -/
inductive Granted (i : Fin n) (t : PairTask) (k : Nat) (s s' : Network n m) : Prop where
  | aborted (ha : (s.node i).service.isAborted t.request.app = true) (hp : (s'.node i).pool = (s.node i).pool)
      (hst : s'.pairStage i = .settling t.request)
  | slot {position : Nat} (ha : (s.node i).service.isAborted t.request.app = false)
      (hc : (s.node i).pool.isCommunication position = true) (hp : (s.node i).pool.Takes (s'.node i).pool position)
      (hst : s'.pairStage i = .linking t k position ∨ s'.processes.get? (pairId i) = none)

/-- A pair service has looked for no slot, or need not wait for one. -/
structure Fed (i : Fin n) (s s' : Network n m) : Prop where
  waits : (s'.node i).service.allocationWaits = (s.node i).service.allocationWaits
  sated : ∀ t k, s'.pairStage i ≠ .starving t k
  turns : ∀ process, s'.processes.get? (pairId i) = some process → s'.turns (pairId i) ≤ s.turns (pairId i)
  granted : ∀ t k, Pairing.Asks t k (s.pairStage i) → Granted i t k s s'

/-- A pair service that has ended waits for nothing. -/
theorem fed_of_gone (hw : (s'.node i).service.allocationWaits = (s.node i).service.allocationWaits)
    (hp : s'.processes.get? (pairId i) = none) (hg : ∀ t k, Pairing.Asks t k (s.pairStage i) → Granted i t k s s') :
    Fed i s s' := by
  refine ⟨hw, fun t k h => ?_, fun process h => ?_, hg⟩
  · rw [pairStage_of_gone hp] at h
    exact nomatch h
  · rw [hp] at h
    exact nomatch h

/-- A pair service at its own turn. -/
theorem Treads.own (h : s.Treads s') (hc : s.current.map Prod.fst = some (pairId i)) :
    (∃ t k, Famished i t k s s') ∨ Fed i s s' := by
  cases h with
  | @gone p wake hcur hp =>
    obtain rfl : p = pairId i := by simpa [hcur] using hc
    refine .inr (fed_of_gone rfl hp fun t k ha => ?_)
    rw [pairStage_of_gone hp] at ha
    cases ha
  | @dispatch j name stage wake result w _ hcur hp hx hr =>
    rw [hcur] at hc
    exact absurd (Option.some.inj hc) (pairId_ne_dispatchId i j).symm
  | @host j name stage wake result w _ hcur hp hx hr =>
    rw [hcur] at hc
    exact absurd (Option.some.inj hc) (pairId_ne_hostId i j).symm
  | @pairing j name stage wake result w _ hcur hp hx hr =>
    obtain rfl : j = i := by
      rw [hcur] at hc
      exact pairId_inj.1 (Option.some.inj hc)
    have hcommit : (s.commit j w).current.map Prod.fst = some (pairId j) := by rwa [current_commit]
    have hstage : s.pairStage j = stage := pairStage_eq hp
    have hslots := commit_slots s j w j
    rw [if_pos rfl] at hslots
    have hslots := hslots.trans (hr.slots j)
    have hturns := turns_commit s j w (pairId j)
    have hlines : (s.working j).turns (pairId j) = (s.node j).lines (pairId j) := Nat.zero_add _
    rcases Pairing.step_tries (pairId j) stage wake (s.working j) with ⟨t, k, w', ha, he, hw⟩ | hf
    · rw [hx] at he
      cases he
      rcases hr with ⟨flow, hflow, hr⟩ | ⟨hasks, -⟩
      · cases hflow
        have hres := hr.turns hcommit (pairId j)
        simp only [Flow.map, Flow.rests, true_and, if_true] at hres
        have hwturns := hw.turns (pairId j)
        simp only [if_true] at hwturns
        refine .inl ⟨t, k, hstage ▸ ha, hr.pairStage, ?_, ?_, ?_, ?_, ?_, by omega⟩
        · rw [hslots.service, hw.service]
          rfl
        · rw [hslots.pool, hw.pool]
          exact ⟨rfl, hw.exhausted⟩
        · rw [hslots.service, hw.service]
          exact hw.going
        · rw [hslots.memoryFreed, hw.freed]
          rfl
        · rw [hslots.memoryFreed, hw.freed]
          simp [Signal.wait]
      · cases hasks _ rfl
    · rw [hx] at hf
      obtain ⟨hs, hwturns, hsated, hfinds⟩ := hf
      have hwaits : (s'.node j).service.allocationWaits = (s.node j).service.allocationWaits := by
        rw [hslots.service]
        exact hs.allocationWaits
      rcases hr with ⟨flow, hflow, hr⟩ | ⟨hasks, rfl⟩
      · cases result with
        | error f => cases hflow
        | ok flow =>
          cases hflow
          have hres := (hr.turns hcommit (pairId j)).2
          have hstage' := hr.pairStage
          refine .inr ⟨hwaits, fun t k h => hsated flow rfl t k (hstage'.symm.trans h), fun _ _ => ?_, fun t k ha => ?_⟩
          · have hwturns : w.turns (pairId j) ≤ _ := hwturns flow rfl (pairId j)
            rw [Flow.rests_map] at hres
            omega
          · cases hfinds t k (hstage ▸ ha) with
            | aborted ha hp => exact .aborted ha (hslots.pool.trans hp) hstage'
            | slot ha hc hp hcall =>
              obtain ⟨l, e, c, rfl⟩ := hcall flow rfl
              exact .slot ha hc (hslots.pool ▸ hp) (.inl hstage')
      · have hgone : ((s.commit j w).drop (pairId j) ⟨name, .pairing j stage⟩).processes.get? (pairId j) = none := by
          rw [processes_drop, if_pos rfl]
        refine .inr (fed_of_gone hwaits hgone fun t k ha => ?_)
        cases hfinds t k (hstage ▸ ha) with
        | aborted ha hp => cases hasks _ rfl
        | slot ha hc hp hcall => exact .slot ha hc (hslots.pool ▸ hp) (.inr hgone)

end Network

end QuantumNode
