import QuantumNode.Proofs.Network.Blame
import QuantumNode.Proofs.Network.News
import QuantumNode.Proofs.Network.Starvation
import QuantumNode.Proofs.Node.Accounts

/-! The accounts of the pair service of a node along a run. As long as it meets no fault, it is known of each application
how many of its requests are not yet settled: those that wait in line, those that the service is handed, and the one
that it serves. It is for those that an application gets its flags. -/
namespace QuantumNode

open Node Work Working

variable {n m : Nat}

/-- Whoever has reason to raise a flag of an application serves a request of it. -/
theorem Pairing.exists_request_of_reason {app : Int} {stage : PairStage} {wake : Wake}
    (h : marks app stage wake = true ∨ fails app stage wake = true) : ∃ r, stage.request? = some r ∧ r.app = app := by
  cases stage with
  | awaitingReply r task => exact ⟨r, rfl, by simpa [marks, fails] using h⟩
  | awaitingDescriptor r => exact ⟨r, rfl, by simpa [marks, fails] using h⟩
  | linking t k position =>
    cases wake with
    | answer a =>
      cases a with
      | refused cause kind =>
        simp only [marks, fails, Bool.and_eq_true, decide_eq_true_eq] at h
        exact ⟨t.request, rfl, h.elim And.left And.left⟩
      | pair pair => simp [marks, fails] at h
    | _ => simp [marks, fails] at h
  | _ => simp [marks, fails] at h

namespace Network

variable {s s₁ s' : Network n m} {i j : Fin n} {cause : Cause n}

/-! Who waits for requests. -/

/-- Nobody but the pair service of a node waits for requests there. -/
def Lined (s : Network n m) (j : Fin n) : Prop := ∀ q ∈ (s.node j).service.requests.waiters, q = pairId j

theorem Lined.congr (h : s.Lined j) (hs : (s.node j).SameSlots (s'.node j)) : s'.Lined j := fun q hq => by
  rw [hs.service] at hq
  exact h q hq

/-- What somebody's work at a node does to who waits for requests there. -/
theorem Shift.seats {w w' : Working (Node n m) n m} (h : s.Shift i cause w w') : Seats (pairId i) w w' := by
  cases h with
  | labour hc hx now => exact Tallies.seats (hx.sociable _) _
  | pairing hc => exact Pairing.step_seats _ _ _ _
  | dispatch hc => exact Tallies.seats (Dispatch.step_lavish _ _ _ _) _

theorem Reaches.lined (h : s.Reaches j cause s') (hl : s.Lined j) : s'.Lined j := by
  cases h with
  | spares hs _ _ _ => exact hl.congr hs
  | works hshift hs _ =>
    intro q hq
    rw [hs.service] at hq
    rcases hshift.seats.line q hq with h | h
    · rw [hshift.start.1] at h
      exact hl q h
    · exact h

theorem Course.lined {c : NetworkConfig} {past : List (Stride c.nodes.length c.links.length)}
    {s : Network c.nodes.length c.links.length} (h : Course c past s) (j : Fin c.nodes.length) : s.Lined j := by
  induction h with
  | built h =>
    obtain ⟨latencies, hservice⟩ := (built_of_build h).service j
    intro q hq
    rw [hservice] at hq
    exact nomatch hq
  | step hprev hf ih => exact ((hf.happens hprev.crewed).reaches j).lined ih

/-- What the stage of a pair service says about its request holds along every run. -/
theorem Course.sound {c : NetworkConfig} {past : List (Stride c.nodes.length c.links.length)}
    {s : Network c.nodes.length c.links.length} (h : Course c past s) (j : Fin c.nodes.length) : (s.pairStage j).Sound := by
  induction h with
  | built h =>
    rw [(built_of_build h).pairStage]
    trivial
  | @step past s s' cause h hstep ih =>
    have hhappens := hstep.happens h.crewed
    by_cases hown : s.current.map Prod.fst = some (pairId j)
    · rcases (hhappens.treads hown).pairTurn hown with hidle | ⟨wake, flow, w, hx, hst, -, -⟩
      · rw [hidle]
        trivial
      · obtain ⟨took, told, -, hd⟩ := Pairing.step_deed _ _ _ flow w hx
        rw [hst]
        exact hd.sound ih
    · rwa [hhappens.pairStage_of_ne h.crewed hown]

/-! What others do while a pair service does not go on. -/

/-- The requests that a pair service is still to begin with. -/
def entrusted (s : Network n m) (i : Fin n) : Multiset EntanglementRequest :=
  (s.node i).service.requests.items + s.handed (pairId i)

/-- Requests are submitted to a pair service, counted, and wait or are handed to it if it waits. -/
structure Entrusts (i : Fin n) (s s' : Network n m) : Prop where
  line : ∀ q ∈ (s'.node i).service.requests.waiters, q ∈ (s.node i).service.requests.waiters
  handed : pairId i ∉ (s.node i).service.requests.waiters → s'.handed (pairId i) = s.handed (pairId i)
  submitted : ∃ rs : Multiset EntanglementRequest,
    (∀ app, (s'.node i).service.pendingRequests app = (s.node i).service.pendingRequests app + madeBy app rs) ∧
      s'.entrusted i = s.entrusted i + rs

theorem Entrusts.of_same (hs : (s.node i).SameSlots (s'.node i)) (hh : s'.handed (pairId i) = s.handed (pairId i)) :
    Entrusts i s s' := by
  refine ⟨fun q hq => ?_, fun _ => hh, 0, fun app => ?_, ?_⟩
  · rwa [hs.service] at hq
  · rw [hs.service]
    rfl
  · rw [entrusted, hs.service, hh, add_zero, entrusted]

theorem Entrusts.trans (h : Entrusts i s s₁) (h' : Entrusts i s₁ s') : Entrusts i s s' := by
  obtain ⟨rs, hcount, hto⟩ := h.submitted
  obtain ⟨rs', hcount', hto'⟩ := h'.submitted
  refine ⟨fun q hq => h.line q (h'.line q hq), fun hq => (h'.handed fun hq' => hq (h.line _ hq')).trans (h.handed hq),
    rs + rs', fun app => ?_, ?_⟩
  · rw [hcount', hcount, madeBy_add, Nat.add_assoc]
  · rw [hto', hto, add_assoc]

/-- What comes after somebody's work. -/
theorem Entrusts.congr (h : Entrusts i s s₁) (hs : (s₁.node i).SameSlots (s'.node i))
    (hh : s'.handed (pairId i) = s₁.handed (pairId i)) : Entrusts i s s' := h.trans (.of_same hs hh)

/-- Work at a node hands requests to its own pair service alone. -/
theorem entrusts_commit {w : Working (Node n m) n m} (hl : s.Lined j) (hw : Seats (pairId j) (s.working j) w)
    (hi : i = j → Tallies (s.working j) w) : Entrusts i s (s.commit j w) := by
  have hslots := commit_slots s j w i
  have hnone : w.handed (pairId i) = 0 → (s.commit j w).handed (pairId i) = s.handed (pairId i) := fun h => by
    rw [handed_commit, h, add_zero]
  by_cases hij : i = j
  · subst hij
    rw [if_pos rfl] at hslots
    have ht := hi rfl
    obtain ⟨rs, hcount, hto⟩ := ht.submitted
    refine ⟨fun q hq => ht.line q ?_, fun hq => hnone (ht.handed _ hq), rs, fun app => ?_, ?_⟩
    · rwa [hslots.service] at hq
    · rw [hslots.service]
      exact hcount app
    · have hto : (w.part.service.requests.items : Multiset EntanglementRequest) + w.handed (pairId i) =
          (s.node i).service.requests.items + 0 + rs := hto (pairId i) hl
      rw [entrusted, hslots.service, handed_commit, add_left_comm, hto, entrusted]
      abel
  · rw [if_neg hij] at hslots
    exact .of_same hslots (hnone (hw.handed _ fun hq => hij (pairId_inj.1 (hl _ hq))))

theorem Concludes.handed {p : ProcessId} {process : Process n m}
    {result : Except Fault (Flow m (Activity n m) (Option Outcome))} (h : s.Concludes p process result s')
    (hc : s.current.map Prod.fst = some p) {q : ProcessId} (hq : q ≠ p) : s'.handed q = s.handed q := by
  have hs : s.handed q = (s.setCurrent none).handed q := by
    rw [handed_current, taken?_of_ne fun h => hq (Option.some.inj (h.symm.trans hc))]
    exact add_zero _
  rcases h with ⟨flow, -, hr⟩ | ⟨-, rfl⟩
  · exact (hr.handed q).trans hs.symm
  · exact hs.symm

/-- A small step of another process. -/
theorem Treads.entrusts (h : s.Treads s') (hown : s.current.map Prod.fst ≠ some (pairId i)) (hl : ∀ j, s.Lined j) :
    Entrusts i s s' := by
  cases h with
  | @gone p wake hc hp =>
    refine .of_same (.refl _) ?_
    rw [handed_current s, taken?_of_ne hown]
    exact (add_zero _).symm
  | @pairing j name stage wake result w _ hc hp hx hr =>
    have hne : pairId i ≠ pairId j := by simpa [hc, eq_comm] using hown
    have hcur : (s.commit j w).current.map Prod.fst = some (pairId j) := by
      rw [current_commit, hc]
      rfl
    have hw := (Pairing.step_seats (pairId j) stage wake).of_exec hx
    exact (entrusts_commit (hl j) hw fun hij => absurd (pairId_inj.2 hij) hne).congr (hr.slots i) (hr.handed hcur hne)
  | @dispatch j name stage wake result w _ hc hp hx hr =>
    have hcur : (s.commit j w).current.map Prod.fst = some (dispatchId j) := by
      rw [current_commit, hc]
      rfl
    have hw : Tallies (s.working j) w := (Dispatch.step_lavish (dispatchId j) stage wake).of_exec hx
    exact (entrusts_commit (hl j) (hw.seats _) fun _ => hw).congr (hr.slots i) (hr.handed hcur (pairId_ne_dispatchId i j))
  | @host j name stage wake result w _ hc hp hx hr =>
    have hsp : Spares { s.setHost j w.part with quantum := w.quantum } (s.commitHost j w) := spares_effects _ _
    have hcur : (s.commitHost j w).current.map Prod.fst = some (hostId j) := by
      rw [hsp.current]
      exact congrArg (Option.map Prod.fst) hc
    have hs := (HostRun.step_solitary (hostId j) stage wake).of_exec hx
    have hne : pairId i ≠ hostId j := pairId_ne_hostId i j
    exact .of_same ((hsp.slots i).trans (hr.slots i))
      ((hr.handed hcur hne).trans (handed_commitHost s j (hs.resumed _ hne)))

theorem handed_start (s : Network n m) (q : ProcessId) : s.start.handed q = s.handed q :=
  start_invariant (I := fun s' => s'.handed q = s.handed q) (fun _ h => h)
    (fun s' name a _ h => by
      have hs := handed_schedule { s' with processes := s'.processes.insert s'.fresh ⟨name, a⟩, fresh := s'.fresh + 1 } 0
        (.resume s'.fresh .go) q
      exact (hs.trans (add_zero _)).trans h) rfl

/-- A step in which the pair service of a node does not go on. -/
theorem Happens.entrusts (h : s.Happens cause s') (hown : s.current.map Prod.fst ≠ some (pairId i)) (hl : ∀ j, s.Lined j) :
    Entrusts i s s' := by
  cases h with
  | start hc => exact .of_same (by rw [start_node]; exact .refl _) (handed_start s _)
  | hear hc ha =>
    refine .of_same (.refl _) ?_
    rw [Network.handed, ahead_hear hc ha, Network.handed]
  | pass hc hs hp => exact .of_same (hs.slots i) (hp.handed _ rfl)
  | @labour _ j x a hc hd hx hh =>
    have hbefore : Entrusts i s { s with agenda := a } := .of_same (.refl _) (hh _)
    have hw : Tallies (({ s with agenda := a } : Network n m).working j) _ := hx.sociable _
    exact hbefore.trans (entrusts_commit (hl j) (hw.seats _) fun _ => hw)
  | tread h => exact h.entrusts hown hl

/-! The turns of a pair service. -/

/-- The requests that a pair service has still to settle: those that it is to begin with, and the one that it serves. -/
def outstanding (s : Network n m) (i : Fin n) : Multiset EntanglementRequest :=
  s.entrusted i + (s.pairStage i).request?.toList

/-- Of each application as many requests are pending as are outstanding. -/
def Counted (i : Fin n) (s : Network n m) : Prop :=
  ∀ app, (s.node i).service.pendingRequests app = madeBy app (s.outstanding i)

/-- The request that a pair service serves is one of those that are pending. -/
theorem Counted.served {r : EntanglementRequest} (h : Counted i s) (hr : (s.pairStage i).request? = some r) :
    0 < (s.node i).service.pendingRequests r.app := by
  rw [h, outstanding, hr]
  change 0 < madeBy r.app (_ + {r})
  rw [madeBy_add, madeBy_singleton, if_pos rfl]
  exact Nat.succ_pos _

/-- A step in which requests may be submitted to a pair service, and one may be settled. -/
def Balances (i : Fin n) (settled : Option EntanglementRequest) (s s' : Network n m) : Prop :=
  ∃ rs : Multiset EntanglementRequest,
    (∀ app, (s'.node i).service.pendingRequests app + madeBy app settled.toList =
      (s.node i).service.pendingRequests app + madeBy app rs) ∧
      s'.outstanding i + settled.toList = s.outstanding i + rs

theorem Balances.counted {settled : Option EntanglementRequest} (h : Balances i settled s s') (hc : Counted i s) :
    Counted i s' := fun app => by
  obtain ⟨rs, hcount, hto⟩ := h
  have hcount := hcount app
  have hto := congrArg (madeBy app) hto
  rw [madeBy_add, madeBy_add] at hto
  rw [hc app] at hcount
  omega

/-- A count falls only where something is settled. -/
theorem Balances.kept (h : Balances i none s s') (app : Int) :
    (s.node i).service.pendingRequests app ≤ (s'.node i).service.pendingRequests app := by
  obtain ⟨rs, hcount, -⟩ := h
  exact Nat.le_trans (Nat.le_add_right _ _) (Nat.le_of_eq (hcount app).symm)

theorem Entrusts.balances (h : Entrusts i s s') (hst : s'.pairStage i = s.pairStage i) : Balances i none s s' := by
  obtain ⟨rs, hcount, hto⟩ := h.submitted
  refine ⟨rs, hcount, ?_⟩
  rw [outstanding, hto, hst, outstanding]
  change _ + _ + _ + (0 : Multiset EntanglementRequest) = _
  abel

/-- A pair service that waits for requests, or is to be handed one, serves none. -/
def Available (i : Fin n) (s : Network n m) : Prop :=
  s.handed (pairId i) ≠ 0 ∨ (s.node i).service.requests.waiters ≠ [] →
    s.pairStage i = .idle ∧ ∃ process, s.processes.get? (pairId i) = some process

theorem Entrusts.available (h : Entrusts i s s') (hst : s'.pairStage i = s.pairStage i)
    (hp : ∀ process, s.processes.get? (pairId i) = some process → ∃ process', s'.processes.get? (pairId i) = some process')
    (ha : Available i s) : Available i s' := fun hr => by
  have hbefore : s.handed (pairId i) ≠ 0 ∨ (s.node i).service.requests.waiters ≠ [] := by
    rcases hr with hr | hr
    · by_cases hq : pairId i ∈ (s.node i).service.requests.waiters
      · exact .inr fun hnil => by rw [hnil] at hq; exact nomatch hq
      · exact .inl (h.handed hq ▸ hr)
    · obtain ⟨q, hq⟩ := List.exists_mem_of_ne_nil _ hr
      exact .inr (List.ne_nil_of_mem (h.line q hq))
  obtain ⟨hidle, process, hget⟩ := ha hbefore
  exact ⟨hst.trans hidle, hp process hget⟩

/-- Nobody waits for requests at a turn of a pair service, which has been handed nothing but what it goes on with. -/
theorem Paced.turn (hp : s.Paced) (hl : s.Lined i) {process : Process n m}
    (hget : s.processes.get? (pairId i) = some process) (hown : s.current.map Prod.fst = some (pairId i)) :
    (s.node i).service.requests.waiters = [] ∧ (s.setCurrent none).handed (pairId i) = 0 := by
  have honce := hp.once i process hget
  have hturns := turns_current s (pairId i)
  rw [if_pos hown] at hturns
  have hrest : (s.setCurrent none).due (pairId i) + (s.setCurrent none).waits (pairId i) = 0 := by
    unfold turns at honce hturns
    omega
  refine ⟨List.eq_nil_iff_forall_not_mem.2 fun q hq => ?_, handed_of_due (Nat.eq_zero_of_add_eq_zero_right hrest)⟩
  have hcount := List.count_pos_iff.2 hq
  rw [hl q hq] at hcount
  have hlines := lines_le_waits (s.setCurrent none) i (pairId i)
  have hnode : (s.setCurrent none).node i = s.node i := rfl
  unfold Node.lines at hlines
  rw [hnode] at hlines
  omega

theorem taken?_of_current {wake : Wake} (hc : s.current = some (pairId i, wake)) : s.taken? (pairId i) = wake.request? := by
  rw [taken?, hc]
  cases wake with
  | request r => exact if_pos rfl
  | _ => rfl

/-- A pair service at its turn makes a step, unless it is no more. -/
theorem Advances.pairTurn (h : s.Advances s') (hown : s.current.map Prod.fst = some (pairId i)) :
    s.processes.get? (pairId i) = none ∧ s' = s.setCurrent none ∨
      ∃ name wake flow w, s.current = some (pairId i, wake) ∧
        s.processes.get? (pairId i) = some ⟨name, .pairing i (s.pairStage i)⟩ ∧
        (Pairing.step (pairId i) (s.pairStage i) wake).exec (s.working i) = (.ok flow, w) ∧
        (s.commit i w).Resolves (pairId i) ⟨name, .pairing i (s.pairStage i)⟩
          (flow.map (.pairing i) fun e => nomatch e) s' := by
  cases h with
  | @gone p wake hc hget =>
    obtain rfl : p = pairId i := by simpa [hc] using hown
    exact .inl ⟨hget, rfl⟩
  | @pairing j name stage wake flow w _ hc hget hx hr =>
    obtain rfl : j = i := by
      rw [hc] at hown
      exact pairId_inj.1 (Option.some.inj hown)
    obtain rfl : s.pairStage j = stage := pairStage_eq hget
    exact .inr ⟨name, wake, flow, w, hc, hget, hx, hr⟩
  | @dispatch j name stage wake flow w _ hc _ hx hr =>
    rw [hc] at hown
    exact absurd (Option.some.inj hown) (pairId_ne_dispatchId i j).symm
  | @host j name stage wake flow w _ hc _ hx hr =>
    rw [hc] at hown
    exact absurd (Option.some.inj hown) (pairId_ne_hostId i j).symm

/-- A pair service that is no more has been handed nothing. -/
theorem Available.gone (h : Available i s) (hget : s.processes.get? (pairId i) = none) :
    s.handed (pairId i) = 0 ∧ (s.node i).service.requests.waiters = [] := by
  by_contra hne
  obtain ⟨-, process, hp⟩ := h (by rwa [not_and_or] at hne)
  rw [hget] at hp
  exact nomatch hp

theorem balances_gone (ha : Available i s) (hget : s.processes.get? (pairId i) = none) :
    Available i (s.setCurrent none) ∧ Balances i (s.pairStage i).settled? s (s.setCurrent none) := by
  obtain ⟨hnone, hnil⟩ := ha.gone hget
  have hhanded : (s.setCurrent none).handed (pairId i) = 0 :=
    Multiset.le_zero.1 (hnone ▸ handed_current s (pairId i) ▸ Multiset.le_add_right _ _)
  rw [pairStage_of_gone hget]
  refine ⟨fun hr => ?_, 0, fun app => rfl, ?_⟩
  · exact hr.elim (fun hr => absurd hhanded hr) fun hr => absurd hnil hr
  · rw [outstanding, entrusted, hhanded, outstanding, entrusted, hnone]
    rfl

/-- A pair service at its turn keeps its accounts, unless it meets a fault. -/
theorem Advances.balances (h : s.Advances s') (hown : s.current.map Prod.fst = some (pairId i)) (hp : s.Paced)
    (hl : s.Lined i) (hs : (s.pairStage i).Sound) (ha : Available i s) (hcounted : Counted i s) :
    Available i s' ∧ Balances i (s.pairStage i).settled? s s' := by
  rcases h.pairTurn hown with ⟨hget, rfl⟩ | ⟨name, wake, flow, w, hc, hget, hx, hr⟩
  · exact balances_gone ha hget
  · obtain ⟨hnil, hrest⟩ := hp.turn hl hget hown
    have hnil : (s.working i).part.service.requests.waiters = [] := hnil
    have hbefore := handed_current s (pairId i)
    rw [hrest, taken?_of_current hc, zero_add] at hbefore
    -- what it is handed it begins with, since it serves nothing else
    have hwake : ∀ r, wake = .request r → s.pairStage i = .idle := by
      rintro r rfl
      exact (ha (.inl (by rw [hbefore]; exact Multiset.singleton_ne_zero r))).1
    obtain ⟨rs, hserves⟩ := Pairing.step_serves (pairId i) hs hwake hnil (fun r hr => hcounted.served (by rw [hr]; rfl))
      flow w hx
    have hgiven : w.handed (pairId i) = 0 :=
      ((Pairing.step_seats _ _ wake).of_exec hx).handed _ (by rw [hnil]; exact List.not_mem_nil)
    have hafter : s'.handed (pairId i) = 0 := by
      rw [hr.handed, handed_commit_rest, hrest, hgiven]
      rfl
    have hslots := commit_slots s i w i
    rw [if_pos rfl] at hslots
    have hslots := hslots.trans (hr.slots i)
    refine ⟨fun hr' => ?_, rs, fun app => ?_, ?_⟩
    · have hidle : flow.stage = .idle := by
        by_contra hne
        have hline : (s'.node i).service.requests.waiters = [] := by
          rw [hslots.service]
          exact hserves.line hne
        exact hr'.elim (fun h => h hafter) fun h => h hline
      exact ⟨hr.pairStage.trans hidle, _, by rw [hr.processes, if_pos rfl, Flow.going?_map, Flow.going?_eq]; rfl⟩
    · rw [hslots.service]
      exact hserves.pending app
    · rw [outstanding, entrusted, hslots.service, hafter, hr.pairStage, add_zero, outstanding, entrusted, hbefore]
      exact hserves.requests.trans (congrArg (· + rs) (add_right_comm _ _ _))

namespace Stride

/-- The pair service of a node meets a fault. -/
def fells (e : Stride n m) (i : Fin n) : Prop := e.goesOn i = true ∧ ∃ f, e.before.proceed = .failed f e.after

/-- The request that the pair service of a node settles. -/
def settled? (e : Stride n m) (i : Fin n) : Option EntanglementRequest :=
  if e.goesOn i then (e.before.pairStage i).settled? else none

/-- What is settled was pending. There is one request fewer when those who wait for an array to be written are told. -/
structure Settles (e : Stride n m) (i : Fin n) (r : EntanglementRequest) : Prop where
  pending : 0 < (e.before.node i).service.pendingRequests r.app
  lowered : ∀ app, (e.after.node i).service.pendingRequests app =
    (e.before.node i).service.pendingRequests app - if app = r.app then 1 else 0
  notified : (e.after.node i).arrayWritten = ⟨[], (e.before.node i).arrayWritten.notified + 1⟩
  told : ∀ q, e.before.due q + (e.before.node i).arrayWritten.waiters.count q ≤ e.after.due q

end Stride

/-- A process that is to go on at once has its turn again. -/
theorem Resolves.due_go {p : ProcessId} {process : Process n m} {a : Activity n m} (h : s.Resolves p process (.go a) s')
    (hc : s.current.map Prod.fst = some p) (q : ProcessId) : s'.due q = s.due q := by
  cases h with
  | go _ =>
    rw [due_setCurrent, due_current s, hc]
    rfl

/-- A pair service that has a request to settle settles it at its turn. -/
theorem Advances.settles {r : EntanglementRequest} (h : s.Advances s') (hown : s.current.map Prod.fst = some (pairId i))
    (hst : s.pairStage i = .settling r) (hcounted : Counted i s) : (⟨s, cause, s'⟩ : Stride n m).Settles i r := by
  rcases h.pairTurn hown with ⟨hget, -⟩ | ⟨name, wake, flow, w, hc, -, hx, hr⟩
  · rw [pairStage_of_gone hget] at hst
    exact nomatch hst
  · obtain ⟨w₁, hx₁, hpart, hres, -⟩ := Pairing.exec_settle (w := s.working i) r
    rw [hst] at hx
    obtain ⟨⟨⟩, rfl⟩ := Prod.mk.inj (hx₁.symm.trans hx)
    have hslots := commit_slots s i w₁ i
    rw [if_pos rfl] at hslots
    have hslots := hslots.trans (hr.slots i)
    refine ⟨hcounted.served (by rw [hst]; rfl), fun app => ?_, ?_, fun q => ?_⟩
    · change (s'.node i).service.pendingRequests app = _
      rw [hslots.service, hpart]
      exact PairService.pendingRequests_settle _ _ _
    · change (s'.node i).arrayWritten = _
      rw [hslots.arrayWritten, hpart]
      rfl
    · have hgo : (s.commit i w₁).Resolves (pairId i) _ (.go (.pairing i .idle)) s' := hr
      have hdue := due_commit s i w₁ q
      have hcount : w₁.resumed q = 0 + (s.node i).arrayWritten.waiters.count q := hres q
      change s.due q + (s.node i).arrayWritten.waiters.count q ≤ s'.due q
      rw [hgo.due_go (by rw [current_commit, hc]; rfl)]
      omega

/-! Along a run. -/

/-- The accounts of the pair service of a node. -/
structure Accounts (i : Fin n) (past : List (Stride n m)) (s : Network n m) : Prop where
  counted : Counted i s
  settled : ∀ e ∈ past, ∀ r, e.settled? i = some r → e.Settles i r
  /-- Neither submissions nor aborts, stops and removals make a count fall. -/
  kept : ∀ e ∈ past, e.settled? i = none → ∀ app,
    (e.before.node i).service.pendingRequests app ≤ (e.after.node i).service.pendingRequests app
  /-- A settlement meets no fault. -/
  settles : ∀ r, s.current.map Prod.fst = some (pairId i) → s.pairStage i = .settling r →
    ∃ s', s.proceed = .went s' ∧ s'.pairStage i = .idle

/-- Processes do not go away while another one goes on. -/
theorem Happens.present (h : s.Happens cause s') {q : ProcessId} (hown : s.current.map Prod.fst ≠ some q)
    (hp : ∃ process, s.processes.get? q = some process) : ∃ process, s'.processes.get? q = some process := by
  cases h with
  | start hc =>
    refine start_invariant (I := fun s' => ∃ process, s'.processes.get? q = some process) (fun _ h => h)
      (fun s' name a _ h => ?_) hp
    change ∃ process, (s'.processes.insert s'.fresh ⟨name, a⟩).get? q = some process
    by_cases hq : q = s'.fresh
    · exact ⟨_, by rw [hq, SortedMap.get?_insert_self]⟩
    · rwa [SortedMap.get?_insert_of_ne _ hq]
  | hear hc ha => exact hp
  | pass hc hs _ => rwa [hs.processes]
  | labour hc hd hx hh => rwa [(spares_commit _ _ _).processes]
  | tread h => rwa [h.processes_of_ne hown]

theorem Built.accounts (h : s.Built) (i : Fin n) : Available i s ∧ Accounts i [] s := by
  obtain ⟨latencies, hservice⟩ := h.service i
  have hhanded : s.handed (pairId i) = 0 := handed_of_due (Nat.eq_zero_of_add_eq_zero_right (h.turns _))
  refine ⟨fun hr => ?_, fun app => ?_, List.forall_mem_nil _, List.forall_mem_nil _, fun r hc => ?_⟩
  · rw [hservice] at hr
    exact hr.elim (fun hr => absurd hhanded hr) fun hr => absurd rfl hr
  · rw [outstanding, entrusted, hhanded, h.pairStage, hservice]
    rfl
  · rw [h.current] at hc
    exact absurd hc nofun

theorem Crewed.settles (hs : s.Crewed) {r : EntanglementRequest} (hown : s.current.map Prod.fst = some (pairId i))
    (hst : s.pairStage i = .settling r) : ∃ s', s.proceed = .went s' ∧ s'.pairStage i = .idle := by
  obtain ⟨⟨p, wake⟩, hc, rfl⟩ := Option.map_eq_some_iff.1 hown
  obtain ⟨w, hx, -⟩ := Pairing.exec_settle (w := s.working i) r
  obtain ⟨s', hwent, -, -, hidle, -⟩ := proceed_pairing hs hc (by rw [hst]; exact nofun) (by rw [hst]; exact hx)
  exact ⟨s', hwent, hidle⟩

theorem Accounts.step {past : List (Stride n m)} (h : Accounts i past s) (hs' : s'.Crewed) {settled : Option EntanglementRequest}
    (hb : Balances i settled s s') (hsettled : (⟨s, cause, s'⟩ : Stride n m).settled? i = settled)
    (hsettles : ∀ r, settled = some r → (⟨s, cause, s'⟩ : Stride n m).Settles i r) :
    Accounts i (⟨s, cause, s'⟩ :: past) s' := by
  subst hsettled
  refine ⟨hb.counted h.counted, List.forall_mem_cons.2 ⟨hsettles, h.settled⟩,
    List.forall_mem_cons.2 ⟨fun hnone => ?_, h.kept⟩, fun r => hs'.settles⟩
  rw [hnone] at hb
  exact hb.kept

theorem Course.accounts {c : NetworkConfig} {past : List (Stride c.nodes.length c.links.length)}
    {s : Network c.nodes.length c.links.length} (h : Course c past s) (i : Fin c.nodes.length)
    (hf : ∀ e ∈ past, ¬e.fells i) : Available i s ∧ Accounts i past s := by
  -- what carries the induction is that a pair service serves nothing while it waits for requests: one that it is handed
  -- takes nobody's place
  induction h with
  | built h => exact (built_of_build h).accounts i
  | @step past s s' cause h hstep ih =>
    obtain ⟨hfell, hf⟩ := List.forall_mem_cons.1 hf
    obtain ⟨ha, hacc⟩ := ih hf
    have hhappens := hstep.happens h.crewed
    have hs' := hhappens.crewed h.crewed
    by_cases hown : s.current.map Prod.fst = some (pairId i)
    · have hadv := hstep.advances h.crewed hown fun f hf => hfell ⟨beq_iff_eq.2 hown, f, hf⟩
      obtain ⟨ha', hb⟩ := hadv.balances hown h.paced (h.lined i) (h.sound i) ha hacc.counted
      refine ⟨ha', hacc.step hs' hb (if_pos (beq_iff_eq.2 hown)) fun r hr => ?_⟩
      exact hadv.settles hown (PairStage.settled?_eq_some.1 hr) hacc.counted
    · have hent := hhappens.entrusts hown h.lined
      have hst := hhappens.pairStage_of_ne h.crewed hown
      refine ⟨hent.available hst (fun _ hp => hhappens.present hown ⟨_, hp⟩) ha,
        hacc.step hs' (hent.balances hst) (if_neg fun hg => hown (beq_iff_eq.1 hg)) nofun⟩

/-- Along every run, up to a fault of the pair service itself, and whatever is aborted, stopped or removed meanwhile: for
each application as many requests are pending as wait in line, are handed to the pair service, or are served by it. A
count falls only where a request is settled, which meets no fault: then it was positive, falls by one, and has fallen
when those who wait for an array to be written go on. -/
theorem pending_counts_outstanding {c : NetworkConfig} {past : List (Stride c.nodes.length c.links.length)}
    {s : Network c.nodes.length c.links.length} (h : Course c past s) (i : Fin c.nodes.length)
    (hf : ∀ e ∈ past, ¬e.fells i) : Accounts i past s :=
  (h.accounts i hf).2

/-- The receive of `duoStopping`, whose application is gone, is given up and settled. -/
def duoSettling : List (Direction duo.nodes.length) := duoStopping ++ [.run 0 2]

/-- In the last step the pair service of the second node settles the request that was pending. -/
def duoSettles : List (Moment duo.nodes.length duo.links.length) × Network duo.nodes.length duo.links.length → Bool
  | (x :: _, s) => x.state.current.map Prod.fst = some (pairId (1 : Fin duo.nodes.length)) ∧
      (x.state.pairStage 1).settled?.isSome = true ∧ (x.state.node 1).service.pendingRequests 0 = 1 ∧
      (s.node 1).service.pendingRequests 0 = 0 ∧ (s.node 1).hasApp 0 = false
  | ([], _) => false

theorem pending_counts_outstanding_after_stop : ∃ past s e r, Course duo past s ∧ Accounts 1 past s ∧ e ∈ past ∧
    e.settled? 1 = some r ∧ e.Settles 1 r ∧ (e.before.node 1).service.pendingRequests 0 = 1 ∧
      (s.node 1).service.pendingRequests 0 = 0 ∧ (s.node 1).hasApp 0 = false := by
  obtain ⟨past, s, ht, hs⟩ := Trace.exists_of_rehearse duo (fun _ => True) duoSettling duoSettles (by decide +kernel)
    (fun _ _ => trivial)
  obtain ⟨strides, hcourse, hbefore⟩ := ht.course
  have hfine : ∀ e ∈ strides, ¬e.fells 1 := fun e he ⟨_, f, hf⟩ => by
    obtain ⟨x, hx, hstate⟩ := List.mem_map.1 (hbefore ▸ List.mem_map_of_mem he : e.before ∈ past.map (·.state))
    exact ht.unfailing x hx f _ (hstate ▸ hf)
  have hacc := pending_counts_outstanding hcourse 1 hfine
  cases past with
  | nil => exact nomatch hs
  | cons x past =>
    obtain ⟨hown, hsome, hone, hzero, hgone⟩ := of_decide_eq_true hs
    obtain ⟨e, strides, rfl, hlast, -⟩ := List.map_eq_cons_iff.1 hbefore
    change e.before = x.state at hlast
    rw [← hlast] at hown hsome hone
    obtain ⟨r, hr⟩ := Option.isSome_iff_exists.1 hsome
    have hsettled : e.settled? 1 = some r := (if_pos (beq_iff_eq.2 hown)).trans hr
    exact ⟨_, s, e, r, hcourse, hacc, List.mem_cons_self, hsettled, hacc.settled e List.mem_cons_self r hsettled, hone, hzero,
      hgone⟩

/-! Flags are raised for requests that are pending. -/

/-- A pair service raises flags of the application whose request it serves. -/
theorem exists_request_of_flags {app : Int} (h : s.flags i app = true) :
    s.current.map Prod.fst = some (pairId i) ∧ ∃ r, (s.pairStage i).request? = some r ∧ r.app = app := by
  unfold flags at h
  split at h
  · rename_i p wake hc
    obtain ⟨hp, hreason⟩ := Bool.and_eq_true_iff.1 h
    refine ⟨by rw [hc, of_decide_eq_true hp]; rfl, ?_⟩
    exact Pairing.exists_request_of_reason ((Bool.or_eq_true_iff ..).1 hreason)
  · exact nomatch h

/-- A flag of an application is raised for a good reason: a client aborts the application, or the pair service serves a
request of it that is still pending. -/
inductive Stride.Excused (e : Stride n m) (i : Fin n) (app : Int) : Prop where
  | aborts (h : e.cause = .client (.atNode i (.abort app)))
  | serves {r : EntanglementRequest} (hg : e.goesOn i = true) (hr : (e.before.pairStage i).request? = some r)
      (ha : r.app = app) (hp : 0 < (e.before.node i).service.pendingRequests app)

section Flags

variable {c : NetworkConfig} {past later earlier : List (Stride c.nodes.length c.links.length)}
  {x : Stride c.nodes.length c.links.length} {s : Network c.nodes.length c.links.length} {i : Fin c.nodes.length} {app : Int}

/-- Along every run, up to a fault of the pair service itself, a flag of an application is raised only by a client that
aborts it, or by the pair service for a request of it that is still pending. -/
theorem flags_are_raised_for_pending_requests (h : Course c past s) (hf : ∀ e ∈ past, ¬e.fells i) :
    ∀ e ∈ past, (e.after.node i).service.Flagged app → (e.before.node i).service.Flagged app ∨ e.Excused i app := by
  induction h with
  | built h => exact fun _ he => nomatch he
  | @step past s s' cause h hstep ih =>
    obtain ⟨-, hf⟩ := List.forall_mem_cons.1 hf
    refine List.forall_mem_cons.2 ⟨fun hflag => ?_, ih hf⟩
    rcases ((hstep.happens h.crewed).reaches i).flagged hflag with hbefore | hcause | hflags
    · exact .inl hbefore
    · exact .inr (.aborts hcause)
    · obtain ⟨hown, r, hr, rfl⟩ := exists_request_of_flags hflags
      exact .inr (.serves (beq_iff_eq.2 hown) hr rfl ((h.accounts i hf).2.counted.served hr))

/-- An application without flags, such as one that has just been stopped, gets none as long as it is not aborted and no
request of it is pending. -/
theorem unflagged_without_requests (h : Course c (later ++ x :: earlier) s) (hf : ∀ e ∈ later ++ x :: earlier, ¬e.fells i)
    (hx : ¬ (x.after.node i).service.Flagged app)
    (hl : ∀ e ∈ later, e.cause ≠ .client (.atNode i (.abort app)) ∧ (e.before.node i).service.pendingRequests app = 0) :
    ¬ (s.node i).service.Flagged app := by
  induction later generalizing s with
  | nil =>
    cases h with
    | step _ _ => exact hx
  | cons e later ih =>
    have hraised : (e.after.node i).service.Flagged app → (e.before.node i).service.Flagged app ∨ e.Excused i app :=
      flags_are_raised_for_pending_requests h hf e List.mem_cons_self
    rw [List.cons_append] at h hf
    cases h with
    | step h _ =>
      obtain ⟨-, hf⟩ := List.forall_mem_cons.1 hf
      obtain ⟨⟨hcause, hpending⟩, hl⟩ := List.forall_mem_cons.1 hl
      intro hflag
      rcases hraised hflag with hbefore | hcause' | ⟨-, -, -, hp⟩
      · exact ih h hf hl hbefore
      · exact hcause hcause'
      · exact Nat.lt_irrefl 0 (hpending ▸ hp)

end Flags

end Network

end QuantumNode
