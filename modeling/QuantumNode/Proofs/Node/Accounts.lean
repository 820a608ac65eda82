import Mathlib.Algebra.Order.Group.Multiset
import Mathlib.Tactic.Abel
import QuantumNode.Proofs.Node.Deed
import QuantumNode.Proofs.Node.Turn

/-! The accounts of a pair service. A request that is submitted is counted, and waits in line or is handed to whoever waits
for one; the count falls where a request is settled, and nowhere else. -/
namespace QuantumNode

open Node Work Working

variable {n m : Nat}

namespace PairService

variable {π : Type}

theorem pendingRequests_addPending (s : PairService n π) (app other : Int) :
    (s.addPending other).pendingRequests app = s.pendingRequests app + if app = other then 1 else 0 := by
  change ((s.pending.insert other _).get? app).getD 0 = _
  split
  · rename_i h
    rw [h, SortedMap.get?_insert_self]
    rfl
  · rename_i h
    rw [SortedMap.get?_insert_of_ne _ h]
    rfl

theorem pendingRequests_settle (s : PairService n π) (app other : Int) :
    (s.settle other).pendingRequests app = s.pendingRequests app - if app = other then 1 else 0 := by
  unfold settle
  split
  · rename_i hzero
    change ((s.pending.erase other).get? app).getD 0 = _
    split
    · rename_i h
      rw [h, hzero, SortedMap.get?_erase_self]
      rfl
    · rename_i h
      rw [SortedMap.get?_erase_of_ne _ h]
      rfl
  · rename_i hk
    change ((s.pending.insert other _).get? app).getD 0 = _
    split
    · rename_i h
      rw [h, SortedMap.get?_insert_self]
      rfl
    · rename_i h
      rw [SortedMap.get?_insert_of_ne _ h]
      rfl

theorem settle_requests (s : PairService n π) (app : Int) : (s.settle app).requests = s.requests := by
  unfold settle
  split
  · rfl
  · rfl

end PairService

/-- How many of some requests an application has made. -/
def madeBy (app : Int) (rs : Multiset EntanglementRequest) : Nat := rs.countP (·.app = app)

@[simp] theorem madeBy_zero (app : Int) : madeBy app 0 = 0 := rfl

@[simp] theorem madeBy_add (app : Int) (rs rs' : Multiset EntanglementRequest) :
    madeBy app (rs + rs') = madeBy app rs + madeBy app rs' := Multiset.countP_add _ _ _

@[simp] theorem madeBy_singleton (app : Int) (r : EntanglementRequest) :
    madeBy app {r} = if app = r.app then 1 else 0 := by
  unfold madeBy
  split
  · rename_i h
    exact Multiset.countP_cons_of_pos _ h.symm
  · rename_i h
    exact Multiset.countP_cons_of_neg _ fun h' => h h'.symm

namespace Working

/-- The requests that a process is still to begin with: those that wait in line, and those that it has been handed. -/
def entrusted (w : Working (Node n m) n m) (p : ProcessId) : Multiset EntanglementRequest :=
  w.part.service.requests.items + w.handed p

/-- Nobody begins to wait for requests, which are handed to nobody else; those that are submitted are counted, and go to
the process that waits for them. -/
structure Tallies (w w' : Working (Node n m) n m) : Prop where
  line : ∀ q ∈ w'.part.service.requests.waiters, q ∈ w.part.service.requests.waiters
  handed : ∀ q, q ∉ w.part.service.requests.waiters → w'.handed q = w.handed q
  submitted : ∃ rs : Multiset EntanglementRequest,
    (∀ app, w'.part.service.pendingRequests app = w.part.service.pendingRequests app + madeBy app rs) ∧
      ∀ p, (∀ q ∈ w.part.service.requests.waiters, q = p) → w'.entrusted p = w.entrusted p + rs

namespace Tallies

variable {w w₁ w' : Working (Node n m) n m}

theorem trans (h : Tallies w w₁) (h' : Tallies w₁ w') : Tallies w w' := by
  obtain ⟨rs, hcount, hto⟩ := h.submitted
  obtain ⟨rs', hcount', hto'⟩ := h'.submitted
  refine ⟨fun q hq => h.line q (h'.line q hq), fun q hq => (h'.handed q fun hq' => hq (h.line q hq')).trans (h.handed q hq),
    rs + rs', fun app => ?_, fun p hp => ?_⟩
  · rw [hcount', hcount, madeBy_add, Nat.add_assoc]
  · rw [hto' p fun q hq => hp q (h.line q hq), hto p hp, Multiset.add_assoc]

/-- What has nothing to do with requests. -/
theorem of_same (hr : w'.part.service.requests = w.part.service.requests)
    (hp : w'.part.service.pending = w.part.service.pending) (hh : ∀ q, w'.handed q = w.handed q) : Tallies w w' := by
  refine ⟨fun q hq => hr ▸ hq, fun q _ => hh q, 0, fun app => ?_, fun p _ => ?_⟩
  · rw [PairService.pendingRequests, hp]
    rfl
  · rw [entrusted, hr, hh, entrusted, Multiset.add_zero]

instance : Std.Refl (Tallies : Working (Node n m) n m → Working (Node n m) n m → Prop) :=
  ⟨fun _ => of_same rfl rfl fun _ => rfl⟩

instance : IsTrans (Working (Node n m) n m) Tallies := ⟨fun _ _ _ h h' => h.trans h'⟩

/-- What an effect that hands nobody a request leaves. -/
theorem push (w : Working (Node n m) n m) {e : Effect n m} (h : ∀ q, e.requestTo? q = none) :
    Tallies w { w with effects := w.effects.push e } := of_same rfl rfl fun q => handed_push_of_none w (h q)

/-- A request that is submitted waits behind the others, or is handed to the process that has waited longest. -/
theorem submit (w : Working (Node n m) n m) (r : EntanglementRequest) : Tallies w ((Node.submit r).exec w).2 := by
  have hcount : ∀ app, (w.part.service.addPending r.app).pendingRequests app =
      w.part.service.pendingRequests app + madeBy app {r} := fun app => by
    rw [PairService.pendingRequests_addPending, madeBy_singleton]
  cases hw : w.part.service.requests.waiters with
  | nil =>
    have hx : ((Node.submit r).exec w).2 = { w with part.service := { w.part.service.addPending r.app with
        requests := { w.part.service.requests.countSent with items := w.part.service.requests.items ++ [r] } } } := by
      simp only [Node.submit, exec_bind, exec_part, PairService.addPending, Channel.countSent, Channel.arrive, hw]
      rfl
    rw [hx]
    refine ⟨fun q hq => hq, fun q _ => rfl, {r}, hcount, fun p _ => ?_⟩
    change ((w.part.service.requests.items ++ [r] : List EntanglementRequest) : Multiset EntanglementRequest) + w.handed p = _
    rw [← Multiset.coe_add, Multiset.add_assoc, Multiset.add_comm _ (w.handed p), ← Multiset.add_assoc]
    rfl
  | cons p ps =>
    have hx : ((Node.submit r).exec w).2 = { w with
        part.service := { w.part.service.addPending r.app with
          requests := { w.part.service.requests.countSent with waiters := ps } }
        effects := w.effects.push (.resume 0 p (.request r)) } := by
      simp only [Node.submit, exec_bind, exec_part, PairService.addPending, Channel.countSent, Channel.arrive, hw]
      rfl
    rw [hx]
    refine ⟨fun q hq => hw ▸ List.mem_cons_of_mem p hq, fun q hq => handed_push_of_none _ (if_neg ?_), {r}, hcount,
      fun q hq => ?_⟩
    · rintro rfl
      exact hq (hw ▸ List.mem_cons_self)
    · obtain rfl : p = q := hq p (hw ▸ List.mem_cons_self)
      change (w.part.service.requests.items : Multiset EntanglementRequest) +
        ({ w with effects := w.effects.push (.resume 0 p (.request r)) } : Working (Node n m) n m).handed p = _
      rw [handed_push, ← Multiset.add_assoc]
      simp [Effect.requestTo?, entrusted]

end Tallies

theorem wakeAll_tallies (ps : List ProcessId) : Within Tallies (wakeAll ps : NodeWork n m Unit) :=
  .forM (fun _ w => .push w fun _ => rfl) ps

theorem notifyMemoryFreed_tallies : Within Tallies (notifyMemoryFreed : NodeWork n m Unit) :=
  .of_part fun _ => Within.setPart_bind (.of_same rfl rfl fun _ => rfl) (wakeAll_tallies _)

theorem notifyArrayWritten_tallies : Within Tallies (notifyArrayWritten : NodeWork n m Unit) :=
  .of_part fun _ => Within.setPart_bind (.of_same rfl rfl fun _ => rfl) (wakeAll_tallies _)

theorem notifyNews_tallies : Within Tallies (notifyNews : NodeWork n m Unit) :=
  .of_part fun _ => Within.setPart_bind (.of_same rfl rfl fun _ => rfl) (wakeAll_tallies _)

instance : Placid (Tallies : Working (Node n m) n m → Working (Node n m) n m → Prop) where
  emit w e h := .push w fun q => by cases e <;> first | rfl | exact nomatch h
  part _ _ h := .of_same (by rw [h.service]) (by rw [h.service]) fun _ => rfl
  quantum _ _ := .of_same rfl rfl fun _ => rfl
  flags _ _ h hp := .of_same h.requests hp fun _ => rfl
  submit := .submit

instance : Steering (Tallies : Working (Node n m) n m → Working (Node n m) n m → Prop) where
  dispatcher _ _ _ := .of_same rfl rfl fun _ => rfl
  reply w _ _ := .push w fun _ => rfl

instance : Lavish (Tallies : Working (Node n m) n m → Working (Node n m) n m → Prop) where
  pool _ _ _ := .of_same rfl rfl fun _ => rfl
  apps _ _ := .of_same rfl rfl fun _ => rfl
  freed := notifyMemoryFreed_tallies
  written := notifyArrayWritten_tallies
  news := notifyNews_tallies
  gone w app :=
    have hforget : Within Tallies (modifyService (·.forget app) : NodeWork n m Unit) := fun _ => .of_same rfl rfl fun _ => rfl
    hforget.bind (fun _ => notifyNews_tallies) w

instance : Affable (Tallies : Working (Node n m) n m → Working (Node n m) n m → Prop) where
  tell w _ _ _ := .push w fun _ => rfl
  abort w _ _ := .push w fun _ => rfl
  hold _ _ hr _ _ _ _ hp := .of_same hr hp fun _ => rfl

instance (app : Int) : Blaming app (Tallies : Working (Node n m) n m → Working (Node n m) n m → Prop) where
  blame _ := .of_same rfl rfl fun _ => rfl

instance (p : ProcessId) : Drowsy p (Tallies : Working (Node n m) n m → Working (Node n m) n m → Prop) where
  sleep w _ := .push w fun _ => rfl
  write _ := .of_same rfl rfl fun _ => rfl
  text _ := .of_same rfl rfl fun _ => rfl

instance (p : ProcessId) : Listening p (Tallies : Working (Node n m) n m → Working (Node n m) n m → Prop) where
  news _ := .of_same rfl rfl fun _ => rfl

instance (p : ProcessId) : Starving p (Tallies : Working (Node n m) n m → Working (Node n m) n m → Prop) where
  count _ := .of_same rfl rfl fun _ => rfl
  slot _ := .of_same rfl rfl fun _ => rfl

end Working

namespace Pairing

variable {w : Working (Node n m) n m}

/-- A request that is settled is no longer pending when whoever waits for an array to be written is told. -/
theorem exec_settle (r : EntanglementRequest) : ∃ w', (settle r).exec w = (.ok (.go .idle), w') ∧
    w'.part = { w.part with
      service := w.part.service.settle r.app
      arrayWritten := ⟨[], w.part.arrayWritten.notified + 1⟩ } ∧
    (∀ q, w'.resumed q = w.resumed q + w.part.arrayWritten.waiters.count q) ∧
    ∀ q, q ∉ w.part.service.requests.waiters → w'.handed q = w.handed q := by
  obtain ⟨w', he, hpart, hres⟩ := exec_notifyArrayWritten
    { w with part := { w.part with service := w.part.service.settle r.app } }
  have ht := notifyArrayWritten_tallies.of_exec he
  simp only [settle, modifyService, exec_bind, exec_modifyPart, he, exec_pure]
  exact ⟨w', rfl, hpart, hres, fun q hq => ht.handed q (by rwa [PairService.settle_requests])⟩

/-- The oldest request is taken out of the line. -/
theorem exec_awaitRequest_cons (p : ProcessId) {r : EntanglementRequest} {rs : List EntanglementRequest}
    (h : w.part.service.requests.items = r :: rs) :
    (awaitRequest p).exec w = (beginRequest r).exec { w with part.service.requests.items := rs } := by
  simp only [awaitRequest, service, modifyService, exec_bind, exec_part, exec_modifyPart, exec_pure, Channel.receive, h]

theorem exec_awaitRequest_nil (p : ProcessId) (h : w.part.service.requests.items = []) :
    (awaitRequest p).exec w = (.ok (.rest .idle),
      { w with part.service.requests.waiters := w.part.service.requests.waiters ++ [p] }) := by
  simp only [awaitRequest, service, modifyService, exec_bind, exec_part, exec_modifyPart, exec_pure, Channel.receive, h]

/-- A request that is begun with is served, or does not end well. -/
theorem beginRequest_request (r : EntanglementRequest) :
    Yields (fun flow => flow.stage.request? = some r) (beginRequest r : NodeWork n m (Step m)) := by
  refine .bind fun _ => ?_
  split
  · exact .bind fun _ => .bind fun _ => .ite (.bind fun _ => .pure rfl) (.bind fun _ => .bind fun _ => .pure rfl)
  · exact .bind fun _ => .pure rfl

end Pairing

namespace Working

variable {w w' : Working (Node n m) n m}

/-- Nobody but the process at work begins to wait for requests, and they are handed to nobody who did not wait. -/
structure Seats (p : ProcessId) (w w' : Working (Node n m) n m) : Prop where
  line : ∀ q ∈ w'.part.service.requests.waiters, q ∈ w.part.service.requests.waiters ∨ q = p
  handed : ∀ q, q ∉ w.part.service.requests.waiters → w'.handed q = w.handed q

theorem Tallies.seats (h : Tallies w w') (p : ProcessId) : Seats p w w' := ⟨fun q hq => .inl (h.line q hq), h.handed⟩

/-- Nobody waits for requests, and those that are submitted wait in line. -/
structure Queues (rs : Multiset EntanglementRequest) (w w' : Working (Node n m) n m) : Prop where
  line : w'.part.service.requests.waiters = []
  pending : ∀ app, w'.part.service.pendingRequests app = w.part.service.pendingRequests app + madeBy app rs
  items : (w'.part.service.requests.items : Multiset EntanglementRequest) = w.part.service.requests.items + rs

theorem Tallies.queues (h : Tallies w w') (hl : w.part.service.requests.waiters = []) : ∃ rs, Queues rs w w' := by
  obtain ⟨rs, hcount, hto⟩ := h.submitted
  have hnone : ∀ q, q ∉ w.part.service.requests.waiters := fun q hq => by
    rw [hl] at hq
    exact nomatch hq
  refine ⟨rs, List.eq_nil_iff_forall_not_mem.2 fun q hq => hnone q (h.line q hq), hcount, ?_⟩
  have he := hto 0 fun q hq => absurd hq (hnone q)
  rw [entrusted, entrusted, h.handed 0 (hnone 0), add_right_comm] at he
  exact add_right_cancel he

end Working

/-- The request that a process is woken with. -/
def Wake.request? : Wake → Option EntanglementRequest
  | .request r => some r
  | _ => none

/-- The request that a pair service is to settle. -/
def PairStage.settled? : PairStage → Option EntanglementRequest
  | .settling r => some r
  | _ => none

theorem PairStage.settled?_eq_some {stage : PairStage} {r : EntanglementRequest} :
    stage.settled? = some r ↔ stage = .settling r := by
  cases stage <;> simp [settled?]

namespace Pairing

variable {w : Working (Node n m) n m} {stage : PairStage} {wake : Wake}

theorem step_tallies (p : ProcessId) (wake : Wake) (hidle : stage ≠ .idle) (hsettling : ¬∃ r, stage = .settling r) :
    Within Tallies (step p stage wake : NodeWork n m (Step m)) :=
  step_cordial p wake hidle (fun r h => hsettling ⟨r, h⟩) (fun _ _ => inferInstance) (fun _ _ => inferInstance)
    (fun _ _ => inferInstance) fun _ _ _ _ => inferInstance

theorem beginRequest_tallies (r : EntanglementRequest) : Within Tallies (beginRequest r : NodeWork n m (Step m)) :=
  beginRequest_sociable r

theorem awaitRequest_seats (p : ProcessId) : Within (Seats p) (awaitRequest p : NodeWork n m (Step m)) := fun w => by
  cases h : w.part.service.requests.items with
  | nil =>
    rw [exec_awaitRequest_nil p h]
    refine ⟨fun q hq => ?_, fun _ _ => rfl⟩
    exact (List.mem_append.1 hq).imp_right List.mem_singleton.1
  | cons r rs =>
    rw [exec_awaitRequest_cons p h]
    have ht := beginRequest_tallies r { w with part.service.requests.items := rs }
    exact ⟨fun q hq => .inl (ht.line q hq), ht.handed⟩

/-- At its turn, whatever comes of it, a pair service is the only one to begin to wait for requests. -/
theorem step_seats (p : ProcessId) (stage : PairStage) (wake : Wake) :
    Within (Seats p) (step p stage wake : NodeWork n m (Step m)) := fun w => by
  by_cases hidle : stage = .idle
  · subst hidle
    cases wake with
    | request r => exact (beginRequest_tallies r w).seats p
    | _ => exact awaitRequest_seats p w
  by_cases hsettling : ∃ r, stage = .settling r
  · obtain ⟨r, rfl⟩ := hsettling
    obtain ⟨w', he, hpart, -, hh⟩ := exec_settle (w := w) r
    change Seats p w ((settle r).exec w).2
    rw [he]
    refine ⟨fun q hq => .inl ?_, hh⟩
    rwa [hpart, PairService.settle_requests] at hq
  · exact (step_tallies p wake hidle hsettling w).seats p

/-- What becomes of the requests of a pair service at its turn: those that it is to begin with, and those that are
submitted, are served or wait in line, and one that is settled is gone. -/
structure Serves (stage : PairStage) (wake : Wake) (flow : Step m) (rs : Multiset EntanglementRequest)
    (w w' : Working (Node n m) n m) : Prop where
  line : flow.stage ≠ .idle → w'.part.service.requests.waiters = []
  pending : ∀ app, w'.part.service.pendingRequests app + madeBy app stage.settled?.toList =
    w.part.service.pendingRequests app + madeBy app rs
  requests : (w'.part.service.requests.items + flow.stage.request?.toList + stage.settled?.toList :
    Multiset EntanglementRequest) = w.part.service.requests.items + stage.request?.toList + wake.request?.toList + rs

theorem beginRequest_serves (r : EntanglementRequest) (hl : w.part.service.requests.waiters = []) :
    Ends (beginRequest r) w fun flow w' => ∃ rs, Serves .idle (.request r) flow rs w w' := fun flow w' he => by
  have hserved := beginRequest_request r w flow w' he
  obtain ⟨rs, hq⟩ := ((beginRequest_tallies r).of_exec he).queues hl
  refine ⟨rs, fun _ => hq.line, hq.pending, ?_⟩
  rw [hserved, hq.items]
  change (w.part.service.requests.items + rs + {r} + 0 : Multiset EntanglementRequest) =
    w.part.service.requests.items + 0 + {r} + rs
  abel

theorem awaitRequest_serves (p : ProcessId) (hw : wake.request? = none) (hl : w.part.service.requests.waiters = []) :
    Ends (awaitRequest p) w fun flow w' => ∃ rs, Serves .idle wake flow rs w w' := by
  intro flow w' he
  cases h : w.part.service.requests.items with
  | nil =>
    rw [exec_awaitRequest_nil p h] at he
    obtain ⟨⟨⟩, rfl⟩ := Prod.mk.inj he
    refine ⟨0, fun hne => absurd rfl hne, fun _ => rfl, ?_⟩
    rw [hw]
    exact (Multiset.add_zero _).symm
  | cons r items =>
    rw [exec_awaitRequest_cons p h] at he
    obtain ⟨rs, hs⟩ := beginRequest_serves (w := { w with part.service.requests.items := items }) r hl flow w' he
    refine ⟨rs, hs.line, hs.pending, ?_⟩
    rw [hs.requests, hw, h, ← Multiset.cons_coe, ← Multiset.singleton_add]
    change (items + 0 + {r} + rs : Multiset EntanglementRequest) = {r} + items + 0 + 0 + rs
    abel

theorem settle_serves (r : EntanglementRequest) (hw : wake.request? = none)
    (hpending : 0 < w.part.service.pendingRequests r.app) :
    Ends (settle r) w fun flow w' => Serves (.settling r) wake flow 0 w w' := by
  intro flow w' he
  obtain ⟨w₁, hx, hpart, -, -⟩ := exec_settle (w := w) r
  obtain ⟨⟨⟩, rfl⟩ := Prod.mk.inj (hx.symm.trans he)
  refine ⟨fun hne => absurd rfl hne, fun app => ?_, ?_⟩
  · rw [hpart, PairService.pendingRequests_settle]
    change _ + madeBy app {r} = _
    rw [madeBy_singleton, madeBy_zero]
    split
    · rename_i h
      subst h
      omega
    · rfl
  · rw [hpart, PairService.settle_requests, hw]
    change (w.part.service.requests.items + 0 + {r} : Multiset EntanglementRequest) =
      w.part.service.requests.items + {r} + 0 + 0
    abel

/-- A request is served until it is settled. -/
theorem step_request (p : ProcessId) (hs : stage.Sound) (hidle : stage ≠ .idle) (hsettling : ¬∃ r, stage = .settling r) :
    Ends (step p stage wake) w fun flow _ => flow.stage.request? = stage.request? := fun flow w' he => by
  obtain ⟨took, told, -, hd⟩ := step_deed p stage wake flow w' he
  rcases hd.serves hs with h | ⟨r, h, -⟩ | h
  · exact absurd h hidle
  · exact absurd ⟨r, h⟩ hsettling
  · exact h

/-- A pair service at its turn, while nobody waits for requests. -/
theorem step_serves (p : ProcessId) (hs : stage.Sound) (hw : ∀ r, wake = .request r → stage = .idle)
    (hl : w.part.service.requests.waiters = [])
    (hpending : ∀ r, stage = .settling r → 0 < w.part.service.pendingRequests r.app) :
    Ends (step p stage wake) w fun flow w' => ∃ rs, Serves stage wake flow rs w w' := by
  intro flow w' he
  by_cases hidle : stage = .idle
  · subst hidle
    cases wake with
    | request r => exact beginRequest_serves r hl flow w' he
    | _ => exact awaitRequest_serves p rfl hl flow w' he
  have hwake : wake.request? = none := by
    cases wake with
    | request r => exact absurd (hw r rfl) hidle
    | _ => rfl
  by_cases hsettling : ∃ r, stage = .settling r
  · obtain ⟨r, rfl⟩ := hsettling
    exact ⟨0, settle_serves r hwake (hpending r rfl) flow w' he⟩
  · have hrequest := step_request p hs hidle hsettling flow w' he
    obtain ⟨rs, hq⟩ := ((step_tallies p wake hidle hsettling).of_exec he).queues hl
    have hsettled : stage.settled? = none :=
      Option.eq_none_iff_forall_ne_some.2 fun r hr => hsettling ⟨r, PairStage.settled?_eq_some.1 hr⟩
    refine ⟨rs, fun _ => hq.line, fun app => by rw [hsettled]; exact hq.pending app, ?_⟩
    rw [hrequest, hq.items, hwake, hsettled]
    change (_ + rs + _ + 0 : Multiset EntanglementRequest) = _ + _ + 0 + rs
    abel

end Pairing

end QuantumNode
