import QuantumNode.Proofs.Node.Deed
import QuantumNode.Proofs.Node.Service
import QuantumNode.Proofs.Node.Turn

/-! A pair service at its own turn. A step of it leaves it with one turn more than before only if it rests, and counts
a wait exactly where it finds no slot to communicate with. -/
namespace QuantumNode

open Node Work Working

variable {n m : Nat}

/-- Whether a process waits to be woken. -/
def Flow.rests {α β : Type} : Flow m α β → Bool
  | .rest _ => true
  | _ => false

@[simp] theorem Flow.rests_map {α β γ δ : Type} (f : α → γ) (g : β → δ) (flow : Flow m α β) :
    (flow.map f g).rests = flow.rests := by
  cases flow <;> rfl

/-- A process has gained at most one turn. -/
def Gains (p : ProcessId) (w w' : Working (Node n m) n m) : Prop :=
  ∀ q, w'.turns q ≤ w.turns q + if q = p then 1 else 0

/-- Work that leaves a process with a turn more only if it rests. -/
def OneTurn {α β : Type} (p : ProcessId) (x : NodeWork n m (Flow m α β)) : Prop :=
  ∀ w, Ends x w fun flow w' => ∀ q, w'.turns q ≤ w.turns q + if flow.rests = true ∧ q = p then 1 else 0

namespace OneTurn

variable {α β γ : Type} {p : ProcessId}

theorem of_stirs {x : NodeWork n m (Flow m α β)} (h : Within (Stirs none) x) : OneTurn p x :=
  fun _ _ _ he q => Nat.le_add_right_of_le ((h.of_exec he).turns q nofun)

theorem next {x : NodeWork n m γ} (h : Within (Stirs none) x) {f : γ → NodeWork n m (Flow m α β)}
    (hf : ∀ a, OneTurn p (f a)) : OneTurn p (x >>= f) := fun w => h.next fun a w₁ hs flow w' he q => by
  have := hs.turns q nofun
  have := hf a w₁ flow w' he q
  omega

theorem rest {x : NodeWork n m γ} (h : Within (Gains p) x) (a : α) :
    OneTurn p (x >>= fun _ => pure (.rest a) : NodeWork n m (Flow m α β)) := fun _ => .bind fun _ _ he => .pure fun q => by
  have := h.of_exec he q
  simpa [Flow.rests] using this

end OneTurn

namespace QubitPool

/-- No slot that communicates is free. -/
def Exhausted (pool : QubitPool) : Prop := ∀ slot, pool.isCommunication slot = true → pool.isAllocated slot = true

/-- Slots that communicate are found as long as one is free. -/
theorem exhausted_of_error {pool : QubitPool} {f : Fault} (h : pool.allocateCommunication = .error f) :
    pool.Exhausted := by
  intro slot hc
  unfold allocateCommunication at h
  split at h
  · exact nomatch h
  · rename_i hnone
    unfold isCommunication at hc
    unfold isAllocated
    split at hc
    · rename_i s hs
      obtain ⟨hlt, rfl⟩ := Array.getElem?_eq_some_iff.1 hs
      have := Array.findIdx?_eq_none_iff.1 hnone _ (Array.getElem_mem hlt)
      simpa [hc] using this
    · exact nomatch hc

end QubitPool

namespace Pairing

section

variable {p : ProcessId}

theorem waitForNews_gains : Within (Gains p) (waitForNews p : NodeWork n m Unit) := fun w q => by
  change w.resumed q + (w.part.memoryFreed.waiters.count q + w.part.arrayWritten.waiters.count q
    + w.part.inbox.waiters.count q + (w.part.service.news.waiters ++ [p]).count q
    + w.part.service.requests.waiters.count q) ≤ _
  simp only [List.count_append, List.count_singleton, beq_iff_eq, turns, lines, eq_comm (a := q)]
  omega

/-- A pair service at work may begin to wait. -/
instance : Standing p (Stirs (some p) : Working (Node n m) n m → Working (Node n m) n m → Prop) where
  news w := by
    refine ⟨fun q => Nat.le_refl _, fun q hq => ?_, .inl rfl, rfl, fun _ => rfl, rfl⟩
    have hpq : p ≠ q := fun h => hq (congrArg some h)
    change w.resumed q + (w.part.memoryFreed.waiters.count q + w.part.arrayWritten.waiters.count q
      + w.part.inbox.waiters.count q + (w.part.service.news.waiters ++ [p]).count q
      + w.part.service.requests.waiters.count q) ≤ _
    simp [turns, lines, hpq]
  request w := by
    refine ⟨fun q => Nat.le_refl _, fun q hq => ?_, .inl rfl, rfl, fun _ => rfl, rfl⟩
    have hpq : p ≠ q := fun h => hq (congrArg some h)
    unfold Channel.receive
    split
    · exact Nat.le_refl _
    · simp [turns, resumed, lines, hpq]

theorem startGate_gains (c : DeviceCall) : Within (Gains p) (startGate p c : NodeWork n m Unit) := .of_part fun w q => by
  rcases w.part.device.gateDuration c with _ | delay
  · exact Nat.le_add_right _ _
  · change ({ w with effects := w.effects.push (.resume delay p .go) } : Working (Node n m) n m).turns q ≤ _
    simp only [turns, resumed_push, Effect.resumed?, Option.some.injEq, eq_comm (a := q)]
    omega

end

/-! Steps that may rest. -/

section

variable {p : ProcessId}

theorem awaitReply_oneTurn (r : EntanglementRequest) (task : Option PairTask) :
    OneTurn p (awaitReply p r task : NodeWork n m (Step m)) := .next (nextMessage_sociable _) fun message => by
  cases message with
  | some reply => exact .of_stirs (takeReply_sociable r task reply)
  | none => exact .rest waitForNews_gains _

theorem awaitDescriptor_oneTurn (r : EntanglementRequest) :
    OneTurn p (awaitDescriptor p r : NodeWork n m (Step m)) := .next (nextMessage_sociable _) fun message => by
  cases message with
  | some message => exact .of_stirs (takeDescriptor_sociable r message)
  | none =>
    refine .next service_mild fun service => ?_
    split
    · exact .rest waitForNews_gains _
    · exact .of_stirs ((log_mild _ _ _).bind fun _ => .pure _)

theorem correct_oneTurn (t : PairTask) (k position : Nat) (pair : Pair) (calls : List DeviceCall) :
    OneTurn p (correct p t k position pair calls : NodeWork n m (Step m)) := by
  cases calls with
  | nil => exact .of_stirs (keepHalf_housing t k position pair)
  | cons c calls => exact .rest (startGate_gains c) _

theorem takePair_oneTurn (t : PairTask) (k position : Nat) (pair : Pair) :
    OneTurn p (takePair p t k position pair : NodeWork n m (Step m)) := .next (log_mild _ _ _) fun _ => by
  split
  · exact correct_oneTurn t k position pair _
  · exact .of_stirs (keepHalf_housing t k position pair)
  · exact .of_stirs (dropHalf_noting t k position pair)

theorem takeAnswer_oneTurn (t : PairTask) (k position : Nat) (answer : LinkAnswer) :
    OneTurn p (takeAnswer p t k position answer : NodeWork n m (Step m)) :=
  .next clearInFlight_sociable fun _ => by
    cases answer with
    | refused cause _ => exact .of_stirs (takeRefusal_sociable t k position cause (fun _ => inferInstance) fun _ => inferInstance)
    | pair pair => exact takePair_oneTurn t k position pair

/-- The oldest request is begun with; without one the service waits for one. -/
theorem awaitRequest_cases (w : Working (Node n m) n m) :
    (∃ w', (awaitRequest p).exec w = (.ok (.rest .idle), w') ∧ Gains p w w') ∨
      ∃ r w₁, (awaitRequest p).exec w = (beginRequest r).exec w₁ ∧ ∀ x, Stirs x w w₁ := by
  rcases hi : w.part.service.requests.items with _ | ⟨r, rs⟩
  · let requests : Channel EntanglementRequest ProcessId :=
      { w.part.service.requests with items := [], waiters := w.part.service.requests.waiters ++ [p] }
    refine .inl ⟨{ w with part := { w.part with service.requests := requests } }, ?_, fun q => ?_⟩
    · simp only [awaitRequest, service, exec_bind, exec_part, exec_pure, Channel.receive, hi]
      rfl
    · simp only [turns, resumed, lines, requests, List.count_append, List.count_singleton, beq_iff_eq, eq_comm (a := q)]
      omega
  · let requests := { w.part.service.requests with items := rs }
    refine .inr ⟨r, { w with part := { w.part with service.requests := requests } }, ?_, fun x => ?_⟩
    · simp only [awaitRequest, service, exec_bind, exec_part, exec_pure, Channel.receive, hi]
      rfl
    · exact .of_lines (fun _ => rfl) (fun _ => rfl) rfl rfl (fun _ => rfl) rfl

theorem awaitRequest_oneTurn : OneTurn p (awaitRequest p : NodeWork n m (Step m)) := fun w flow w' h q => by
  rcases awaitRequest_cases (p := p) w with ⟨w₁, he, hg⟩ | ⟨r, w₁, he, hs⟩
  · rw [he] at h
    cases h
    simpa [Flow.rests] using hg q
  · rw [he] at h
    have := (hs none).turns q nofun
    have := OneTurn.of_stirs (p := p) (beginRequest_sociable r) w₁ flow w' h q
    omega

end

/-! Looking for a slot. -/

theorem exec_allocateCommunication_error {w : Working (Node n m) n m} {f : Fault}
    (h : w.part.pool.allocateCommunication = .error f) :
    (allocateCommunication : NodeWork n m Nat).exec w = (.error f, w) := by
  simp only [allocateCommunication, exec_bind, exec_part, exec_ofExcept, h]

/-- A pair service has found no slot for a pair, and waits for one. -/
structure Starves (p : ProcessId) (t : PairTask) (w w' : Working (Node n m) n m) : Prop where
  pool : w'.part.pool = w.part.pool
  exhausted : w.part.pool.Exhausted
  service : w'.part.service = { w.part.service with allocationWaits := w.part.service.allocationWaits + 1 }
  going : w.part.service.isAborted t.request.app = false
  freed : w'.part.memoryFreed = w.part.memoryFreed.wait p
  resumed : ∀ q, w'.resumed q = w.resumed q
  turns : ∀ q, w'.turns q = w.turns q + if q = p then 1 else 0
  config : w'.part.device.config = w.part.device.config

theorem tryPair_starves {p : ProcessId} {t : PairTask} {k : Nat} {w : Working (Node n m) n m} {f : Fault}
    (ha : w.part.service.isAborted t.request.app = false) (h : w.part.pool.allocateCommunication = .error f) :
    ∃ w', (tryPair p t k).exec w = (.ok (.rest (.starving t k)), w') ∧ Starves p t w w' := by
  let node : Node n m :=
    { w.part with
      service.allocationWaits := w.part.service.allocationWaits + 1
      memoryFreed := w.part.memoryFreed.wait p }
  let text : Effect n m := .log .info (w.part.component "Netstack") "no communication qubit available, waiting for a free"
  refine ⟨{ w with part := node, effects := w.effects.push text }, ?_, ?_⟩
  · simp only [tryPair, service, exec_bind, exec_part, exec_pure, ha, Bool.false_eq_true, if_false, exec_attempt,
      exec_allocateCommunication_error h]
    rfl
  · have hres : ∀ q,
        ({ w with part := node, effects := w.effects.push text } : Working (Node n m) n m).resumed q = w.resumed q :=
      w.resumed_push_of_none rfl
    refine ⟨rfl, QubitPool.exhausted_of_error h, rfl, ha, rfl, hres, fun q => ?_, rfl⟩
    rw [turns, hres]
    simp only [turns, lines, node, Signal.wait, List.count_append, List.count_singleton, beq_iff_eq, eq_comm (a := q)]
    omega

/-- A pair service that looks for a slot has been told to stop, or it finds one and asks a link for a pair. -/
inductive Finds (t : PairTask) (k : Nat) (w w' : Working (Node n m) n m) : Except Fault (Step m) → Prop where
  | aborted (ha : w.part.service.isAborted t.request.app = true) (hp : w'.part.pool = w.part.pool) :
      Finds t k w w' (.ok (.go (.settling t.request)))
  | slot {position : Nat} {result : Except Fault (Step m)} (ha : w.part.service.isAborted t.request.app = false)
      (hc : w.part.pool.isCommunication position = true) (hp : w.part.pool.Takes w'.part.pool position)
      (hr : ∀ flow, result = .ok flow → ∃ l e c, flow = .call (.linking t k position) l e c) : Finds t k w w' result

theorem Finds.of_same {t : PairTask} {k : Nat} {w w₁ w' : Working (Node n m) n m} {result : Except Fault (Step m)}
    (hpart : w₁.part = w.part) (h : Finds t k w₁ w' result) : Finds t k w w' result := by
  cases h with
  | aborted ha hp => exact .aborted (hpart ▸ ha) (hpart ▸ hp)
  | slot ha hc hp hr => exact .slot (hpart ▸ ha) (hpart ▸ hc) (hpart ▸ hp) hr

theorem tryPair_finds {p : ProcessId} {t : PairTask} {k : Nat} {w : Working (Node n m) n m}
    (h : w.part.service.isAborted t.request.app = true ∨ ∃ r, w.part.pool.allocateCommunication = .ok r) :
    Stirs none w ((tryPair p t k).exec w).2 ∧
      Finds t k w ((tryPair p t k).exec w).2 ((tryPair p t k).exec w).1 := by
  cases ha : w.part.service.isAborted t.request.app with
  | true =>
    have he : (tryPair p t k).exec w = ((do
        Node.log .info "Netstack" s!"app {t.request.app} aborted before pair {k}"
        return .go (.settling t.request) : NodeWork n m (Step m))).exec w := by
      simp only [tryPair, service, exec_bind, exec_part, exec_pure, ha, if_true]
      rfl
    rw [he]
    exact ⟨((log_mild _ _ _).bind fun _ => .pure _ : Within (Stirs none) _) w, .aborted ha rfl⟩
  | false =>
    obtain ⟨⟨position, pool⟩, hp⟩ := h.resolve_left (by simp [ha])
    obtain ⟨htakes, hcomm⟩ := QubitPool.takes_of_allocateCommunication hp
    let w₁ : Working (Node n m) n m := { w with part := { w.part with pool := pool } }
    have he : (tryPair p t k).exec w = (callLink t k position).exec w₁ := by
      simp only [tryPair, service, exec_bind, exec_part, exec_pure, ha, Bool.false_eq_true, if_false, exec_attempt,
        allocateCommunication, setPool, exec_ofExcept, exec_modifyPart, hp, callLink]
      rfl
    have hpool : ((callLink t k position).exec w₁).2.part.pool = pool := (callLink_sociable t k position w₁ : Thrifty w₁ _).pool
    rw [he]
    refine ⟨(Pooling.pool w pool htakes.communication : Stirs none w w₁).trans (callLink_sociable t k position w₁),
      .slot ha hcomm (hpool ▸ htakes) fun flow hr => ?_⟩
    obtain ⟨_, _, -, h⟩ := exec_bind_ok.1
      (Prod.ext hr rfl : (callLink t k position).exec w₁ = (.ok flow, ((callLink t k position).exec w₁).2))
    obtain ⟨_, _, -, h⟩ := exec_bind_ok.1 h
    obtain ⟨⟨l, e, c⟩, _, -, h⟩ := exec_bind_ok.1 h
    cases h
    exact ⟨l, e, c, rfl⟩

theorem Starves.of_same {p : ProcessId} {t : PairTask} {w w₁ w' : Working (Node n m) n m} (hpart : w₁.part = w.part)
    (hres : ∀ q, w₁.resumed q = w.resumed q) (h : Starves p t w₁ w') : Starves p t w w' := by
  have hturns : ∀ q, w₁.turns q = w.turns q := fun q => by
    rw [Working.turns, Working.turns, hpart, hres]
  have ⟨hpool, hex, hservice, hgoing, hfreed, hresumed, hturns', hconfig⟩ := h
  rw [hpart] at hpool hex hservice hgoing hfreed hconfig
  exact ⟨hpool, hex, hservice, hgoing, hfreed, fun q => (hresumed q).trans (hres q),
    fun q => by rw [hturns', hturns], hconfig⟩

/-! A step. -/

/-- A step that finds what it looks for, or looks for nothing: it keeps everybody else waiting no longer, counts no wait,
and leaves the service with a turn more only if it rests. -/
structure Fares (p : ProcessId) (stage : PairStage) (w w' : Working (Node n m) n m) (result : Except Fault (Step m)) :
    Prop where
  stirs : Stirs (some p) w w'
  turns : ∀ flow, result = .ok flow → ∀ q, w'.turns q ≤ w.turns q + if flow.rests = true ∧ q = p then 1 else 0
  sated : ∀ flow, result = .ok flow → ∀ t k, flow.stage ≠ .starving t k
  finds : ∀ t k, Asks t k stage → Finds t k w w' result

/-- A step of a service either finds that no slot is free, and waits for one, or it does not. -/
def Tries (p : ProcessId) (stage : PairStage) (w : Working (Node n m) n m) (x : NodeWork n m (Step m)) : Prop :=
  (∃ t k w', Asks t k stage ∧ x.exec w = (.ok (.rest (.starving t k)), w') ∧ Starves p t w w') ∨
    Fares p stage w (x.exec w).2 (x.exec w).1

theorem tryPair_tries {p : ProcessId} {t : PairTask} {k : Nat} {stage : PairStage} {w : Working (Node n m) n m}
    (ha : Asks t k stage) : Tries p stage w (tryPair p t k) := by
  by_cases h : w.part.service.isAborted t.request.app = true ∨ ∃ r, w.part.pool.allocateCommunication = .ok r
  · obtain ⟨hs, hf⟩ := tryPair_finds (p := p) (k := k) h
    refine .inr ⟨hs.weaken, fun flow _ q => Nat.le_add_right_of_le (hs.turns q nofun), fun flow hflow t' k' hst => ?_,
      fun t' k' ha' => ?_⟩
    · rw [hflow] at hf
      cases hf with
      | aborted _ _ => exact nomatch hst
      | slot _ _ _ hr =>
        obtain ⟨l, e, c, rfl⟩ := hr flow rfl
        exact nomatch hst
    · obtain ⟨rfl, rfl⟩ := ha.unique ha'
      exact hf
  · obtain ⟨hab, hp⟩ := not_or.1 h
    rcases hf : w.part.pool.allocateCommunication with f | r
    · obtain ⟨w', he, hw⟩ := tryPair_starves (p := p) (k := k) (Bool.eq_false_iff.2 hab) hf
      exact .inl ⟨t, k, w', ha, he, hw⟩
    · exact absurd ⟨r, hf⟩ hp

/-- What is said before a try does not matter. -/
theorem Tries.log {p : ProcessId} {stage : PairStage} {w : Working (Node n m) n m} {x : NodeWork n m (Step m)}
    (level : LogLevel) (kind text : String) (h : ∀ w : Working (Node n m) n m, Tries p stage w x) :
    Tries p stage w (do Node.log level kind text; x) := by
  let w₁ : Working (Node n m) n m := { w with effects := w.effects.push (.log level (w.part.component kind) text) }
  have hpart : w₁.part = w.part := rfl
  have hres : ∀ q, w₁.resumed q = w.resumed q := w.resumed_push_of_none rfl
  have hturns : ∀ q, w₁.turns q = w.turns q := fun q => by rw [turns, hres, turns]
  have he : (do Node.log level kind text; x : NodeWork n m (Step m)).exec w = x.exec w₁ := rfl
  rw [Tries, he]
  rcases h w₁ with ⟨t, k, w', ha, hx, hw⟩ | ⟨hs, ht, hsated, hf⟩
  · exact .inl ⟨t, k, w', ha, hx, hw.of_same hpart hres⟩
  · refine .inr ⟨(Stirs.of_lines hres (fun _ => rfl) rfl rfl (fun _ => rfl) rfl).trans hs,
      fun flow hflow q => hturns q ▸ ht flow hflow q, hsated, fun t k ha => (hf t k ha).of_same hpart⟩

/-- A step of a service that looks for no slot. -/
theorem Tries.of_oneTurn {p : ProcessId} {stage : PairStage} {wake : Wake} {w : Working (Node n m) n m}
    (hw : Within (Stirs (some p)) (step p stage wake : NodeWork n m (Step m)))
    (hm : OneTurn p (step p stage wake : NodeWork n m (Step m))) (hs : ∀ t k, ¬ Asks t k stage) :
    Tries p stage w (step p stage wake) := by
  refine .inr ⟨hw w, fun flow hflow => hm w flow _ (Prod.ext hflow rfl), fun flow hflow t k hst => ?_,
    fun t k ha => absurd ha (hs t k)⟩
  obtain ⟨took, told, -, hd⟩ := step_deed p stage wake flow _ (Prod.ext hflow rfl : _ = (_, ((step p stage wake).exec w).2))
  exact hs t k (hd.starving hst)

theorem step_tries (p : ProcessId) (stage : PairStage) (wake : Wake) (w : Working (Node n m) n m) :
    Tries p stage w (step p stage wake) := by
  cases stage with
  | idle =>
    refine .of_oneTurn ?_ ?_ fun t k h => nomatch h
    · cases wake with
      | request r => exact beginRequest_sociable r
      | _ => exact awaitRequest_standing p
    · cases wake with
      | request r => exact .of_stirs (beginRequest_sociable r)
      | _ => exact awaitRequest_oneTurn
  | awaitingReply r task =>
    exact .of_oneTurn (awaitReply_listening p r task) (awaitReply_oneTurn r task) fun t k h => nomatch h
  | awaitingDescriptor r =>
    exact .of_oneTurn (awaitDescriptor_listening p r) (awaitDescriptor_oneTurn r) fun t k h => nomatch h
  | next t k =>
    by_cases hk : (k : Int) < t.count
    · have he : step p (.next t k) wake = (do
          Node.log .info "Netstack" s!"trying to allocate a communication qubit for pair {k}"
          tryPair p t k : NodeWork n m (Step m)) := if_pos hk
      rw [he]
      exact .log _ _ _ fun w => tryPair_tries (.next hk)
    · have he : step p (.next t k) wake = (return .go (.settling t.request) : NodeWork n m (Step m)) := if_neg hk
      refine .of_oneTurn ?_ ?_ fun t' k' h => ?_
      · rw [he]
        exact .pure _
      · rw [he]
        exact .of_stirs (.pure _)
      · cases h with
        | next h => exact hk h
  | starving t k => exact .log _ _ _ fun w => tryPair_tries .starving
  | linking t k position =>
    refine .of_oneTurn ?_ ?_ fun t k h => nomatch h
    · cases wake with
      | answer a =>
        exact takeAnswer_sociable p t k position a (fun _ _ => inferInstance) (fun _ _ => inferInstance)
          (fun _ _ => inferInstance) fun _ _ => inferInstance
      | _ => exact .pure _
    · cases wake with
      | answer a => exact takeAnswer_oneTurn t k position a
      | _ => exact fun _ => .pure fun q => Nat.le_add_right _ _
  | correcting t k position pair c calls =>
    refine .of_oneTurn ?_ ?_ fun t k h => nomatch h
    · exact (finishCall_mild c).bind fun _ => correct_housing p t k position pair calls
    · exact .next (finishCall_mild c) fun _ => correct_oneTurn t k position pair calls
  | settling r =>
    exact .of_oneTurn (settle_rousing r) (.of_stirs (settle_rousing r)) fun t k h => nomatch h

end Pairing

end QuantumNode
