import Mathlib.Data.Multiset.AddSub
import QuantumNode.Proofs.Node.Pairing
import QuantumNode.Proofs.Work.Run

/-! Who waits at a node. A process waits in a line, of a signal or of a channel, and is resumed when it leaves it; the
work of a node lets nobody but the process at work begin to wait. Whoever waited for a request is handed it. -/
namespace QuantumNode

open Node Work

variable {n m : Nat}

/-- How often a process stands in the lines of a node. -/
def Node.lines (node : Node n m) (q : ProcessId) : Nat :=
  node.memoryFreed.waiters.count q + node.arrayWritten.waiters.count q + node.inbox.waiters.count q
    + node.service.news.waiters.count q + node.service.requests.waiters.count q

/-- The request that an effect hands to a process. -/
def Effect.requestTo? (q : ProcessId) : Effect n m → Option EntanglementRequest
  | .resume _ p (.request r) => if p = q then some r else none
  | _ => none

namespace Working

/-- The requests that have been handed to a process. -/
def handed {σ : Type} (w : Working σ n m) (q : ProcessId) : Multiset EntanglementRequest :=
  w.effects.toList.filterMap (·.requestTo? q)

theorem handed_push {σ : Type} (w : Working σ n m) (e : Effect n m) (q : ProcessId) :
    ({ w with effects := w.effects.push e } : Working σ n m).handed q = w.handed q + (e.requestTo? q).toList := by
  simp only [handed, Array.toList_push, List.filterMap_append, ← Multiset.coe_add]
  cases h : e.requestTo? q with
  | none => simp [h]
  | some r => simp [h]

theorem handed_push_of_none {σ : Type} (w : Working σ n m) {e : Effect n m} {q : ProcessId} (h : e.requestTo? q = none) :
    ({ w with effects := w.effects.push e } : Working σ n m).handed q = w.handed q := by
  simp [handed_push, h]

/-- How often a process has been resumed, or stands in a line. -/
def turns (w : Working (Node n m) n m) (q : ProcessId) : Nat := w.resumed q + w.part.lines q

/-- A signal is left alone, or it is notified and whoever waited for it is resumed. -/
def Hears (signal : Node n m → Signal ProcessId) (w w' : Working (Node n m) n m) : Prop :=
  signal w'.part = signal w.part ∨
    (signal w.part).notified < (signal w'.part).notified ∧ (signal w'.part).waiters = [] ∧
      ∀ q, w.resumed q + (signal w.part).waiters.count q ≤ w'.resumed q

theorem Hears.trans {signal : Node n m → Signal ProcessId} {w w₁ w' : Working (Node n m) n m}
    (h : Hears signal w w₁) (h' : Hears signal w₁ w') (hl : ∀ q, w.resumed q ≤ w₁.resumed q)
    (hl' : ∀ q, w₁.resumed q ≤ w'.resumed q) : Hears signal w w' := by
  rcases h with h | ⟨hlt, hnil, hres⟩
  · rcases h' with h' | ⟨hlt', hnil', hres'⟩
    · exact .inl (h'.trans h)
    · rw [h] at hlt' hres'
      refine .inr ⟨hlt', hnil', fun q => ?_⟩
      have := hl q
      have := hres' q
      omega
  · rcases h' with h' | ⟨hlt', hnil', hres'⟩
    · rw [← h'] at hlt hnil
      exact .inr ⟨hlt, hnil, fun q => Nat.le_trans (hres q) (hl' q)⟩
    · exact .inr ⟨Nat.lt_trans hlt hlt', hnil', fun q => Nat.le_trans (hres q) (hl' q)⟩

/-- Nobody begins to wait but the process that is named, if one is. Resumptions are not taken back, and no slot begins
to communicate. -/
structure Stirs (x : Option ProcessId) (w w' : Working (Node n m) n m) : Prop where
  later : ∀ q, w.resumed q ≤ w'.resumed q
  turns : ∀ q, x ≠ some q → w'.turns q ≤ w.turns q
  freed : Hears (·.memoryFreed) w w'
  allocationWaits : w'.part.service.allocationWaits = w.part.service.allocationWaits
  communication : ∀ p, w'.part.pool.isCommunication p = w.part.pool.isCommunication p
  config : w'.part.device.config = w.part.device.config

namespace Stirs

variable {x : Option ProcessId} {w w₁ w' : Working (Node n m) n m}

theorem trans (h : Stirs x w w₁) (h' : Stirs x w₁ w') : Stirs x w w' where
  later q := Nat.le_trans (h.later q) (h'.later q)
  turns q hq := Nat.le_trans (h'.turns q hq) (h.turns q hq)
  freed := h.freed.trans h'.freed h.later h'.later
  allocationWaits := h'.allocationWaits.trans h.allocationWaits
  communication p := (h'.communication p).trans (h.communication p)
  config := h'.config.trans h.config

theorem weaken (h : Stirs none w w') : Stirs x w w' :=
  ⟨h.later, fun q _ => h.turns q nofun, h.freed, h.allocationWaits, h.communication, h.config⟩

/-- What leaves the lines alone and resumes nobody. -/
theorem of_lines (hres : ∀ q, w'.resumed q = w.resumed q) (hlines : ∀ q, w'.part.lines q = w.part.lines q)
    (hf : w'.part.memoryFreed = w.part.memoryFreed)
    (ha : w'.part.service.allocationWaits = w.part.service.allocationWaits)
    (hc : ∀ p, w'.part.pool.isCommunication p = w.part.pool.isCommunication p)
    (hd : w'.part.device.config = w.part.device.config) : Stirs x w w' where
  later q := Nat.le_of_eq (hres q).symm
  turns q _ := by simp [Working.turns, hres q, hlines q]
  freed := .inl hf
  allocationWaits := ha
  communication := hc
  config := hd

instance : Std.Refl (Stirs x : Working (Node n m) n m → Working (Node n m) n m → Prop) :=
  ⟨fun _ => of_lines (fun _ => rfl) (fun _ => rfl) rfl rfl (fun _ => rfl) rfl⟩

instance : IsTrans (Working (Node n m) n m) (Stirs x) := ⟨fun _ _ _ h h' => h.trans h'⟩

/-- Processes that leave a line together are resumed. -/
theorem of_woken (ps : List ProcessId) (hres : ∀ q, w'.resumed q = w.resumed q + ps.count q)
    (hlines : ∀ q, w'.part.lines q + ps.count q = w.part.lines q) (hf : Hears (·.memoryFreed) w w')
    (ha : w'.part.service.allocationWaits = w.part.service.allocationWaits) (hp : w'.part.pool = w.part.pool)
    (hd : w'.part.device = w.part.device) : Stirs x w w' where
  later q := by
    rw [hres q]
    omega
  turns q _ := by
    have := hlines q
    rw [Working.turns, Working.turns, hres q]
    omega
  freed := hf
  allocationWaits := ha
  communication p := by rw [hp]
  config := by rw [hd]

end Stirs

end Working

open Working

namespace Node

variable {x : Option ProcessId}

theorem exec_notifyMemoryFreed (w : Working (Node n m) n m) : ∃ w', notifyMemoryFreed.exec w = (.ok (), w') ∧
    w'.part = { w.part with memoryFreed := ⟨[], w.part.memoryFreed.notified + 1⟩ } ∧
      ∀ q, w'.resumed q = w.resumed q + w.part.memoryFreed.waiters.count q :=
  exec_wakeAll w.part.memoryFreed.waiters
    { w with part := { w.part with memoryFreed := ⟨[], w.part.memoryFreed.notified + 1⟩ } }

theorem exec_notifyArrayWritten (w : Working (Node n m) n m) : ∃ w', notifyArrayWritten.exec w = (.ok (), w') ∧
    w'.part = { w.part with arrayWritten := ⟨[], w.part.arrayWritten.notified + 1⟩ } ∧
      ∀ q, w'.resumed q = w.resumed q + w.part.arrayWritten.waiters.count q :=
  exec_wakeAll w.part.arrayWritten.waiters
    { w with part := { w.part with arrayWritten := ⟨[], w.part.arrayWritten.notified + 1⟩ } }

theorem exec_notifyNews (w : Working (Node n m) n m) : ∃ w', notifyNews.exec w = (.ok (), w') ∧
    w'.part = { w.part with service := { w.part.service with news := ⟨[], w.part.service.news.notified + 1⟩ } } ∧
      ∀ q, w'.resumed q = w.resumed q + w.part.service.news.waiters.count q :=
  exec_wakeAll w.part.service.news.waiters
    { w with part := { w.part with service := { w.part.service with news := ⟨[], w.part.service.news.notified + 1⟩ } } }

theorem notifyMemoryFreed_stirs (w : Working (Node n m) n m) : Stirs x w (notifyMemoryFreed.exec w).2 := by
  obtain ⟨w', he, hpart, hres⟩ := exec_notifyMemoryFreed w
  rw [he]
  refine .of_woken _ hres (fun q => ?_) (.inr ⟨?_, ?_, fun q => Nat.le_of_eq (hres q).symm⟩) ?_ ?_ ?_
  · simp only [hpart, lines, List.count_nil]
    omega
  all_goals simp [hpart]

theorem notifyArrayWritten_stirs (w : Working (Node n m) n m) : Stirs x w (notifyArrayWritten.exec w).2 := by
  obtain ⟨w', he, hpart, hres⟩ := exec_notifyArrayWritten w
  rw [he]
  refine .of_woken _ hres (fun q => ?_) (.inl ?_) ?_ ?_ ?_
  · simp only [hpart, lines, List.count_nil]
    omega
  all_goals simp [hpart]

theorem notifyNews_stirs (w : Working (Node n m) n m) : Stirs x w (notifyNews.exec w).2 := by
  obtain ⟨w', he, hpart, hres⟩ := exec_notifyNews w
  rw [he]
  refine .of_woken _ hres (fun q => ?_) (.inl ?_) ?_ ?_ ?_
  · simp only [hpart, lines, List.count_nil]
    omega
  all_goals simp [hpart]

/-- A request that is submitted resumes the pair service if that waits for one. -/
theorem submit_stirs (w : Working (Node n m) n m) (r : EntanglementRequest) : Stirs x w ((submit r).exec w).2 := by
  simp only [submit, exec_bind, exec_part, PairService.addPending, Channel.countSent, Channel.arrive]
  cases hr : w.part.service.requests.waiters with
  | nil => exact .of_lines (fun _ => rfl) (fun q => by simp [lines, hr]) rfl rfl (fun _ => rfl) rfl
  | cons p ps =>
    simp only [exec_bind, exec_setPart, Work.resume, exec_emit]
    refine .of_woken [p] (fun q => ?_) (fun q => ?_) (.inl rfl) rfl rfl rfl
    · change (w.effects.push (.resume 0 p (.request r)) |>.toList.filterMap Effect.resumed?).count q = _
      simp [Effect.resumed?, resumed]
    · simp only [lines, hr, List.count_cons, List.count_nil]
      omega

instance : Mild (Stirs x : Working (Node n m) n m → Working (Node n m) n m → Prop) where
  emit w e h := by
    have hnone : e.resumed? = none := by cases e <;> first | rfl | exact nomatch h
    exact .of_lines (w.resumed_push_of_none hnone) (fun _ => rfl) rfl rfl (fun _ => rfl) rfl
  part w y h := by
    refine .of_lines (fun _ => rfl) (fun q => ?_) h.memoryFreed ?_ (fun p => ?_) h.config
    · simp only [lines, h.memoryFreed, h.arrayWritten, h.inbox, h.service]
    · simp only [h.service]
    · simp only [h.pool]
  service w s h := by
    refine .of_lines (fun _ => rfl) (fun q => ?_) rfl h.allocationWaits (fun _ => rfl) rfl
    simp only [lines, h.news, h.requests]
  memory _ _ _ _ _ _ := .of_lines (fun _ => rfl) (fun _ => rfl) rfl rfl (fun _ => rfl) rfl
  quantum _ _ := .of_lines (fun _ => rfl) (fun _ => rfl) rfl rfl (fun _ => rfl) rfl
  submit := submit_stirs

instance : Steering (Stirs x : Working (Node n m) n m → Working (Node n m) n m → Prop) where
  dispatcher _ _ _ := .of_lines (fun _ => rfl) (fun _ => rfl) rfl rfl (fun _ => rfl) rfl
  reply w _ _ := .of_lines (w.resumed_push_of_none rfl) (fun _ => rfl) rfl rfl (fun _ => rfl) rfl

instance : Lavish (Stirs x : Working (Node n m) n m → Working (Node n m) n m → Prop) where
  freed := notifyMemoryFreed_stirs
  written := notifyArrayWritten_stirs
  news := notifyNews_stirs
  gone w app :=
    have hforget : Within (Stirs x) (modifyService (·.forget app) : NodeWork n m Unit) := fun _ =>
      .of_lines (fun _ => rfl) (fun _ => rfl) rfl rfl (fun _ => rfl) rfl
    hforget.bind (fun _ => notifyNews_stirs) w
  apps _ _ := .of_lines (fun _ => rfl) (fun _ => rfl) rfl rfl (fun _ => rfl) rfl
  pool _ _ h := .of_lines (fun _ => rfl) (fun _ => rfl) rfl rfl h rfl

instance : Affable (Stirs x : Working (Node n m) n m → Working (Node n m) n m → Prop) where
  tell w _ _ _ := .of_lines (w.resumed_push_of_none rfl) (fun _ => rfl) rfl rfl (fun _ => rfl) rfl
  abort w _ _ := .of_lines (w.resumed_push_of_none rfl) (fun _ => rfl) rfl rfl (fun _ => rfl) rfl
  hold w s hr hn ha _ _ _ := by
    refine .of_lines (fun _ => rfl) (fun q => ?_) rfl ha (fun _ => rfl) rfl
    simp only [lines, hr, hn]

instance (app : Int) : Blaming app (Stirs x : Working (Node n m) n m → Working (Node n m) n m → Prop) where
  blame _ := .of_lines (fun _ => rfl) (fun _ => rfl) rfl rfl (fun _ => rfl) rfl

/-- A process at work may begin to wait. -/
instance (p : ProcessId) : Drowsy p (Stirs (some p) : Working (Node n m) n m → Working (Node n m) n m → Prop) where
  sleep w delay := by
    refine ⟨fun q => ?_, fun q hq => ?_, .inl rfl, rfl, fun _ => rfl, rfl⟩
    · rw [resumed_push]
      omega
    · rw [turns, resumed_push, if_neg (by simpa [Effect.resumed?] using hq)]
      exact Nat.le_refl _
  write w := by
    refine ⟨fun q => Nat.le_refl _, fun q hq => ?_, .inl rfl, rfl, fun _ => rfl, rfl⟩
    have hpq : p ≠ q := fun h => hq (congrArg some h)
    simp [turns, resumed, lines, Signal.wait, hpq]
  text w := by
    refine ⟨fun q => Nat.le_refl _, fun q hq => ?_, .inl rfl, rfl, fun _ => rfl, rfl⟩
    have hpq : p ≠ q := fun h => hq (congrArg some h)
    unfold Channel.receive
    split
    · exact Nat.le_refl _
    · simp [turns, resumed, lines, hpq]

end Node

end QuantumNode
