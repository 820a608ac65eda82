import QuantumNode.Proofs.Network.Course
import QuantumNode.Proofs.Node.Books
import QuantumNode.Proofs.Node.Service

/-! What is done at a node beside the dialogue with its host. Nothing is sent to a host, no application gets a
subroutine to be executed, and every application that runs keeps its memory. -/
namespace QuantumNode

open Node Work Working

variable {σ : Type} {n m : Nat}

/-- What an effect sends to a host. -/
def Effect.reply? (host : Fin n) : Effect n m → Option String
  | .send (.toHost i) text => if i = host then some text else none
  | _ => none

/-- The subroutines of an application that wait to be executed. -/
def Dispatcher.queue (d : Dispatcher) (app : Int) : List Subroutine :=
  (d.apps.get? app).elim [] RunningApp.pending

/-- Every application that runs is entered once, and has a memory. -/
structure Node.Housed (node : Node n m) : Prop where
  ascending : node.dispatcher.apps.Ascending
  memory : ∀ app, Dispatch.isRunning node app = true → node.hasApp app = true

/-- A node whose dispatcher has got no more to do. Ids of applications are not used again. -/
structure Node.NoBusier (x y : Node n m) : Prop where
  id : y.id = x.id
  nextApp : x.dispatcher.nextApp ≤ y.dispatcher.nextApp
  queue : ∀ app, y.dispatcher.queue app = [] ∨ y.dispatcher.queue app = x.dispatcher.queue app
  housed : x.Housed → y.Housed

namespace Node.NoBusier

variable {x y z : Node n m}

theorem trans (h : x.NoBusier y) (h' : y.NoBusier z) : x.NoBusier z where
  id := h'.id.trans h.id
  nextApp := Nat.le_trans h.nextApp h'.nextApp
  queue app := by
    rcases h'.queue app with hz | hz
    · exact .inl hz
    · rw [hz]
      exact h.queue app
  housed hx := h'.housed (h.housed hx)

theorem of_same (hid : y.id = x.id) (hd : y.dispatcher = x.dispatcher)
    (ha : ∀ app, x.hasApp app = true → y.hasApp app = true) : x.NoBusier y where
  id := hid
  nextApp := by rw [hd]
  queue _ := .inr (by rw [hd])
  housed h := ⟨hd ▸ h.ascending, fun app hrun => ha app (h.memory app (by rwa [Dispatch.isRunning, hd] at hrun))⟩

theorem of_slots (h : x.SameSlots y) : x.NoBusier y :=
  of_same h.id h.dispatcher fun app ha => by rwa [hasApp, h.apps]

end Node.NoBusier

namespace Working

/-- What has been sent to a host, in order. -/
def replies (w : Working σ n m) (host : Fin n) : List String := w.effects.toList.filterMap (Effect.reply? host)

theorem replies_push (w : Working σ n m) (host : Fin n) (e : Effect n m) :
    ({ w with effects := w.effects.push e } : Working σ n m).replies host = w.replies host ++ (e.reply? host).toList := by
  rw [replies, Array.toList_push, List.filterMap_append, List.filterMap_cons]
  cases e.reply? host with
  | none => rfl
  | some _ => rfl

/-- Work beside the dialogue of a node with its host. -/
structure Aside (w w' : Working (Node n m) n m) : Prop where
  replies : ∀ host, w'.replies host = w.replies host
  books : w.part.NoBusier w'.part

namespace Aside

variable {w : Working (Node n m) n m}

theorem of_part {x : Node n m} (h : w.part.NoBusier x) : Aside w { w with part := x } := ⟨fun _ => rfl, h⟩

theorem of_same {x : Node n m} (hid : x.id = w.part.id) (hd : x.dispatcher = w.part.dispatcher)
    (ha : x.apps = w.part.apps) : Aside w { w with part := x } :=
  of_part (.of_same hid hd fun app h => by rwa [hasApp, ha])

theorem of_push {e : Effect n m} (h : ∀ host, e.reply? host = none) :
    Aside w { w with effects := w.effects.push e } :=
  ⟨fun host => by rw [replies_push, h host, Option.toList_none, List.append_nil], .of_same rfl rfl fun _ h => h⟩

theorem of_memory (app : Int) (mem : AppMemory) :
    Aside w { w with part := { w.part with apps := w.part.apps.insert app mem } } :=
  of_part (.of_same rfl rfl fun other ho => by
    by_cases heq : other = app
    · simp [heq, hasApp, SortedMap.contains]
    · rwa [hasApp, SortedMap.contains, SortedMap.get?_insert_of_ne _ heq])

instance : Std.Refl (Aside : Working (Node n m) n m → Working (Node n m) n m → Prop) :=
  ⟨fun _ => of_same rfl rfl rfl⟩

instance : IsTrans (Working (Node n m) n m) Aside :=
  ⟨fun _ _ _ h h' => ⟨fun host => (h'.replies host).trans (h.replies host), h.books.trans h'.books⟩⟩

end Aside

end Working

/-! Who puts up with it. -/

theorem wakeAll_aside (ps : List ProcessId) : Within Aside (wakeAll ps : NodeWork n m Unit) :=
  .forM (fun _ _ => .of_push fun _ => rfl) ps

theorem submit_aside (r : EntanglementRequest) : Within Aside (submit r : NodeWork n m Unit) :=
  .of_part fun w => by
    dsimp only
    split
    · exact Within.setPart_bind (.of_same rfl rfl rfl) fun _ => .of_push fun _ => rfl
    · exact .of_same rfl rfl rfl

theorem notifyNews_aside : Within Aside (notifyNews : NodeWork n m Unit) :=
  .of_part fun _ => Within.setPart_bind (.of_same rfl rfl rfl) (wakeAll_aside _)

instance : Mild (Aside : Working (Node n m) n m → Working (Node n m) n m → Prop) where
  emit w e h := .of_push fun _ => by
    cases e with
    | send _ _ => exact nomatch h
    | _ => rfl
  part _ _ h := .of_same h.id h.dispatcher h.apps
  quantum _ _ := ⟨fun _ => rfl, .of_same rfl rfl fun _ h => h⟩
  service _ _ _ := .of_same rfl rfl rfl
  memory _ app _ mem' _ _ := .of_memory app mem'
  submit w r := submit_aside r w

instance : Pooling (Aside : Working (Node n m) n m → Working (Node n m) n m → Prop) where
  freed w :=
    have h : Within Aside (notifyMemoryFreed : NodeWork n m Unit) :=
      .of_part fun _ => Within.setPart_bind (.of_same rfl rfl rfl) (wakeAll_aside _)
    h w
  written w :=
    have h : Within Aside (notifyArrayWritten : NodeWork n m Unit) :=
      .of_part fun _ => Within.setPart_bind (.of_same rfl rfl rfl) (wakeAll_aside _)
    h w
  news := notifyNews_aside
  gone w app :=
    have h : Within Aside (Pairing.removeApp app : NodeWork n m Unit) :=
      Within.bind (fun _ => .of_same rfl rfl rfl) fun _ => notifyNews_aside
    h w
  pool _ _ _ := .of_same rfl rfl rfl

instance (app : Int) : Granting app (Aside : Working (Node n m) n m → Working (Node n m) n m → Prop) where
  memory _ _ mem' _ _ := .of_memory app mem'

instance : Affable (Aside : Working (Node n m) n m → Working (Node n m) n m → Prop) where
  tell _ _ _ _ := .of_push fun _ => rfl
  abort _ _ _ := .of_push fun _ => rfl
  hold _ _ _ _ _ _ _ _ := .of_same rfl rfl rfl

instance (app : Int) : Blaming app (Aside : Working (Node n m) n m → Working (Node n m) n m → Prop) where
  blame _ := .of_same rfl rfl rfl

section

variable (p : ProcessId)

instance : Drowsy p (Aside : Working (Node n m) n m → Working (Node n m) n m → Prop) where
  sleep _ _ := .of_push fun _ => rfl
  write _ := .of_same rfl rfl rfl
  text _ := .of_same rfl rfl rfl

instance : Standing p (Aside : Working (Node n m) n m → Working (Node n m) n m → Prop) where
  news _ := .of_same rfl rfl rfl
  request _ := .of_same rfl rfl rfl

instance : Starving p (Aside : Working (Node n m) n m → Working (Node n m) n m → Prop) where
  count _ := .of_same rfl rfl rfl
  slot _ := .of_same rfl rfl rfl

theorem Pairing.step_aside (stage : PairStage) (wake : Wake) :
    Within Aside (Pairing.step p stage wake : NodeWork n m (Pairing.Step m)) :=
  Pairing.step_within p stage wake (fun _ _ => inferInstance) fun _ _ => inferInstance

theorem Execution.step_aside (e : Execution) :
    Within Aside (Execution.step p e : NodeWork n m (Execution.Step m)) :=
  Execution.step_granting p e fun _ _ _ _ _ => inferInstance

end

/-! Registering and stopping applications. -/

namespace Dispatch

theorem queue_insert (d : Dispatcher) (app other : Int) (a : RunningApp) :
    ({ d with apps := d.apps.insert app a } : Dispatcher).queue other = if other = app then a.pending else d.queue other := by
  split
  · rename_i h
    simp [h, Dispatcher.queue]
  · rename_i h
    simp only [Dispatcher.queue, SortedMap.get?_insert_of_ne _ h]

/-- An application that has a memory runs. -/
theorem housed_insert {node : Node n m} (hh : node.Housed) {app : Int} (h : node.hasApp app = true) (a : RunningApp) :
    Node.Housed { node with dispatcher.apps := node.dispatcher.apps.insert app a } := by
  refine ⟨hh.ascending.insert _ _, fun other hrun => ?_⟩
  by_cases ho : other = app
  · exact ho ▸ h
  · rw [isRunning, SortedMap.contains, SortedMap.get?_insert_of_ne _ ho] at hrun
    exact hh.memory other hrun

/-- An application that has a memory runs, and waits for nothing. -/
theorem noBusier_insert {node : Node n m} {app : Int} (maxQubits : Nat) (h : node.hasApp app = true) :
    node.NoBusier { node with dispatcher.apps := node.dispatcher.apps.insert app ⟨maxQubits, []⟩ } where
  id := rfl
  nextApp := Nat.le_refl _
  queue other := by
    change Dispatcher.queue { node.dispatcher with apps := _ } other = [] ∨ _
    rw [queue_insert]
    split
    · exact .inl rfl
    · exact .inr rfl
  housed hh := housed_insert hh h _

/-- An application is stopped, and no other memory goes. -/
theorem noBusier_erase {x y : Node n m} (app : Int) (hid : y.id = x.id)
    (hd : y.dispatcher = { x.dispatcher with apps := x.dispatcher.apps.erase app })
    (ha : ∀ other, other ≠ app → x.hasApp other = true → y.hasApp other = true) : x.NoBusier y where
  id := hid
  nextApp := by rw [hd]
  queue other := by
    rw [hd]
    by_cases ho : other = app
    · exact .inl (by simp [ho, Dispatcher.queue])
    · exact .inr (by simp only [Dispatcher.queue, SortedMap.get?_erase_of_ne _ ho])
  housed hh := by
    refine ⟨hd ▸ hh.ascending.erase app, fun other hrun => ?_⟩
    rw [isRunning, hd] at hrun
    by_cases ho : other = app
    · simp [ho, SortedMap.contains] at hrun
    · rw [SortedMap.contains, SortedMap.get?_erase_of_ne _ ho] at hrun
      exact ha other ho (hh.memory other hrun)

/-- An application gets a memory and begins to run. -/
theorem enroll_aside {α : Type} (app : Int) (maxQubits : Nat) {x : NodeWork n m α} (hx : Within Aside x) :
    Within Aside (do
      addApp app
      modifyDispatcher fun d => { d with apps := d.apps.insert app ⟨maxQubits, []⟩ }
      x : NodeWork n m α) := fun w => by
  rw [exec_bind, exec_addApp]
  by_cases happ : w.part.hasApp app = true
  · rw [if_pos happ]
    exact Std.Refl.refl w
  · rw [if_neg happ]
    have hmemory : Aside w _ := .of_memory app (.new app w.part.pool.size)
    exact IsTrans.trans _ _ _ hmemory (Within.setPart_bind
      (Aside.of_part (noBusier_insert maxQubits (by simp [hasApp, SortedMap.contains]))) hx)

theorem initApp_aside (maxQubits : Nat) : Within Aside (initApp maxQubits : NodeWork n m Int) :=
  Within.part.bind fun _ => Within.bind
    (fun _ => .of_part ⟨rfl, Nat.le_succ _, fun _ => .inr rfl, fun h => ⟨h.ascending, h.memory⟩⟩) fun _ =>
      enroll_aside _ _ (Within.part.bind fun _ => announce_mild _ _ _)

theorem clearApp_aside (app : Int) : Within Aside (clearApp app false : NodeWork n m Unit) :=
  Within.part.bind fun _ => .ite
    (unmapAll_within app (fun _ _ _ => .of_memory app _) fun _ =>
      (Within.forM (fun _ => freeQubit_pooling _) _).bind fun _ => .pure _)
    (.pure _)

theorem forget_aside (app : Int) (w : Working (Node n m) n m) :
    ∃ w', (Pairing.removeApp app : NodeWork n m Unit).exec w = (.ok (), w') ∧ Aside w w' ∧ SameBooks w w' := by
  obtain ⟨w', he, -, -⟩ := exec_notifyNews { w with part.service := w.part.service.forget app }
  have hx : (Pairing.removeApp app : NodeWork n m Unit).exec w = (.ok (), w') := he
  exact ⟨w', hx, (Pairing.removeApp_rousing app).of_exec hx, (removeApp_sameBooks app).of_exec hx⟩

/-- A pair service forgets an application, whose memory may have gone, and the application runs no longer. -/
theorem dismiss_aside (app : Int) {w₀ w : Working (Node n m) n m} (hr : ∀ host, w.replies host = w₀.replies host)
    (hid : w.part.id = w₀.part.id) (hd : w.part.dispatcher = w₀.part.dispatcher)
    (ha : ∀ other, other ≠ app → w₀.part.hasApp other = true → w.part.hasApp other = true) :
    Aside w₀ ((do
      Pairing.removeApp app
      modifyDispatcher fun d => { d with apps := d.apps.erase app } : NodeWork n m Unit).exec w).2 := by
  obtain ⟨w', hx, haside, hbooks⟩ := forget_aside app w
  rw [exec_bind, hx]
  refine ⟨fun host => (haside.replies host).trans (hr host), noBusier_erase app (haside.books.id.trans hid) ?_ ?_⟩
  · rw [← hd, ← hbooks.dispatcher]
    rfl
  · intro other ho hother
    change w'.part.apps.contains other = true
    rw [hbooks.apps]
    exact ha other ho hother

theorem stopApp_aside (app : Int) : Within Aside (stopApp app : NodeWork n m Unit) := by
  have hkept : Within Aside (do
      Pairing.removeApp app
      modifyDispatcher fun d => { d with apps := d.apps.erase app } : NodeWork n m Unit) :=
    fun w => dismiss_aside app (fun _ => rfl) rfl rfl fun _ _ h => h
  have hgone : Within Aside (do
      removeApp app
      Pairing.removeApp app
      modifyDispatcher fun d => { d with apps := d.apps.erase app } : NodeWork n m Unit) := fun w =>
    dismiss_aside app (fun _ => rfl) rfl rfl fun other ho h => by
      change (w.part.apps.erase app).contains other = true
      rwa [SortedMap.contains, SortedMap.get?_erase_of_ne _ ho]
  refine (log_mild _ _ _).bind fun _ => Within.part.bind fun _ => .ite
    ((log_mild _ _ _).bind fun _ => ?_) ((log_mild _ _ _).bind fun _ => hkept)
  unfold clearApp
  rw [bind_assoc]
  refine Within.part.bind fun _ => ?_
  split
  · simp only [bind_assoc]
    exact unmapAll_within app (fun _ _ _ => .of_memory app _) fun _ =>
      (Within.forM (fun _ => freeQubit_pooling _) _).bind fun _ => hgone
  · exact hkept

theorem announce_yields (app : Int) (count maxQubits : Nat) : Yields (· = app) (do
    if count < maxQubits then
      Node.log .warning "Handler" s!"app {app} asks for {maxQubits} qubits, the node has {count}"
    Node.log .debug "Handler" s!"registered app with ID {app}"
    return app : NodeWork n m Int) :=
  .ite (.bind fun _ => .bind fun _ => .pure rfl) (.bind fun _ => .pure rfl)

/-- A registered application gets the next id. -/
theorem initApp_ends (maxQubits : Nat) {w : Working (Node n m) n m} : Ends (initApp maxQubits) w fun app w' =>
    app = w.part.dispatcher.nextApp ∧ w'.part.dispatcher.nextApp = w.part.dispatcher.nextApp + 1 := by
  refine .part <| .modifyPart <| .bind ?_
  intro _ w₁ hadd
  refine .modifyPart <| .part ?_
  intro app w' hx
  have hbooks : SameBooks _ w' := (announce_mild _ _ _).of_exec hx
  have happ : app = w.part.dispatcher.nextApp := announce_yields _ _ _ _ _ _ hx
  rw [exec_addApp] at hadd
  split at hadd
  · exact nomatch hadd
  · cases hadd
    exact ⟨happ, by rw [hbooks.dispatcher]⟩

end Dispatch

/-! Work from outside. -/

theorem NodeAct.work_aside (a : NodeAct) : Within Aside (a.work : NodeWork n m Unit) := by
  cases a with
  | register maxQubits => exact (Dispatch.initApp_aside maxQubits).bind fun _ => .pure _
  | declare app address values =>
    refine updateMemory_filling app fun _ _ h => ?_
    cases h
    exact ⟨rfl, rfl⟩
  | openSocket app socket remote => exact Pairing.openSocket_mild app socket remote
  | submit r => exact submit_aside r
  | abort app => exact Pairing.abort_sociable app
  | stop app => exact Dispatch.stopApp_aside app
  | clearOnStop clear => exact fun _ => .of_part ⟨rfl, Nat.le_refl _, fun _ => .inr rfl, fun h => ⟨h.ascending, h.memory⟩⟩

theorem SlotAct.work_aside (a : SlotAct) : Within Aside (a.work : NodeWork n m Unit) := by
  cases a with
  | allocate => exact allocate_pooling.bind fun _ => .pure _
  | allocateCommunication => exact allocateCommunication_pooling.bind fun _ => .pure _
  | free slot => exact freeQubit_pooling slot

end QuantumNode
