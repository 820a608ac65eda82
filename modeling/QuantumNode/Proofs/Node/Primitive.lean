import QuantumNode.Proofs.Memory.Pool
import QuantumNode.Proofs.Node.Frame

/-! What the small pieces of work of a node leave alone. -/
namespace QuantumNode.Node

open Work Working

variable {n m : Nat}

theorem modifyService_still {f : PairService n ProcessId → PairService n ProcessId}
    (hi : ∀ s, (f s).inbound = s.inbound) (hf : ∀ s, (f s).inFlight = s.inFlight) :
    Within Still (modifyService f : NodeWork n m Unit) :=
  fun w => ⟨⟨rfl, rfl, rfl, hi w.part.service, hf w.part.service⟩, .of_eq rfl rfl rfl⟩

theorem modifyService_thrifty (f : PairService n ProcessId → PairService n ProcessId) :
    Within Thrifty (modifyService f : NodeWork n m Unit) :=
  fun _ => .of_eq rfl rfl rfl

theorem notifyMemoryFreed_still : Within Still (notifyMemoryFreed : NodeWork n m Unit) :=
  .of_part fun _ => Within.setPart_bind ⟨⟨rfl, rfl, rfl, rfl, rfl⟩, .of_eq rfl rfl rfl⟩ (wakeAll_still _)

theorem notifyArrayWritten_still : Within Still (notifyArrayWritten : NodeWork n m Unit) :=
  .of_part fun _ => Within.setPart_bind ⟨⟨rfl, rfl, rfl, rfl, rfl⟩, .of_eq rfl rfl rfl⟩ (wakeAll_still _)

theorem notifyNews_still : Within Still (notifyNews : NodeWork n m Unit) :=
  .of_part fun _ => Within.setPart_bind ⟨⟨rfl, rfl, rfl, rfl, rfl⟩, .of_eq rfl rfl rfl⟩ (wakeAll_still _)

theorem submit_still (r : EntanglementRequest) : Within Still (submit r : NodeWork n m Unit) :=
  .of_part fun w => by
    dsimp only
    split
    · exact Within.setPart_bind ⟨⟨rfl, rfl, rfl, rfl, rfl⟩, .of_eq rfl rfl rfl⟩ (resume_still _ (.request r) nofun)
    · exact ⟨⟨rfl, rfl, rfl, rfl, rfl⟩, .of_eq rfl rfl rfl⟩

instance : Mild (Still : Working (Node n m) n m → Working (Node n m) n m → Prop) where
  emit _ e h := ⟨⟨loud_push_of_not (by cases e <;> first | rfl | exact nomatch h), rfl, rfl, rfl, rfl⟩, .of_eq rfl rfl rfl⟩
  part _ _ h :=
    ⟨⟨rfl, h.id, h.links, congrArg _ h.service, congrArg _ h.service⟩, .of_eq h.config h.pool h.apps⟩
  service _ _ h := ⟨⟨rfl, rfl, rfl, h.inbound, h.inFlight⟩, .of_eq rfl rfl rfl⟩
  memory w app mem mem' h hq := by
    refine ⟨⟨rfl, rfl, rfl, rfl, rfl⟩, rfl, rfl, fun app' => ?_, fun hasc => hasc.insert app mem'⟩
    by_cases happ : app' = app
    · subst happ
      simp [h, hq]
    · exact congrArg _ (SortedMap.get?_insert_of_ne _ happ _)
  quantum _ _ := ⟨⟨rfl, rfl, rfl, rfl, rfl⟩, .of_eq rfl rfl rfl⟩
  submit w r := submit_still r w

instance : Steering (Still : Working (Node n m) n m → Working (Node n m) n m → Prop) where
  dispatcher _ _ _ := ⟨⟨rfl, rfl, rfl, rfl, rfl⟩, .of_eq rfl rfl rfl⟩
  reply _ _ _ := ⟨⟨loud_push_of_not rfl, rfl, rfl, rfl, rfl⟩, .of_eq rfl rfl rfl⟩

instance (p : ProcessId) : Drowsy p (Still : Working (Node n m) n m → Working (Node n m) n m → Prop) where
  sleep _ _ := ⟨⟨loud_push_of_not rfl, rfl, rfl, rfl, rfl⟩, .of_eq rfl rfl rfl⟩
  write _ := ⟨⟨rfl, rfl, rfl, rfl, rfl⟩, .of_eq rfl rfl rfl⟩
  text _ := ⟨⟨rfl, rfl, rfl, rfl, rfl⟩, .of_eq rfl rfl rfl⟩

instance : Mild (Calm : Working (Node n m) n m → Working (Node n m) n m → Prop) where
  emit w e h := (Watching.emit (R := Still) w e h).toCalm
  part w x h := (Bland.part (R := Still) w x h).toCalm
  service w s h := (Docile.service (R := Still) w s h).toCalm
  memory w app mem mem' h hq := (Mild.memory (R := Still) w app mem mem' h hq).toCalm
  quantum w q := (Bland.quantum (R := Still) w q).toCalm
  submit w r := (submit_still r w).toCalm

instance : Steering (Calm : Working (Node n m) n m → Working (Node n m) n m → Prop) where
  dispatcher w d h := (Steering.dispatcher (R := Still) w d h).toCalm
  reply w host text := (Steering.reply (R := Still) w host text).toCalm

instance (p : ProcessId) : Drowsy p (Calm : Working (Node n m) n m → Working (Node n m) n m → Prop) where
  sleep w delay := (Drowsy.sleep (R := Still) w delay).toCalm
  write w := (Drowsy.write (p := p) (R := Still) w).toCalm
  text w := (Drowsy.text (p := p) (R := Still) w).toCalm

theorem removeApp_still (app : Int) : Within Still (Pairing.removeApp app : NodeWork n m Unit) :=
  (modifyService_still (f := (·.forget app)) (fun _ => rfl) fun _ => rfl).bind fun _ => notifyNews_still

instance : Rousing (Still : Working (Node n m) n m → Working (Node n m) n m → Prop) where
  freed := notifyMemoryFreed_still
  written := notifyArrayWritten_still
  news := notifyNews_still
  gone w app := removeApp_still app w

instance : Lavish (Calm : Working (Node n m) n m → Working (Node n m) n m → Prop) where
  pool _ _ _ := ⟨rfl, rfl, rfl, rfl, rfl⟩
  apps _ _ := ⟨rfl, rfl, rfl, rfl, rfl⟩
  freed w := (notifyMemoryFreed_still w).toCalm
  written w := (notifyArrayWritten_still w).toCalm
  news w := (notifyNews_still w).toCalm
  gone w app := (removeApp_still app w).toCalm

instance : Mild (Thrifty : Working (Node n m) n m → Working (Node n m) n m → Prop) where
  emit w e h := (Watching.emit (R := Still) w e h).toThrifty
  part w x h := (Bland.part (R := Still) w x h).toThrifty
  service w s h := (Docile.service (R := Still) w s h).toThrifty
  memory w app mem mem' h hq := (Mild.memory (R := Still) w app mem mem' h hq).toThrifty
  quantum w q := (Bland.quantum (R := Still) w q).toThrifty
  submit w r := (submit_still r w).toThrifty

instance : Steering (Thrifty : Working (Node n m) n m → Working (Node n m) n m → Prop) where
  dispatcher w d h := (Steering.dispatcher (R := Still) w d h).toThrifty
  reply w host text := (Steering.reply (R := Still) w host text).toThrifty

instance : Rousing (Thrifty : Working (Node n m) n m → Working (Node n m) n m → Prop) where
  freed w := (notifyMemoryFreed_still w).toThrifty
  written w := (notifyArrayWritten_still w).toThrifty
  news w := (notifyNews_still w).toThrifty
  gone w app := (removeApp_still app w).toThrifty

instance : Affable (Thrifty : Working (Node n m) n m → Working (Node n m) n m → Prop) where
  tell _ _ _ _ := .of_eq rfl rfl rfl
  abort _ _ _ := .of_eq rfl rfl rfl
  hold _ _ _ _ _ _ _ _ := .of_eq rfl rfl rfl

instance (app : Int) : Blaming app (Still : Working (Node n m) n m → Working (Node n m) n m → Prop) where
  blame _ := ⟨⟨rfl, rfl, rfl, rfl, rfl⟩, .of_eq rfl rfl rfl⟩

theorem record_config (d : Device) (c : DeviceCall) : (d.record c).config = d.config := by
  unfold Device.record
  split
  · rfl
  · rfl

section Watching

variable {R : Working (Node n m) n m → Working (Node n m) n m → Prop} [Watching R]

theorem emit_mild {e : Effect n m} (h : e.isMild = true) : Within R (emit e : NodeWork n m Unit) :=
  fun w => Watching.emit w e h

theorem log_mild (level : LogLevel) (kind text : String) : Within R (log level kind text : NodeWork n m Unit) :=
  Within.part.bind fun _ => emit_mild rfl

theorem memory_mild (app : Int) : Within R (memory app : NodeWork n m AppMemory) :=
  Within.part.bind fun _ => by
    split
    · exact .pure _
    · exact .fail _

end Watching

section Bland

variable {R : Working (Node n m) n m → Working (Node n m) n m → Prop} [Bland R]

theorem modifyPart_mild {f : Node n m → Node n m} (hf : ∀ x : Node n m, x.Alike (f x)) :
    Within R (modifyPart f : NodeWork n m Unit) :=
  fun w => Bland.part w (f w.part) (hf w.part)

theorem startCall_mild (p : ProcessId) [Drowsy p R] (c : DeviceCall) :
    Within R (startCall p c : NodeWork n m Unit) :=
  Within.part.bind fun _ => Within.bind (.ofExcept _) fun delay w => Drowsy.sleep w delay

theorem startGate_mild (p : ProcessId) [Drowsy p R] (c : DeviceCall) :
    Within R (startGate p c : NodeWork n m Unit) :=
  Within.part.bind fun _ => Within.bind (.ofExcept _) fun delay w => Drowsy.sleep w delay

theorem finishCall_mild (c : DeviceCall) : Within R (finishCall c : NodeWork n m (Option Nat)) :=
  .of_part fun w => by
    let w₁ : Working (Node n m) n m := { w with quantum := (w.part.device.effect c w.quantum).2 }
    let w₂ : Working (Node n m) n m := { w₁ with part := { w.part with device := w.part.device.record c } }
    have h₁ : R w w₁ := Bland.quantum w _
    have h₂ : R w₁ w₂ := Bland.part w₁ _ ⟨rfl, rfl, rfl, record_config _ _, rfl, rfl, rfl, rfl, rfl, rfl⟩
    exact IsTrans.trans w w₂ _ (IsTrans.trans w w₁ w₂ h₁ h₂) (((log_mild .debug "QDevice" _).bind fun _ => .pure _) w₂)

theorem linkCall_mild (role : PairRole) (remote : Int) (request : PairRequest) (position : Nat) :
    Within R (linkCall role remote request position : NodeWork n m (Fin m × LinkEnd × LinkCall)) :=
  .of_part fun w => by
    have hports : ∀ ports : LinkPorts m, ports.links = w.part.ports.links →
        R w { w with part := { w.part with ports := ports } } :=
      fun ports h => Bland.part w _ ⟨rfl, h, rfl, rfl, rfl, rfl, rfl, rfl, rfl, rfl⟩
    rcases w.part.ports.links.get? remote with _ | ⟨l, e⟩
    · exact Within.fail _ w
    · cases role with
      | create =>
        have hc := Within.bind (R := R) (n := n) (m := m) (.ofExcept (w.part.device.globalIndex position))
          fun q => .pure (l, e, LinkCall.create request q)
        exact Within.setPart_bind (hports _ rfl) (.ite ((emit_mild rfl).bind fun _ => hc) hc)
      | receive =>
        refine Within.setPart_bind (hports _ rfl) ?_
        exact Within.bind (.ofExcept _) fun _ => .pure _

end Bland

section Placid

variable {R : Working (Node n m) n m → Working (Node n m) n m → Prop} [Placid R]

theorem modifyService_mild {f : PairService n ProcessId → PairService n ProcessId}
    (hf : ∀ s : PairService n ProcessId, s.Alike (f s)) (hp : ∀ s, (f s).pending = s.pending) :
    Within R (modifyService f : NodeWork n m Unit) :=
  fun w => Placid.flags w (f w.part.service) (hf w.part.service) (hp w.part.service)

theorem submit_mild (r : EntanglementRequest) : Within R (submit r : NodeWork n m Unit) := fun w => Placid.submit w r

theorem exec_memory (app : Int) (w : Working (Node n m) n m) :
    (memory app : NodeWork n m AppMemory).exec w =
      match w.part.apps.get? app with
      | none => (.error (.applicationMissing app w.part.name), w)
      | some mem => (.ok mem, w) := by
  simp only [memory, exec_bind, exec_part]
  rcases w.part.apps.get? app with _ | mem
  · rfl
  · rfl

theorem exec_updateMemory (app : Int) (f : AppMemory → Except Fault AppMemory) (w : Working (Node n m) n m) :
    (updateMemory app f : NodeWork n m Unit).exec w =
      match w.part.apps.get? app with
      | none => (.error (.applicationMissing app w.part.name), w)
      | some mem =>
        match f mem with
        | .error e => (.error e, w)
        | .ok mem' => (.ok (), { w with part := { w.part with apps := w.part.apps.insert app mem' } }) := by
  simp only [updateMemory, exec_bind, exec_memory]
  rcases w.part.apps.get? app with _ | mem
  · rfl
  · simp only [exec_ofExcept]
    rcases f mem with _ | mem'
    · rfl
    · rfl

theorem exec_addApp (app : Int) (w : Working (Node n m) n m) :
    (addApp app : NodeWork n m Unit).exec w =
      if w.part.hasApp app then (.error (.applicationExists app w.part.name), w)
      else (.ok (), { w with part := { w.part with apps := w.part.apps.insert app (.new app w.part.pool.size) } }) := by
  simp only [addApp, exec_bind, exec_part]
  split
  · rfl
  · rfl

/-- A change of a memory's contents. -/
theorem updateMemory_filling (app : Int) [Filling app R] {f : AppMemory → Except Fault AppMemory}
    (hf : ∀ mem mem', f mem = .ok mem' → mem.Alike mem') :
    Within R (updateMemory app f : NodeWork n m Unit) := fun w => by
  rw [exec_updateMemory]
  split
  · exact Std.Refl.refl w
  · rename_i mem happ
    split
    · exact Std.Refl.refl w
    · rename_i mem' hmem
      exact Filling.contents w mem mem' happ (hf mem mem' hmem)

end Placid

/-- A program counter moves. -/
theorem updateMemory_counting {R : Working (Node n m) n m → Working (Node n m) n m → Prop} [Std.Refl R] (app : Int)
    [Counting app R] (f : AppMemory → Nat) :
    Within R (updateMemory app fun mem => .ok { mem with pc := f mem } : NodeWork n m Unit) := fun w => by
  rw [exec_updateMemory]
  split
  · exact Std.Refl.refl w
  · rename_i mem happ
    exact Counting.count w mem _ happ

/-- A change of a memory that maps the same qubits afterwards. -/
theorem updateMemory_mild {R : Working (Node n m) n m → Working (Node n m) n m → Prop} [Mild R] (app : Int)
    {f : AppMemory → Except Fault AppMemory} (hf : ∀ mem mem', f mem = .ok mem' → mem'.qubits = mem.qubits) :
    Within R (updateMemory app f : NodeWork n m Unit) := fun w => by
  rw [exec_updateMemory]
  split
  · exact Std.Refl.refl w
  · rename_i mem happ
    split
    · exact Std.Refl.refl w
    · rename_i mem' hmem
      exact Mild.memory w app mem mem' happ (hf mem mem' hmem)

section Memories

variable {R : Working (Node n m) n m → Working (Node n m) n m → Prop}

theorem notifyMemoryFreed_rousing [Rousing R] : Within R (notifyMemoryFreed : NodeWork n m Unit) := Rousing.freed

theorem notifyArrayWritten_rousing [Rousing R] : Within R (notifyArrayWritten : NodeWork n m Unit) := Rousing.written

theorem notifyNews_rousing [Rousing R] : Within R (notifyNews : NodeWork n m Unit) := Rousing.news

theorem removeApp_wiping (app : Int) [Wiping app R] : Within R (removeApp app : NodeWork n m Unit) :=
  Wiping.erased

/-- A memory gives up its qubits, and work goes on with what it was. -/
theorem unmapAll_within {α : Type} [Std.Refl R] [IsTrans _ R] (app : Int) {f : AppMemory → NodeWork n m α}
    (h : ∀ (w : Working (Node n m) n m) mem, w.part.apps.get? app = some mem →
      R w { w with part := { w.part with apps := w.part.apps.insert app mem.unmapAll } })
    (hf : ∀ mem, Within R (f mem)) : Within R (do
      let mem ← memory app
      setMemory app mem.unmapAll
      f mem) := fun w => by
  rw [exec_bind, exec_memory]
  rcases hmem : w.part.apps.get? app with _ | mem
  · exact Std.Refl.refl w
  · exact Within.setPart_bind (f := fun _ => f mem) (h w mem hmem) (hf mem)

variable [Bland R]

theorem addApp_clearing [Clearing R] (app : Int) : Within R (addApp app : NodeWork n m Unit) := fun w => by
  rw [exec_addApp]
  split
  · exact Std.Refl.refl w
  · rename_i happ
    exact Clearing.fresh w app (by simpa [hasApp, SortedMap.contains] using happ)

variable {app : Int} [Housing app R]

theorem updateMemory_housing {f : AppMemory → Except Fault AppMemory} (hf : ∀ mem mem', f mem = .ok mem' → mem.Remaps mem') :
    Within R (updateMemory app f : NodeWork n m Unit) := fun w => by
  rw [exec_updateMemory]
  split
  · exact Std.Refl.refl w
  · rename_i mem happ
    split
    · exact Std.Refl.refl w
    · rename_i mem' hmem
      exact Housing.house w mem mem' happ (hf mem mem' hmem)

theorem mapQubit_housing (virt : Int) (phys : Nat) : Within R (mapQubit app virt phys : NodeWork n m Unit) :=
  Within.part.bind fun _ => by
    split
    · exact .ite ((log_mild _ _ _).bind fun _ => .fail _) (updateMemory_housing fun _ _ => AppMemory.mapQubit_remaps)
    · exact updateMemory_housing fun _ _ => AppMemory.mapQubit_remaps

end Memories

section Pooling

variable {R : Working (Node n m) n m → Working (Node n m) n m → Prop} [Bland R] [Pooling R]

theorem allocate_pooling : Within R (allocate : NodeWork n m Nat) := .of_part fun w => by
  rcases h : w.part.pool.allocate with _ | ⟨id, pool⟩
  · exact Std.Refl.refl w
  · exact Pooling.pool w pool (QubitPool.takes_of_allocate h).communication

theorem allocateCommunication_pooling : Within R (allocateCommunication : NodeWork n m Nat) := .of_part fun w => by
  rcases h : w.part.pool.allocateCommunication with _ | ⟨id, pool⟩
  · exact Std.Refl.refl w
  · exact Pooling.pool w pool (QubitPool.takes_of_allocateCommunication h).1.communication

theorem releaseSlot_pooling (phys : Nat) : Within R (releaseSlot phys : NodeWork n m Unit) := .of_part fun w => by
  rcases h : w.part.pool.free phys with _ | pool
  · exact Std.Refl.refl w
  · exact Pooling.pool w pool (QubitPool.returns_of_free h).communication

theorem freeQubit_pooling (phys : Nat) : Within R (freeQubit phys : NodeWork n m Unit) :=
  (releaseSlot_pooling phys).bind fun _ => (log_mild _ _ _).bind fun _ => notifyMemoryFreed_rousing

end Pooling

end QuantumNode.Node
