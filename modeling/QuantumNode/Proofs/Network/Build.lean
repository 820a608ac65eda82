import QuantumNode.Proofs.Network.Process
import QuantumNode.Proofs.Ownership.Execution

/-! What a network is like when it has just been built. -/
namespace QuantumNode.Network

variable {n m : Nat}

/-- Nothing has happened in the network yet. -/
structure Built (s : Network n m) : Prop where
  agenda : s.agenda = .start
  processes : s.processes = .empty
  fresh : s.fresh = 0
  current : s.current = none
  started : s.started = false
  id : ∀ i, (s.node i).id = i
  apps : ∀ i, (s.node i).apps = .empty
  dispatcher : ∀ i, (s.node i).dispatcher = .new
  unallocated : ∀ i p, (s.node i).pool.isAllocated p = false
  electron : ∀ i, (s.node i).Electron
  service : ∀ i, ∃ latencies, (s.node i).service = .new latencies
  ports : ∀ i, (s.node i).ports = portsOf s.links i.val
  links : ∀ l, ∃ config a b, s.wired l = .new (.new config a b) ∧ a ≠ b ∧ a < n ∧ b < n
  signals : ∀ i, (s.node i).memoryFreed = .new ∧ (s.node i).arrayWritten = .new
  inbox : ∀ i, ∃ latency, (s.node i).inbox = .new latency
  host : ∀ i, (∃ latency, (s.host i).fromNode = .new latency) ∧
    ∃ latencies : Vector Nat n, (s.host i).fromPeers = latencies.map .new

theorem register_run (s : StackConfig) (c : SimulationContext) : (register s).run c = (do
    let p ← c.register s.name
    let q ← p.2.reserve s.device.numQubits
    let pool ← poolOf s.device
    pure ((q.1, pool), q.2)) := by
  have hrun {α : Type} (x : Except Fault α) (c : SimulationContext) :
      (liftM x : StateT SimulationContext (Except Fault) α).run c = (fun a => (a, c)) <$> x := rfl
  simp only [register, StateT.run_bind, StateT.run_get, StateT.run_set, StateT.run_pure, hrun, map_eq_pure_bind,
    bind_assoc, pure_bind]

private theorem register_ok {config : StackConfig} {c c' : SimulationContext} {place : Nat × QubitPool}
    (h : (register config).run c = .ok (place, c')) :
    poolOf config.device = .ok place.2 ∧ c'.names.length = c.names.length + 1 := by
  rw [register_run] at h
  obtain ⟨⟨id, c₁⟩, h₁, h⟩ := bind_ok h
  obtain ⟨⟨base, c₂⟩, h₂, h⟩ := bind_ok h
  obtain ⟨pool, h₃, h⟩ := bind_ok h
  cases h
  refine ⟨h₃, ?_⟩
  unfold SimulationContext.register at h₁
  split at h₁
  · exact nomatch h₁
  · cases h₁
    simp only [SimulationContext.reserve] at h₂
    split at h₂
    · exact nomatch h₂
    · cases h₂
      exact List.length_append

private theorem mapM_register {l : List StackConfig} {c c' : SimulationContext} {places : List (Nat × QubitPool)}
    (h : (l.mapM register).run c = .ok (places, c')) :
    l.map (fun config => poolOf config.device) = places.map (fun place => .ok place.2) ∧
      c'.names.length = c.names.length + l.length := by
  induction l generalizing c places with
  | nil =>
    cases h
    exact ⟨rfl, rfl⟩
  | cons config l ih =>
    rw [List.mapM_cons] at h
    obtain ⟨⟨place, c₁⟩, h₁, h⟩ := bind_ok h
    obtain ⟨⟨rest, c₂⟩, h₂, h⟩ := bind_ok h
    cases h
    obtain ⟨hp, hn⟩ := register_ok h₁
    obtain ⟨hps, hns⟩ := ih h₂
    refine ⟨?_, ?_⟩
    · rw [List.map_cons, List.map_cons, hp, hps]
    · rw [hns, hn, List.length_cons]
      omega

private theorem poolOf_ok {d : DeviceConfig} {pool : QubitPool} (h : poolOf d = .ok pool) :
    (∀ p, pool.isAllocated p = false) ∧ (d.isNV = true → ∀ p, pool.isCommunication p = true → p = 0) := by
  cases d with
  | generic g =>
    cases h
    exact ⟨fun _ => QubitPool.build_isAllocated _ _, nofun⟩
  | nv v =>
    change QubitPool.custom _ _ = _ at h
    unfold QubitPool.custom at h
    split at h
    · exact nomatch h
    · cases h
      refine ⟨fun _ => QubitPool.build_isAllocated _ _, fun _ p hp => ?_⟩
      simpa using QubitPool.build_isCommunication hp

private theorem lt_of_nodeId {c : SimulationContext} {name : String} {a : Nat} (h : c.nodeId name = some a) :
    a < c.names.length := by
  unfold SimulationContext.nodeId List.idxOf? at h
  exact (List.findIdx?_eq_some_iff_getElem.1 h).1

theorem wire_ok {c : SimulationContext} {config : LinkConfig} {w : WiredLink} (h : wire c config = .ok w) :
    ∃ a b, w = .new (.new config a b) ∧ a ≠ b ∧ c.nodeId config.stack1 = some a ∧
      c.nodeId config.stack2 = some b := by
  unfold wire at h
  split at h
  · rename_i a ha
    split at h
    · rename_i b hb
      split at h
      · exact nomatch h
      · rename_i hab
        cases h
        exact ⟨a, b, rfl, hab, ha, hb⟩
    · exact nomatch h
  · exact nomatch h

theorem vector_toList_get {α : Type} {k : Nat} (v : Vector α k) (i : Fin k) :
    v.toList[i.val]? = some (v.get i) := by
  rw [Vector.getElem?_toList, Vector.getElem?_eq_getElem i.isLt]
  rfl

theorem vector_toList_mapM {μ : Type → Type} [Monad μ] [LawfulMonad μ] {α β : Type} {k : Nat} (v : Vector α k)
    (f : α → μ β) : v.toList.mapM f = Vector.toList <$> v.mapM f := by
  change v.toArray.toList.mapM f = _
  rw [← Array.toList_mapM, ← Vector.toArray_mapM, Functor.map_map]
  rfl

private theorem configs_places {k : Nat} {configs : Vector StackConfig k} {c c' : SimulationContext}
    {places : Vector (Nat × QubitPool) k} (h : (configs.mapM register).run c = .ok (places, c')) :
    (∀ i, poolOf (configs.get i).device = .ok (places.get i).2) ∧ c'.names.length = c.names.length + k := by
  have hl : (configs.toList.mapM register).run c = .ok (places.toList, c') := by
    rw [vector_toList_mapM, StateT.run_map, h]
    rfl
  obtain ⟨hp, hn⟩ := mapM_register hl
  refine ⟨fun i => ?_, by simpa using hn⟩
  have hi := congrArg (·[i.val]?) hp
  simp only [List.getElem?_map, vector_toList_get, Option.map_some, Option.some.injEq] at hi
  exact hi

theorem links_wired {k : Nat} {configs : Vector LinkConfig k} {f : LinkConfig → Except Fault WiredLink}
    {links : Vector WiredLink k} (h : configs.mapM f = .ok links) (l : Fin k) :
    f (configs.get l) = .ok (links.get l) := by
  have hl : configs.toList.mapM f = .ok links.toList := by
    rw [vector_toList_mapM, h]
    rfl
  have hi := congrArg (·[l.val]?) (mapM_eq_ok_iff.1 hl)
  simp only [List.getElem?_map, vector_toList_get, Option.map_some, Option.some.injEq] at hi
  exact hi

theorem vector_get_ofFn {α : Type} {k : Nat} (f : Fin k → α) (i : Fin k) : (Vector.ofFn f).get i = f i :=
  Vector.getElem_ofFn i.isLt

/-- What is built is a network in which nothing has happened. -/
theorem built_of_build {c : NetworkConfig} {s : Network c.nodes.length c.links.length} (h : build c = .ok s) :
    s.Built := by
  unfold build at h
  obtain ⟨⟨places, context⟩, hplaces, h⟩ := bind_ok h
  obtain ⟨context', hcontext, h⟩ := bind_ok h
  obtain ⟨quantum, hquantum, h⟩ := bind_ok h
  obtain ⟨links, hlinks, h⟩ := bind_ok h
  cases h
  obtain ⟨hpool, hnames⟩ := configs_places hplaces
  obtain ⟨q, -, hq⟩ := bind_ok hcontext
  have hnames' : context'.names.length = c.nodes.length := by
    cases hq
    simpa [SimulationContext.new] using hnames
  have hdevice := fun i => poolOf_ok (hpool i)
  refine ⟨rfl, rfl, rfl, rfl, rfl, fun i => ?_, fun i => ?_, fun i => ?_, fun i => ?_, fun i => ?_, fun i => ?_,
    fun i => ?_, fun l => ?_, fun i => ?_, fun i => ?_, fun i => ?_⟩
  · rw [node, vector_get_ofFn]
  · rw [node, vector_get_ofFn]
  · rw [node, vector_get_ofFn]
  · rw [node, vector_get_ofFn]
    exact (hdevice i).1
  · rw [node, vector_get_ofFn]
    exact (hdevice i).2
  · rw [node, vector_get_ofFn]
    exact ⟨_, rfl⟩
  · rw [node, vector_get_ofFn]
  · obtain ⟨a, b, hw, hab, ha, hb⟩ := wire_ok (links_wired hlinks l)
    exact ⟨_, a, b, hw, hab, hnames' ▸ lt_of_nodeId ha, hnames' ▸ lt_of_nodeId hb⟩
  · rw [node, vector_get_ofFn]
    exact ⟨rfl, rfl⟩
  · rw [node, vector_get_ofFn]
    exact ⟨_, rfl⟩
  · rw [host, vector_get_ofFn]
    exact ⟨⟨_, rfl⟩, _, rfl⟩

theorem Built.crewed {s : Network n m} (h : s.Built) : s.Crewed := by
  refine ⟨fun hp => ?_, fun _ => ⟨h.fresh, h.processes⟩⟩
  rw [h.processes] at hp
  exact nomatch hp

theorem Built.pairStage {s : Network n m} (h : s.Built) (i : Fin n) : s.pairStage i = .idle := by
  rw [Network.pairStage, h.processes]
  rfl

theorem Built.dispatchStage {s : Network n m} (h : s.Built) (i : Fin n) : s.dispatchStage i = .idle := by
  rw [Network.dispatchStage, h.processes]
  rfl

/-- The table of processes is in order along every run. -/
theorem Trace.crewed {c : NetworkConfig} {may : ClientAct c.nodes.length → Prop}
    {past : List (Moment c.nodes.length c.links.length)} {s : Network c.nodes.length c.links.length}
    (h : Trace c may past s) : s.Crewed := by
  induction h with
  | built h => exact (built_of_build h).crewed
  | move _ hm ih => exact hm.crewed ih
  | act _ _ _ _ hr ih => exact act_crewed ih hr

end QuantumNode.Network
