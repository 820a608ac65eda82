import QuantumNode.Proofs.Config.Parser
import QuantumNode.Proofs.Network.Build
import Mathlib.Data.List.Nodup

/-! Networks from accepted descriptions. What a description is checked for is all that its network needs to be built,
as long as the quantum state can hold its qubits, and the nodes share those qubits out in the order of their stacks. -/
namespace QuantumNode

/-- The qubits of the stacks before one of them. -/
def NetworkConfig.offset (c : NetworkConfig) (i : Nat) : Nat := ((c.nodes.take i).map (·.device.numQubits)).sum

/-- Stacks of a sound description are told apart by their names. -/
theorem NetworkConfig.Sound.get_name_inj {c : NetworkConfig} (h : c.Sound) {i j : Fin c.nodes.length}
    (hij : (c.nodes.get i).name = (c.nodes.get j).name) : i = j := by
  have hi : i.val < c.names.length := by simp [names]
  have hj : j.val < c.names.length := by simp [names]
  have hnames : c.names[i.val] = c.names[j.val] := by simpa [names] using hij
  exact Fin.ext (h.distinct.getElem_inj_iff.1 hnames)

namespace Network

/-! ### Registration -/

section Registration

variable {c : SimulationContext}

theorem poolOf_sound {d : DeviceConfig} (h : d.Sound) : ∃ pool, poolOf d = .ok pool := by
  cases d with
  | generic g => exact ⟨_, rfl⟩
  | nv v =>
    have hpos : 0 < v.numQubits := h
    have hfind : [0].find? (v.numQubits ≤ ·) = none := by simpa using Nat.ne_of_gt hpos
    exact ⟨_, by rw [poolOf, QubitPool.nv, QubitPool.custom, hfind]⟩

/-- What registering stacks with some names and some qubits leaves behind. -/
def registered (c : SimulationContext) (names : List String) (qubits : Nat) : SimulationContext :=
  { c with names := c.names ++ names, reserved := c.reserved + qubits }

/-- A stack with a new name gets the next qubits. -/
theorem register_of_fresh {s : StackConfig} (hv : c.vector = none) (hn : s.name ∉ c.names) (hd : s.device.Sound)
    (hq : c.reserved + s.device.numQubits < Word.size64) :
    ∃ pool, (register s).run c = .ok ((c.reserved, pool), registered c [s.name] s.device.numQubits) := by
  obtain ⟨pool, hpool⟩ := poolOf_sound hd
  refine ⟨pool, ?_⟩
  have hreg : c.register s.name = .ok (c.names.length, { c with names := c.names ++ [s.name] }) := if_neg hn
  have hres : SimulationContext.reserve { c with names := c.names ++ [s.name] } s.device.numQubits =
      .ok (c.reserved, registered c [s.name] s.device.numQubits) := by
    simp only [SimulationContext.reserve, hv, Nat.mod_eq_of_lt hq, registered]
  calc (register s).run c = (do
          let p ← c.register s.name
          let q ← p.2.reserve s.device.numQubits
          let pool ← poolOf s.device
          pure ((q.1, pool), q.2)) := register_run s c
    _ = _ := by
      rw [hreg]
      simp only [bind, Except.bind, hres, hpool]
      rfl

/-- Stacks with new names of their own get the next qubits, each after those before it. -/
theorem mapM_register_of_fresh {l : List StackConfig} (hv : c.vector = none)
    (hn : (c.names ++ l.map (·.name)).Nodup) (hd : ∀ s ∈ l, s.device.Sound)
    (hq : c.reserved + (l.map (·.device.numQubits)).sum < Word.size64) :
    ∃ places : List (Nat × QubitPool),
      (l.mapM register).run c = .ok (places, registered c (l.map (·.name)) (l.map (·.device.numQubits)).sum) ∧
      ∀ i, i < l.length →
        (places[i]?).map Prod.fst = some (c.reserved + ((l.take i).map (·.device.numQubits)).sum) := by
  induction l generalizing c with
  | nil =>
    refine ⟨[], ?_, nofun⟩
    have hsame : registered c [] 0 = c := by simp [registered]
    rw [List.map_nil, List.map_nil, List.sum_nil, hsame]
    rfl
  | cons s l ih =>
    have hfresh : s.name ∉ c.names := fun hm => (List.nodup_append.1 hn).2.2 _ hm _ (List.mem_cons_self ..) rfl
    rw [List.map_cons, List.sum_cons] at hq
    obtain ⟨pool, hpool⟩ := register_of_fresh hv hfresh (hd s (List.mem_cons_self ..)) (by omega)
    have hn' : ((registered c [s.name] s.device.numQubits).names ++ l.map (·.name)).Nodup := by
      simpa [registered] using hn
    have hv' : (registered c [s.name] s.device.numQubits).vector = none := hv
    obtain ⟨places, hplaces, hbases⟩ := ih hv' hn' (fun t ht => hd t (List.mem_cons_of_mem _ ht))
      (by simpa [registered, Nat.add_assoc] using hq)
    refine ⟨(c.reserved, pool) :: places, ?_, fun i hi => ?_⟩
    · rw [List.mapM_cons, StateT.run_bind, hpool]
      change ((l.mapM register).run (registered c [s.name] s.device.numQubits) >>= fun p =>
        pure ((c.reserved, pool) :: p.1, p.2)) = _
      rw [hplaces]
      simp [registered, Nat.add_assoc, bind, Except.bind, pure, Except.pure]
    · cases i with
      | zero => simp
      | succ i =>
        rw [List.getElem?_cons_succ, hbases i (by simpa using hi)]
        simp [registered, Nat.add_assoc]

end Registration

/-! ### Links -/

section Links

variable {c : SimulationContext}

theorem exists_nodeId {name : String} (h : name ∈ c.names) : ∃ a, c.nodeId name = some a := by
  rw [← Option.isSome_iff_exists, SimulationContext.nodeId, List.isSome_idxOf?]
  exact h

theorem name_of_nodeId {name : String} {a : Nat} (h : c.nodeId name = some a) : c.names[a]? = some name := by
  unfold SimulationContext.nodeId List.idxOf? at h
  obtain ⟨ha, hname, -⟩ := List.findIdx?_eq_some_iff_getElem.1 h
  rw [List.getElem?_eq_getElem ha, eq_of_beq hname]

/-- A link between two registered stacks can be wired. -/
theorem wire_of_known {l : LinkConfig} (h₁ : l.stack1 ∈ c.names) (h₂ : l.stack2 ∈ c.names) (hne : l.stack1 ≠ l.stack2) :
    ∃ w, wire c l = .ok w := by
  obtain ⟨a, ha⟩ := exists_nodeId h₁
  obtain ⟨b, hb⟩ := exists_nodeId h₂
  have hab : a ≠ b := by
    rintro rfl
    exact hne (Option.some.inj ((name_of_nodeId ha).symm.trans (name_of_nodeId hb)))
  exact ⟨.new (.new l a b), by simp only [wire, ha, hb, if_neg hab]⟩

end Links

/-! ### Whole networks -/

section Whole

variable {c : NetworkConfig}

theorem size_nodes (c : NetworkConfig) : c.nodes.toArray.size = c.nodes.length := List.size_toArray

/-- The stacks of a description as they are registered. -/
def configs (c : NetworkConfig) : Vector StackConfig c.nodes.length := ⟨c.nodes.toArray, size_nodes c⟩

theorem places_of_sound (h : c.Sound) (hq : c.qubits < Word.size64) :
    ∃ places : Vector (Nat × QubitPool) c.nodes.length,
      ((configs c).mapM register).run (.new c.seed) = .ok (places, registered (.new c.seed) c.names c.qubits) ∧
      ∀ i, (places.get i).1 = c.offset i := by
  have hstart : (SimulationContext.new c.seed).reserved + c.qubits < Word.size64 := by
    simpa [SimulationContext.new] using hq
  obtain ⟨places, hplaces, hbases⟩ := mapM_register_of_fresh (c := .new c.seed) rfl
    (by simpa [SimulationContext.new, NetworkConfig.names] using h.distinct) h.devices hstart
  have hlist : (configs c).toList = c.nodes := rfl
  rw [← hlist, vector_toList_mapM, StateT.run_map] at hplaces
  rw [map_eq_pure_bind] at hplaces
  obtain ⟨⟨v, c'⟩, hv, he⟩ := bind_ok hplaces
  cases he
  refine ⟨v, hv, fun i => ?_⟩
  have hi := hbases i i.isLt
  rw [vector_toList_get, Option.map_some, Option.some.injEq] at hi
  rw [hi]
  exact Nat.zero_add _

/-- The set-up after all stacks have been registered, with the quantum state of their qubits. -/
theorem build_registered (hq : c.qubits ≤ Fault.qubitLimit) :
    (registered (.new c.seed) c.names c.qubits).build = .ok
      { registered (.new c.seed) c.names c.qubits with vector := some (.zero c.qubits) } := by
  have hn : ¬ Fault.qubitLimit < c.qubits := Nat.not_lt.2 hq
  have hstate : QuantumState.new (registered (.new c.seed) c.names c.qubits).reserved
      (registered (.new c.seed) c.names c.qubits).source = .ok ⟨.zero c.qubits, .ofSeed c.seed⟩ := by
    simp [registered, SimulationContext.new, QuantumState.new, hn]
  rw [SimulationContext.build, hstate]
  rfl

/-- The nodes of a network are numbered in the order of their stacks, each has its positions behind those of the nodes
before it, and the links are wired to the nodes that they name. -/
structure LaidOut (s : Network c.nodes.length c.links.length) : Prop where
  number : ∀ i, (s.node i).id = i
  name : ∀ i, (s.node i).name = (c.nodes.get i).name
  device : ∀ i, (s.node i).device = .new (c.nodes.get i).device (c.offset i)
  ports : ∀ i, (s.node i).ports = portsOf s.links i
  links : ∀ l, ∃ a b, s.wired l = .new (.new (c.links.get l) a b) ∧ a ≠ b ∧
    c.names[a]? = some (c.links.get l).stack1 ∧ c.names[b]? = some (c.links.get l).stack2

theorem exists_vector_mapM_ok {α β : Type} {k : Nat} {v : Vector α k} {f : α → Except Fault β}
    (h : ∀ a ∈ v.toList, ∃ b, f a = .ok b) : ∃ ws, v.mapM f = .ok ws := by
  obtain ⟨ys, hys⟩ := exists_mapM_ok h
  rw [vector_toList_mapM, map_eq_pure_bind] at hys
  obtain ⟨ws, hws, -⟩ := bind_ok hys
  exact ⟨ws, hws⟩

theorem build_of_sound (h : c.Sound) (hq : c.qubits ≤ Fault.qubitLimit) : ∃ s, build c = .ok s ∧ s.LaidOut := by
  obtain ⟨places, hplaces, hbase⟩ := places_of_sound h (Nat.lt_of_le_of_lt hq (by decide))
  let links : Vector LinkConfig c.links.length := ⟨c.links.toArray, List.size_toArray⟩
  let context : SimulationContext :=
    { registered (.new c.seed) c.names c.qubits with vector := some (.zero c.qubits) }
  obtain ⟨ws, hws⟩ : ∃ ws, links.mapM (wire context) = .ok ws :=
    exists_vector_mapM_ok fun l hl => by
      obtain ⟨h₁, h₂, hne⟩ := h.links l hl
      exact wire_of_known h₁ h₂ hne
  have hlinks : (⟨c.links.toArray, List.size_toArray⟩ : Vector LinkConfig c.links.length).mapM (wire
      { registered (.new c.seed) c.names c.qubits with vector := some (.zero c.qubits) }) = .ok ws := hws
  unfold configs at hplaces
  simp only [build, hplaces, bind, Except.bind, build_registered hq, SimulationContext.quantumState, hlinks]
  refine ⟨_, rfl, fun i => ?_, fun i => ?_, fun i => ?_, fun i => ?_, fun l => ?_⟩
  · rw [node, vector_get_ofFn]
  · rw [node, vector_get_ofFn]
    simp [Vector.get]
  · rw [node, vector_get_ofFn, ← hbase]
    rfl
  · rw [node, vector_get_ofFn]
  · obtain ⟨a, b, hw, hab, ha, hb⟩ := wire_ok (links_wired hws l)
    have hnames : context.names = c.names := List.nil_append _
    exact ⟨a, b, hw, hab, hnames ▸ name_of_nodeId ha, hnames ▸ name_of_nodeId hb⟩

theorem build_of_too_many (h : c.Sound) (hl : Fault.qubitLimit < c.qubits) (hq : c.qubits < Word.size64) :
    build c = .error (.tooManyQubits c.qubits) := by
  obtain ⟨places, hplaces, -⟩ := places_of_sound h hq
  have hbuild : (registered (.new c.seed) c.names c.qubits).build = .error (.tooManyQubits c.qubits) := by
    simp [SimulationContext.build, registered, SimulationContext.new, QuantumState.new, hl, bind, Except.bind]
  unfold configs at hplaces
  simp only [build, hplaces, bind, Except.bind, hbuild]

end Whole

/-! ### Positions and their qubits -/

/-- Ranges of given lengths, one behind the other, are one range. -/
private theorem flatMap_range' {α : Type} (f : α → Nat) (l : List α) (k : Nat) :
    ((List.finRange l.length).flatMap fun i : Fin l.length => List.range' (k + ((l.take i).map f).sum) (f (l.get i))) =
      List.range' k (l.map f).sum := by
  induction l generalizing k with
  | nil => rfl
  | cons a l ih =>
    calc _ = List.range' k (f a) ++ ((List.finRange l.length).flatMap fun i : Fin l.length =>
          List.range' (k + f a + ((l.take i).map f).sum) (f (l.get i))) := by
          simp [List.finRange_succ, List.flatMap_map, Nat.add_assoc]
      _ = List.range' k ((a :: l).map f).sum := by rw [ih, List.range'_append_1, List.map_cons, List.sum_cons]

namespace LaidOut

variable {c : NetworkConfig} {s : Network c.nodes.length c.links.length}

theorem find_name (h : s.LaidOut) (hc : c.Sound) (i : Fin c.nodes.length) : s.find (c.nodes.get i).name = .ok i := by
  have hmem : s.node i ∈ s.nodes := Vector.getElem_mem i.isLt
  unfold find
  split
  · next j hj =>
    obtain ⟨k, hk, rfl⟩ := Option.map_eq_some_iff.1 hj
    have hname : (s.node (k.cast s.nodes.size_toArray)).name = (c.nodes.get i).name :=
      of_decide_eq_true (Array.findFinIdx?_eq_some_iff.1 hk).1
    rw [h.name] at hname
    exact congrArg Except.ok (hc.get_name_inj hname)
  · next hj =>
    have := Vector.findFinIdx?_eq_none_iff.1 hj _ hmem
    simp [h.name] at this

/-- The global indices of a node's positions. -/
theorem globalIndices (h : s.LaidOut) (i : Fin c.nodes.length) :
    (List.range (s.node i).device.size).map (s.node i).device.globalIndex =
      (List.range' (c.offset i) (c.nodes.get i).device.numQubits).map .ok := by
  rw [h.device, List.range'_eq_map_range, List.map_map]
  refine List.map_congr_left fun p hp => ?_
  exact if_pos (List.mem_range.1 hp)

/-- All positions of a network, node by node, are the qubits of its quantum state, each once. -/
theorem positions (h : s.LaidOut) :
    ((List.finRange c.nodes.length).flatMap fun i : Fin c.nodes.length =>
      (List.range (s.node i).device.size).map (s.node i).device.globalIndex) = (List.range c.qubits).map .ok := by
  have hrange : ((List.finRange c.nodes.length).flatMap fun i : Fin c.nodes.length =>
      List.range' (c.offset i) (c.nodes.get i).device.numQubits) = List.range c.qubits := by
    simpa only [Nat.zero_add, List.range_eq_range', NetworkConfig.offset, NetworkConfig.qubits] using
      flatMap_range' (·.device.numQubits) c.nodes 0
  rw [← hrange, List.map_flatMap]
  exact congrArg (List.flatMap · _) (funext h.globalIndices)

end LaidOut

/-- An accepted description can always be built. Its stacks have names of their own and at least one qubit each, and
come in the order in which the text first mentions them; its links join two of them. With at most 24 qubits the network
is built: its nodes are numbered in the order of the stacks and are found by their names, and their positions, node by
node, are the qubits of the quantum state from the first to the last. With more qubits the network is refused. -/
theorem accepted_descriptions_build {text : String} {c : NetworkConfig} (h : NetworkConfig.parse text = .ok c) :
    c.Sound ∧ c.names = ConfigText.mentioned text ∧
    (c.qubits ≤ 24 → ∃ s, build c = .ok s ∧
      (∀ i, (s.node i).id = i ∧ (s.node i).name = (c.nodes.get i).name ∧ s.find (c.nodes.get i).name = .ok i) ∧
      ((List.finRange c.nodes.length).flatMap fun i : Fin c.nodes.length =>
        (List.range (s.node i).device.size).map (s.node i).device.globalIndex) = (List.range c.qubits).map .ok) ∧
    (24 < c.qubits → c.qubits < Word.size64 →
      build c = .error (.tooManyQubits c.qubits) ∧ (Fault.tooManyQubits c.qubits).kind = .general) := by
  obtain ⟨hnames, hsound⟩ := NetworkConfig.parse_ok h
  refine ⟨hsound, hnames, fun hq => ?_, fun hl hq => ⟨build_of_too_many hsound hl hq, rfl⟩⟩
  obtain ⟨s, hs, hlaid⟩ := build_of_sound hsound hq
  exact ⟨s, hs, fun i => ⟨hlaid.number i, hlaid.name i, hlaid.find_name hsound i⟩, hlaid.positions⟩

/-- Two stacks whose lines are mixed, and one that asks for a qubit more than there can be. -/
theorem accepted_descriptions_build_mixed :
    let text := "stack.b.num_qubits=3\nseed=7\nstack.a.qdevice=nv # two qubits\nstack.b.num_comm_qubits=1\n"
    (∃ c, NetworkConfig.parse text = .ok c ∧ c.Sound ∧ c.names = ["b", "a"] ∧ c.qubits = 5 ∧
      ∃ s, build c = .ok s ∧ (∀ i, (s.node i).id = i ∧ (s.node i).name = (c.nodes.get i).name)) ∧
    ∃ c, NetworkConfig.parse "stack.a.num_qubits=25" = .ok c ∧ build c = .error (.tooManyQubits 25) := by
  intro text
  have hsmall : (NetworkConfig.parse text).toOption.map (fun c => (c.names, c.qubits)) = some (["b", "a"], 5) := by
    decide +kernel
  have hlarge : (NetworkConfig.parse "stack.a.num_qubits=25").toOption.map (·.qubits) = some 25 := by decide +kernel
  constructor
  · obtain ⟨c, hc, he⟩ := Option.map_eq_some_iff.1 hsmall
    obtain ⟨hnames, hqubits⟩ := Prod.mk.inj he
    have hparse : NetworkConfig.parse text = .ok c := ok_of_toOption hc
    obtain ⟨hsound, -, hbuild, -⟩ := accepted_descriptions_build hparse
    obtain ⟨s, hs, hnodes, -⟩ := hbuild (by omega)
    exact ⟨c, hparse, hsound, hnames, hqubits, s, hs, fun i => ⟨(hnodes i).1, (hnodes i).2.1⟩⟩
  · obtain ⟨c, hc, hqubits⟩ := Option.map_eq_some_iff.1 hlarge
    have hparse : NetworkConfig.parse "stack.a.num_qubits=25" = .ok c := ok_of_toOption hc
    obtain ⟨-, -, -, hrefused⟩ := accepted_descriptions_build hparse
    exact ⟨c, hparse, hqubits ▸ (hrefused (by omega) (by rw [hqubits]; decide)).1⟩

end Network

end QuantumNode
