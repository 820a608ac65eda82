import QuantumNode.Network.Client
import QuantumNode.Proofs.Node.Frame

/-! What is sent through a network spares the devices, slots, memories and books of its nodes, and its processes. -/
namespace QuantumNode

variable {n m : Nat}

/-- A node whose device, slots, memories and books are the same, and for whose pair service at most messages have come. -/
structure Node.SameSlots (x y : Node n m) : Prop where
  id : y.id = x.id
  device : y.device = x.device
  pool : y.pool = x.pool
  apps : y.apps = x.apps
  memoryFreed : y.memoryFreed = x.memoryFreed
  arrayWritten : y.arrayWritten = x.arrayWritten
  service : y.service = { x.service with inbound := y.service.inbound }
  dispatcher : y.dispatcher = x.dispatcher

theorem Node.SameSlots.refl (x : Node n m) : x.SameSlots x := ⟨rfl, rfl, rfl, rfl, rfl, rfl, rfl, rfl⟩

theorem Node.SameSlots.trans {x y z : Node n m} (h : x.SameSlots y) (h' : y.SameSlots z) : x.SameSlots z :=
  ⟨h'.id.trans h.id, h'.device.trans h.device, h'.pool.trans h.pool, h'.apps.trans h.apps,
    h'.memoryFreed.trans h.memoryFreed, h'.arrayWritten.trans h.arrayWritten, h'.service.trans (by rw [h.service]),
    h'.dispatcher.trans h.dispatcher⟩

namespace Network

/-- Processes, devices, slots, memories and books are left alone. -/
structure Spares (s s' : Network n m) : Prop where
  processes : s'.processes = s.processes
  fresh : s'.fresh = s.fresh
  current : s'.current = s.current
  started : s'.started = s.started
  slots : ∀ i, (s.node i).SameSlots (s'.node i)

namespace Spares

variable {s s₁ s₂ : Network n m}

theorem refl (s : Network n m) : Spares s s := ⟨rfl, rfl, rfl, rfl, fun _ => .refl _⟩

theorem trans (h : Spares s s₁) (h' : Spares s₁ s₂) : Spares s s₂ :=
  ⟨h'.processes.trans h.processes, h'.fresh.trans h.fresh, h'.current.trans h.current, h'.started.trans h.started,
    fun i => (h.slots i).trans (h'.slots i)⟩

end Spares

theorem node_setNode (s : Network n m) (i j : Fin n) (x : Node n m) :
    (s.setNode i x).node j = if j = i then x else s.node j :=
  vector_get_set s.nodes i j x

theorem spares_setNode (s : Network n m) (i : Fin n) {x : Node n m} (h : (s.node i).SameSlots x) :
    Spares s (s.setNode i x) := by
  refine ⟨rfl, rfl, rfl, rfl, fun j => ?_⟩
  rw [node_setNode]
  split
  · rename_i hj
    exact hj ▸ h
  · exact .refl _

theorem spares_of_nodes {s s' : Network n m} (hn : s'.nodes = s.nodes) (hp : s'.processes = s.processes)
    (hf : s'.fresh = s.fresh) (hc : s'.current = s.current) (hs : s'.started = s.started) : Spares s s' := by
  refine ⟨hp, hf, hc, hs, fun i => ?_⟩
  have hnode : s'.node i = s.node i := by
    unfold node
    rw [hn]
  rw [hnode]
  exact .refl _

theorem spares_quantum (s : Network n m) (q : QuantumState) : Spares s { s with quantum := q } :=
  spares_of_nodes rfl rfl rfl rfl rfl

theorem spares_schedule (s : Network n m) (delay : Nat) (e : NetworkEvent n m) : Spares s (s.schedule delay e) :=
  spares_of_nodes rfl rfl rfl rfl rfl

theorem spares_write (s : Network n m) (level : LogLevel) (name text : String) : Spares s (s.write level name text) :=
  spares_of_nodes rfl rfl rfl rfl rfl

theorem spares_setChannel (s : Network n m) (line : Line n) (c : Channel String ProcessId) :
    Spares s (s.setChannel line c) := by
  cases line with
  | toNode i => exact spares_setNode s i ⟨rfl, rfl, rfl, rfl, rfl, rfl, rfl, rfl⟩
  | toHost i => exact spares_of_nodes rfl rfl rfl rfl rfl
  | between a b => exact spares_of_nodes rfl rfl rfl rfl rfl

theorem spares_deliver (s : Network n m) (line : Line n) (text : String) : Spares s (s.deliver line text) := by
  unfold deliver
  split
  · exact (spares_setChannel _ _ _).trans (spares_schedule _ _ _)
  · exact spares_setChannel _ _ _

theorem spares_send (s : Network n m) (line : Line n) (text : String) : Spares s (s.send line text) := by
  unfold send
  dsimp only
  split
  · exact (spares_setChannel _ _ _).trans (spares_deliver _ _ _)
  · exact (spares_setChannel _ _ _).trans (spares_schedule _ _ _)

theorem spares_setInbound (s : Network n m) (source target : Fin n) (c : Channel PeerMessage ProcessId) :
    Spares s (s.setInbound source target c) :=
  spares_setNode s target ⟨rfl, rfl, rfl, rfl, rfl, rfl, rfl, rfl⟩

theorem spares_tell (s : Network n m) (source target : Fin n) (message : PeerMessage) :
    Spares s (s.tell source target message) := by
  unfold tell
  dsimp only
  have h := spares_setInbound s source target (s.inbound source target).countSent
  split
  · exact (h.trans (spares_setInbound _ _ _ _)).trans (spares_schedule _ _ _)
  · exact (h.trans (spares_schedule _ _ _)).trans (spares_schedule _ _ _)

theorem spares_setLink (s : Network n m) (l : Fin m) (link : Link) : Spares s (s.setLink l link) :=
  spares_of_nodes rfl rfl rfl rfl rfl

theorem spares_setWired (s : Network n m) (l : Fin m) (w : WiredLink) : Spares s (s.setWired l w) :=
  spares_of_nodes rfl rfl rfl rfl rfl

theorem spares_answer (s : Network n m) (l : Fin m) (e : LinkEnd) (a : LinkAnswer) : Spares s (s.answer l e a) := by
  unfold answer
  dsimp only
  split
  · exact (spares_setWired _ _ _).trans (spares_schedule _ _ _)
  · exact spares_setWired _ _ _

theorem spares_applyLink (l : Fin m) (s : Network n m) (e : LinkEffect) : Spares s (applyLink l s e) := by
  cases e with
  | answer e a => exact spares_answer _ _ _ _
  | schedule delay e => exact spares_schedule _ _ _
  | log level text => exact spares_write _ _ _ _

theorem spares_foldl {ε : Type} {f : Network n m → ε → Network n m} (hf : ∀ s e, Spares s (f s e)) (l : List ε)
    (s : Network n m) : Spares s (l.foldl f s) := by
  induction l generalizing s with
  | nil => exact .refl s
  | cons e l ih => exact (hf s e).trans (ih _)

theorem spares_updateLink (s : Network n m) (l : Fin m) (r : List LinkEffect × Link) :
    Spares s (s.updateLink l r) :=
  (spares_setLink s l r.2).trans (spares_foldl (spares_applyLink l) r.1 _)

theorem spares_fireLink (s : Network n m) (l : Fin m) (e : LinkEvent) : Spares s (s.fireLink l e) :=
  (spares_quantum s _).trans (spares_updateLink _ _ _)

theorem spares_askLink {s s' : Network n m} {p : ProcessId} {l : Fin m} {e : LinkEnd} {c : LinkCall}
    {a : Option LinkAnswer} (h : s.askLink p l e c = .ok (a, s')) : Spares s s' := by
  unfold askLink at h
  split at h
  · exact nomatch h
  · cases h
    exact spares_setLink _ _ _
  · cases h
    exact ((spares_quantum s _).trans (spares_updateLink _ _ _)).trans (spares_setWired _ _ _)

theorem spares_applyEffect (s : Network n m) (e : Effect n m) : Spares s (s.applyEffect e) := by
  cases e with
  | log level name text => exact spares_write _ _ _ _
  | resume delay p wake => exact spares_schedule _ _ _
  | send line text => exact spares_send _ _ _
  | tell source target message => exact spares_tell _ _ _ _
  | abortLink l e => exact spares_updateLink _ _ _
  | observed remote request => exact spares_of_nodes rfl rfl rfl rfl rfl

/-- What the work of a node brings about spares everything but the node's own part. -/
theorem spares_effects (s : Network n m) (es : Array (Effect n m)) : Spares s (es.foldl applyEffect s) := by
  rw [← Array.foldl_toList]
  exact spares_foldl spares_applyEffect _ s

end Network

end QuantumNode
