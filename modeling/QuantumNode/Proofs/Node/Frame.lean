import QuantumNode.Node.Pairing
import QuantumNode.Proofs.Data.SortedMap
import QuantumNode.Proofs.Memory.Application
import QuantumNode.Proofs.Work.Run

/-! What the work of a node leaves alone. Most of it neither takes part in the exchange with other pair services
(`Calm`) nor takes or returns qubits (`Thrifty`). -/
namespace QuantumNode

variable {σ : Type} {n m : Nat}

theorem vector_get_set {α : Type} {k : Nat} (v : Vector α k) (i j : Fin k) (x : α) :
    (v.set i x i.isLt).get j = if j = i then x else v.get j := by
  change (v.set i x i.isLt)[j.val] = if j = i then x else v[j.val]
  rw [Vector.getElem_set]
  by_cases h : j = i
  · subst h
    simp
  · rw [if_neg h, if_neg fun h' => h (Fin.ext h').symm]

/-- Effects that another pair service, a link or a waiting call notices. -/
def Effect.isLoud : Effect n m → Bool
  | .tell .. | .abortLink .. | .resume _ _ (.answer _) => true
  | _ => false

namespace Working

def loud (w : Working σ n m) : List (Effect n m) := w.effects.toList.filter Effect.isLoud

theorem loud_push_of_not {w : Working σ n m} {e : Effect n m} (h : e.isLoud = false) :
    ({ w with effects := w.effects.push e } : Working σ n m).loud = w.loud := by
  simp [loud, h]

theorem loud_push_of {w : Working σ n m} {e : Effect n m} (h : e.isLoud = true) :
    ({ w with effects := w.effects.push e } : Working σ n m).loud = w.loud ++ [e] := by
  simp [loud, h]

/-- The exchange with other pair services and with links is left alone. -/
structure Calm (w w' : Working (Node n m) n m) : Prop where
  loud : w'.loud = w.loud
  id : w'.part.id = w.part.id
  links : w'.part.ports.links = w.part.ports.links
  inbound : w'.part.service.inbound = w.part.service.inbound
  inFlight : w'.part.service.inFlight = w.part.service.inFlight

instance : Std.Refl (Calm : Working (Node n m) n m → Working (Node n m) n m → Prop) :=
  ⟨fun _ => ⟨rfl, rfl, rfl, rfl, rfl⟩⟩

instance : IsTrans (Working (Node n m) n m) Calm :=
  ⟨fun _ _ _ h h' => ⟨h'.loud.trans h.loud, h'.id.trans h.id, h'.links.trans h.links,
    h'.inbound.trans h.inbound, h'.inFlight.trans h.inFlight⟩⟩

/-- Qubits are left alone: those of the pool, and what the applications' memories say about them. -/
structure Thrifty (w w' : Working (Node n m) n m) : Prop where
  config : w'.part.device.config = w.part.device.config
  pool : w'.part.pool = w.part.pool
  qubits : ∀ app, (w'.part.apps.get? app).map (·.qubits) = (w.part.apps.get? app).map (·.qubits)
  ascending : w.part.apps.Ascending → w'.part.apps.Ascending

namespace Thrifty

theorem of_eq {w w' : Working (Node n m) n m} (hd : w'.part.device.config = w.part.device.config)
    (hp : w'.part.pool = w.part.pool) (ha : w'.part.apps = w.part.apps) : Thrifty w w' :=
  ⟨hd, hp, fun _ => by rw [ha], fun h => ha ▸ h⟩

theorem trans {w w₁ w₂ : Working (Node n m) n m} (h : Thrifty w w₁) (h' : Thrifty w₁ w₂) : Thrifty w w₂ :=
  ⟨h'.config.trans h.config, h'.pool.trans h.pool, fun app => (h'.qubits app).trans (h.qubits app),
    fun ha => h'.ascending (h.ascending ha)⟩

instance : Std.Refl (Thrifty : Working (Node n m) n m → Working (Node n m) n m → Prop) :=
  ⟨fun _ => of_eq rfl rfl rfl⟩

instance : IsTrans (Working (Node n m) n m) Thrifty := ⟨fun _ _ _ h h' => h.trans h'⟩

end Thrifty

/-- Neither the exchange with other nodes nor a qubit is touched. -/
structure Still (w w' : Working (Node n m) n m) : Prop extends Calm w w', Thrifty w w'

instance : Std.Refl (Still : Working (Node n m) n m → Working (Node n m) n m → Prop) :=
  ⟨fun w => ⟨Std.Refl.refl w, Std.Refl.refl w⟩⟩

instance : IsTrans (Working (Node n m) n m) Still :=
  ⟨fun _ _ _ h h' => ⟨IsTrans.trans _ _ _ h.toCalm h'.toCalm, h.toThrifty.trans h'.toThrifty⟩⟩

end Working

/-- Nodes that differ in nothing but their devices' states and counters. -/
structure Node.Alike (x y : Node n m) : Prop where
  id : y.id = x.id
  links : y.ports.links = x.ports.links
  service : y.service = x.service
  config : y.device.config = x.device.config
  pool : y.pool = x.pool
  apps : y.apps = x.apps
  memoryFreed : y.memoryFreed = x.memoryFreed
  arrayWritten : y.arrayWritten = x.arrayWritten
  inbox : y.inbox = x.inbox
  dispatcher : y.dispatcher = x.dispatcher

/-- Pair services that differ in their sockets and flags alone; no application has been aborted, no request has failed,
and no socket has been closed. -/
structure PairService.Alike {π : Type} (x y : PairService n π) : Prop where
  requests : y.requests = x.requests
  inbound : y.inbound = x.inbound
  news : y.news = x.news
  inFlight : y.inFlight = x.inFlight
  allocationWaits : y.allocationWaits = x.allocationWaits
  aborted : ∀ app, y.isAborted app = true → x.isAborted app = true
  failed : ∀ app, app ∈ y.failed → app ∈ x.failed
  sockets : ∀ app socket remote, x.hasSocket app socket remote = true → y.hasSocket app socket remote = true

theorem PairService.isAborted_of_forget {π : Type} {s : PairService n π} {app other : Int}
    (h : (s.forget other).isAborted app = true) : s.isAborted app = true := by
  simp only [isAborted, forget, List.contains_iff_mem, List.mem_filter] at h ⊢
  exact h.1

/-- Effects that go to whoever runs the network. -/
def Effect.isMild : Effect n m → Bool
  | .log .. | .observed .. => true
  | _ => false

namespace Working

/-- Relations that put up with work that looks around, and writes logs. -/
class Watching (R : Working (Node n m) n m → Working (Node n m) n m → Prop) : Prop extends Std.Refl R, IsTrans _ R where
  emit (w : Working (Node n m) n m) (e : Effect n m) (h : e.isMild = true) : R w { w with effects := w.effects.push e }

/-- Relations that put up with work that counts and uses the device, too. -/
class Bland (R : Working (Node n m) n m → Working (Node n m) n m → Prop) : Prop extends Watching R where
  part (w : Working (Node n m) n m) (x : Node n m) (h : w.part.Alike x) : R w { w with part := x }
  quantum (w : Working (Node n m) n m) (q : QuantumState) : R w { w with quantum := q }

/-- Relations that put up with a dispatcher that changes its books and answers hosts. Ids of applications are not used
again. -/
class Steering (R : Working (Node n m) n m → Working (Node n m) n m → Prop) : Prop where
  dispatcher (w : Working (Node n m) n m) (d : Dispatcher) (h : w.part.dispatcher.nextApp ≤ d.nextApp) :
    R w { w with part := { w.part with dispatcher := d } }
  reply (w : Working (Node n m) n m) (host : Fin n) (text : String) :
    R w { w with effects := w.effects.push (.send (.toHost host) text) }

/-- Relations that put up with a pair service whose sockets and flags change, and with requests that are submitted. -/
class Placid (R : Working (Node n m) n m → Working (Node n m) n m → Prop) : Prop extends Bland R where
  flags (w : Working (Node n m) n m) (s : PairService n ProcessId) (h : w.part.service.Alike s)
    (hp : s.pending = w.part.service.pending) : R w { w with part := { w.part with service := s } }
  submit (w : Working (Node n m) n m) (r : EntanglementRequest) : R w ((Node.submit r).exec w).2

/-- Relations that put up with requests that are settled, too. -/
class Docile (R : Working (Node n m) n m → Working (Node n m) n m → Prop) : Prop extends Placid R where
  service (w : Working (Node n m) n m) (s : PairService n ProcessId) (h : w.part.service.Alike s) :
    R w { w with part := { w.part with service := s } }
  flags w s h _ := service w s h

/-- Relations that put up with registers and arrays of one application that change. -/
class Filling (app : Int) (R : Working (Node n m) n m → Working (Node n m) n m → Prop) : Prop where
  contents (w : Working (Node n m) n m) (mem mem' : AppMemory) (h : w.part.apps.get? app = some mem)
    (ha : mem.Alike mem') : R w { w with part := { w.part with apps := w.part.apps.insert app mem' } }

/-- Relations that put up with what most work of a node does: it changes registers, arrays and flags, too, and submits
requests. -/
class Tame (R : Working (Node n m) n m → Working (Node n m) n m → Prop) : Prop extends Docile R where
  contents (w : Working (Node n m) n m) (app : Int) (mem mem' : AppMemory) (h : w.part.apps.get? app = some mem)
    (ha : mem.Alike mem') : R w { w with part := { w.part with apps := w.part.apps.insert app mem' } }

instance (app : Int) (R : Working (Node n m) n m → Working (Node n m) n m → Prop) [Tame R] : Filling app R where
  contents w mem mem' h ha := Tame.contents w app mem mem' h ha

/-- Relations that put up with the program counter of one application that moves. -/
class Counting (app : Int) (R : Working (Node n m) n m → Working (Node n m) n m → Prop) : Prop where
  count (w : Working (Node n m) n m) (mem : AppMemory) (pc : Nat) (h : w.part.apps.get? app = some mem) :
    R w { w with part := { w.part with apps := w.part.apps.insert app { mem with pc := pc } } }

/-- Relations that put up with program counters that move, too. -/
class Mild (R : Working (Node n m) n m → Working (Node n m) n m → Prop) : Prop extends Tame R where
  memory (w : Working (Node n m) n m) (app : Int) (mem mem' : AppMemory) (h : w.part.apps.get? app = some mem)
    (hq : mem'.qubits = mem.qubits) : R w { w with part := { w.part with apps := w.part.apps.insert app mem' } }
  contents w app mem mem' h ha := memory w app mem mem' h ha.qubits

instance (app : Int) (R : Working (Node n m) n m → Working (Node n m) n m → Prop) [Mild R] : Counting app R where
  count w mem _ h := Mild.memory w app mem _ h rfl

/-- Relations that put up with a process that sleeps, or waits for a result or a text. -/
class Drowsy (p : ProcessId) (R : Working (Node n m) n m → Working (Node n m) n m → Prop) : Prop where
  sleep (w : Working (Node n m) n m) (delay : Nat) :
    R w { w with effects := w.effects.push (.resume delay p .go) }
  write (w : Working (Node n m) n m) :
    R w { w with part := { w.part with arrayWritten := w.part.arrayWritten.wait p } }
  text (w : Working (Node n m) n m) : R w { w with part := { w.part with inbox := (w.part.inbox.receive p).2 } }

/-- Relations that put up with processes that are woken, and with applications that a pair service forgets. -/
class Rousing (R : Working (Node n m) n m → Working (Node n m) n m → Prop) : Prop where
  freed (w : Working (Node n m) n m) : R w (Node.notifyMemoryFreed.exec w).2
  written (w : Working (Node n m) n m) : R w (Node.notifyArrayWritten.exec w).2
  news (w : Working (Node n m) n m) : R w (Node.notifyNews.exec w).2
  gone (w : Working (Node n m) n m) (app : Int) : R w ((Pairing.removeApp app).exec w).2

/-- Relations that put up with a pair service that waits for news. -/
class Listening (p : ProcessId) (R : Working (Node n m) n m → Working (Node n m) n m → Prop) : Prop where
  news (w : Working (Node n m) n m) : R w ((Pairing.waitForNews p).exec w).2

/-- Relations that put up with a pair service that waits for news, or for a request. -/
class Standing (p : ProcessId) (R : Working (Node n m) n m → Working (Node n m) n m → Prop) : Prop extends Listening p R where
  request (w : Working (Node n m) n m) :
    R w { w with part.service.requests := (w.part.service.requests.receive p).2 }

/-- Relations that put up with a pair service that waits for a slot, and counts that. -/
class Starving (p : ProcessId) (R : Working (Node n m) n m → Working (Node n m) n m → Prop) : Prop where
  count (w : Working (Node n m) n m) :
    R w { w with part.service.allocationWaits := w.part.service.allocationWaits + 1 }
  slot (w : Working (Node n m) n m) : R w { w with part.memoryFreed := w.part.memoryFreed.wait p }

/-- Relations that put up with slots that are taken and returned, too. -/
class Pooling (R : Working (Node n m) n m → Working (Node n m) n m → Prop) : Prop extends Rousing R where
  pool (w : Working (Node n m) n m) (pool : QubitPool)
    (h : ∀ p, pool.isCommunication p = w.part.pool.isCommunication p) :
    R w { w with part := { w.part with pool := pool } }

/-- Relations that put up with whatever becomes of the memory of one application, but for its program counter. -/
class Granting (app : Int) (R : Working (Node n m) n m → Working (Node n m) n m → Prop) : Prop where
  memory (w : Working (Node n m) n m) (mem mem' : AppMemory) (h : w.part.apps.get? app = some mem)
    (hpc : mem'.pc = mem.pc) : R w { w with part := { w.part with apps := w.part.apps.insert app mem' } }

instance (app : Int) (R : Working (Node n m) n m → Working (Node n m) n m → Prop) [Granting app R] : Filling app R where
  contents w mem mem' h ha := Granting.memory w mem mem' h ha.pc

/-- Relations that put up with whatever one application comes to map. -/
class Housing (app : Int) (R : Working (Node n m) n m → Working (Node n m) n m → Prop) : Prop where
  house (w : Working (Node n m) n m) (mem mem' : AppMemory) (h : w.part.apps.get? app = some mem)
    (hm : mem.Remaps mem') : R w { w with part := { w.part with apps := w.part.apps.insert app mem' } }

instance (app : Int) (R : Working (Node n m) n m → Working (Node n m) n m → Prop) [Granting app R] : Housing app R where
  house w mem mem' h hm := Granting.memory w mem mem' h hm.pc

/-- Relations that put up with entries of one row of a request's results that are set. -/
class Noting (r : EntanglementRequest) (k : Nat) (R : Working (Node n m) n m → Working (Node n m) n m → Prop) : Prop where
  note (w : Working (Node n m) n m) (mem mem' : AppMemory) (i : Nat) (v : Int) (h : w.part.apps.get? r.app = some mem)
    (hi : i < rowLength) (hm : mem.setArrayValue r.resultArray (rowLength * k + i) (some v) = .ok mem') :
    R w { w with part := { w.part with apps := w.part.apps.insert r.app mem' } }

instance (r : EntanglementRequest) (k : Nat) (R : Working (Node n m) n m → Working (Node n m) n m → Prop)
    [Filling r.app R] : Noting r k R where
  note w mem mem' _ _ h _ hm := Filling.contents w mem mem' h (AppMemory.setArrayValue_alike hm)

/-- Relations that put up with the memory of one application that gives up its qubits, or goes. -/
class Wiping (app : Int) (R : Working (Node n m) n m → Working (Node n m) n m → Prop) : Prop where
  unmapped (w : Working (Node n m) n m) (mem : AppMemory) (h : w.part.apps.get? app = some mem) :
    R w { w with part := { w.part with apps := w.part.apps.insert app mem.unmapAll } }
  erased (w : Working (Node n m) n m) : R w { w with part := { w.part with apps := w.part.apps.erase app } }

/-- Relations that put up with memories that are new, give up their qubits, or go. -/
class Clearing (R : Working (Node n m) n m → Working (Node n m) n m → Prop) : Prop where
  fresh (w : Working (Node n m) n m) (app : Int) (h : w.part.apps.get? app = none) :
    R w { w with part := { w.part with apps := w.part.apps.insert app (.new app w.part.pool.size) } }
  unmapped (w : Working (Node n m) n m) (app : Int) (mem : AppMemory) (h : w.part.apps.get? app = some mem) :
    R w { w with part := { w.part with apps := w.part.apps.insert app mem.unmapAll } }
  erased (w : Working (Node n m) n m) (app : Int) :
    R w { w with part := { w.part with apps := w.part.apps.erase app } }

instance (app : Int) (R : Working (Node n m) n m → Working (Node n m) n m → Prop) [Clearing R] : Wiping app R where
  unmapped w mem h := Clearing.unmapped w app mem h
  erased w := Clearing.erased w app

/-- Relations that put up with whatever becomes of memories. -/
class Mapping (R : Working (Node n m) n m → Working (Node n m) n m → Prop) : Prop where
  apps (w : Working (Node n m) n m) (apps : SortedMap Int AppMemory) :
    R w { w with part := { w.part with apps := apps } }

/-- Relations that put up with what becomes of slots and of memories. -/
class Lavish (R : Working (Node n m) n m → Working (Node n m) n m → Prop) : Prop extends Pooling R, Mapping R

/-- Relations that put up with what is told to peers and links. -/
class Vocal (R : Working (Node n m) n m → Working (Node n m) n m → Prop) : Prop where
  tell (w : Working (Node n m) n m) (source target : Fin n) (message : PeerMessage) :
    R w { w with effects := w.effects.push (.tell source target message) }
  abort (w : Working (Node n m) n m) (l : Fin m) (e : LinkEnd) :
    R w { w with effects := w.effects.push (.abortLink l e) }

/-- Relations that put up with a pair service that talks to peers and links, and leaves its flags alone. -/
class Cordial (R : Working (Node n m) n m → Working (Node n m) n m → Prop) : Prop extends Vocal R where
  tend (w : Working (Node n m) n m) (s : PairService n ProcessId) (hr : s.requests = w.part.service.requests)
    (hn : s.news = w.part.service.news) (ha : s.allocationWaits = w.part.service.allocationWaits)
    (hf : s.failed = w.part.service.failed) (hb : s.aborted = w.part.service.aborted)
    (hs : s.sockets = w.part.service.sockets) (hp : s.pending = w.part.service.pending) :
    R w { w with part := { w.part with service := s } }

/-- Relations that put up with one application that is aborted. -/
class Marking (app : Int) (R : Working (Node n m) n m → Working (Node n m) n m → Prop) : Prop where
  mark (w : Working (Node n m) n m) : R w { w with part := { w.part with service := w.part.service.markAborted app } }

/-- Relations that put up with a pair service that talks to peers and links and keeps flags, but for those of requests
that fail. -/
class Affable (R : Working (Node n m) n m → Working (Node n m) n m → Prop) : Prop extends Vocal R where
  hold (w : Working (Node n m) n m) (s : PairService n ProcessId) (hr : s.requests = w.part.service.requests)
    (hn : s.news = w.part.service.news) (ha : s.allocationWaits = w.part.service.allocationWaits)
    (hf : ∀ app, app ∈ s.failed → app ∈ w.part.service.failed) (hs : s.sockets = w.part.service.sockets)
    (hp : s.pending = w.part.service.pending) : R w { w with part := { w.part with service := s } }

instance (R : Working (Node n m) n m → Working (Node n m) n m → Prop) [Affable R] : Cordial R where
  tend w s hr hn ha hf _ hs hp := Affable.hold w s hr hn ha (fun _ h => hf ▸ h) hs hp

instance (app : Int) (R : Working (Node n m) n m → Working (Node n m) n m → Prop) [Affable R] : Marking app R where
  mark w := Affable.hold w _ rfl rfl rfl (fun _ h => h) rfl rfl

/-- Relations that put up with requests of one application that fail. -/
class Blaming (app : Int) (R : Working (Node n m) n m → Working (Node n m) n m → Prop) : Prop where
  blame (w : Working (Node n m) n m) : R w { w with part := { w.part with service := w.part.service.markFailed app } }

instance (app : Int) (R : Working (Node n m) n m → Working (Node n m) n m → Prop) [Mapping R] : Granting app R where
  memory w _ _ _ _ := Mapping.apps w _

instance (app : Int) (R : Working (Node n m) n m → Working (Node n m) n m → Prop) [Mapping R] : Counting app R where
  count w _ _ _ := Mapping.apps w _

instance (R : Working (Node n m) n m → Working (Node n m) n m → Prop) [Mapping R] : Clearing R where
  fresh w _ _ := Mapping.apps w _
  unmapped w _ _ _ := Mapping.apps w _
  erased w _ := Mapping.apps w _

end Working

open Working

namespace Work

/-- Work whose relation is said to be this one. -/
theorem Within.still {α : Type} {x : Work (Node n m) n m α} (h : Within Still x) : Within Still x := h

theorem Within.calm {α : Type} {x : Work (Node n m) n m α} (h : Within Still x) : Within Calm x :=
  h.mono fun _ _ h => h.toCalm

theorem Within.thrifty {α : Type} {x : Work (Node n m) n m α} (h : Within Still x) : Within Thrifty x :=
  h.mono fun _ _ h => h.toThrifty

theorem emit_still {e : Effect n m} (h : e.isLoud = false) : Within Still (emit e : Work (Node n m) n m Unit) :=
  fun _ => ⟨⟨loud_push_of_not h, rfl, rfl, rfl, rfl⟩, .of_eq rfl rfl rfl⟩

theorem resume_still (p : ProcessId) (wake : Wake) (h : ∀ a, wake ≠ .answer a) :
    Within Still (resume p wake : Work (Node n m) n m Unit) :=
  emit_still (by
    cases wake with
    | answer a => exact absurd rfl (h a)
    | _ => rfl)

theorem wakeAll_still (ps : List ProcessId) : Within Still (wakeAll ps : Work (Node n m) n m Unit) :=
  .forM (fun p => resume_still p .go nofun) ps

end Work

end QuantumNode
