import QuantumNode.Network.Client
import QuantumNode.Proofs.Work.Run

/-! Runs of a network, step by step, with whatever its client does between two steps. A run ends at the first
fault. -/
namespace QuantumNode

variable {n m : Nat}

/-- What a client may ask of a node. -/
inductive NodeAct where
  | register (maxQubits : Nat)
  | declare (app address : Int) (values : ArrayValues)
  | openSocket (app socket remote : Int)
  | submit (r : EntanglementRequest)
  | abort (app : Int)
  /-- Stops an application at once, whatever the node is doing. -/
  | stop (app : Int)
  | clearOnStop (clear : Bool)

def NodeAct.work : NodeAct → NodeWork n m Unit
  | register maxQubits => do let _ ← Dispatch.initApp maxQubits
  | declare app address values =>
    Node.updateMemory app fun mem => .ok { mem with arrays := mem.arrays.insert address values }
  | openSocket app socket remote => Pairing.openSocket app socket remote
  | submit r => Node.submit r
  | abort app => Pairing.abort app
  | stop app => Dispatch.stopApp app
  | clearOnStop clear => Dispatch.modifyDispatcher fun d => { d with clearOnStop := clear }

/-- What a client may do to a network. -/
inductive ClientAct (n : Nat) where
  | atNode (i : Fin n) (a : NodeAct)
  /-- A text for a node, as if from its host. -/
  | post (i : Fin n) (text : String)
  | enqueue (i : Fin n) (p : Program) (times : Nat)
  | alarm (delay k : Nat)

def ClientAct.run (s : Network n m) : ClientAct n → Except Fault Unit × Network n m
  | atNode i a => s.atNode i a.work
  | post i text => (.ok (), s.send (.toNode i) text)
  | enqueue i p times => (.ok (), s.enqueue i p times)
  | alarm delay k => (.ok (), s.schedule delay (.alarm k))

namespace Network

/-- One step of a network by itself: a small step of the process that goes on, or the next event. -/
inductive Moves (s : Network n m) : Network n m → Prop where
  | start (hc : s.current = none) : Moves s s.start
  | proceed {s' : Network n m} (h : s.proceed = .went s') : Moves s s'
  | begin {limit : Nat} {e : NetworkEvent n m} {a : Agenda (NetworkEvent n m)} (hc : s.current = none)
      (h : s.agenda.next limit = .event e a) : Moves s ({ s with agenda := a }.begin e).2
  | wait {limit : Nat} {a : Agenda (NetworkEvent n m)} (hc : s.current = none)
      (h : s.agenda.next limit = .later a) : Moves s { s with agenda := a }

/-- A state of a run, and what the client does in it; without an act the network moves by itself. -/
structure Moment (n m : Nat) where
  state : Network n m
  act : Option (ClientAct n)

/-- Runs from a freshly built network in which a client acts as it may: the moments that have passed, latest first,
and the state that has been reached. -/
inductive Trace (c : NetworkConfig) (may : ClientAct c.nodes.length → Prop) :
    List (Moment c.nodes.length c.links.length) → Network c.nodes.length c.links.length → Prop where
  | built {s : Network c.nodes.length c.links.length} (h : build c = .ok s) : Trace c may [] s
  | move {past : List (Moment c.nodes.length c.links.length)} {s s' : Network c.nodes.length c.links.length}
      (h : Trace c may past s) (hm : s.Moves s') : Trace c may (⟨s, none⟩ :: past) s'
  | act {past : List (Moment c.nodes.length c.links.length)} {s s' : Network c.nodes.length c.links.length}
      (h : Trace c may past s) (a : ClientAct c.nodes.length) (ha : may a) (hc : s.current = none)
      (hr : a.run s = (.ok (), s')) : Trace c may (⟨s, some a⟩ :: past) s'

/-- States that a run can reach. -/
def Reachable (c : NetworkConfig) (may : ClientAct c.nodes.length → Prop)
    (s : Network c.nodes.length c.links.length) : Prop := ∃ past, Trace c may past s

theorem current_eq_none {s : Network n m} (h : s.proceed = .settled) : s.current = none := by
  unfold proceed stepProcess failProcess at h
  split at h
  · assumption
  · repeat' split at h
    all_goals exact nomatch h

theorem proceed_of_idle {s : Network n m} (h : s.current = none) : s.proceed = .settled := by
  unfold proceed
  rw [h]

section Reachable

variable {c : NetworkConfig} {may : ClientAct c.nodes.length → Prop} {s s' : Network c.nodes.length c.links.length}

theorem Reachable.built (h : build c = .ok s) : Reachable c may s := ⟨[], .built h⟩

theorem Reachable.move (h : Reachable c may s) (hm : s.Moves s') : Reachable c may s' := by
  obtain ⟨past, ht⟩ := h
  exact ⟨_, .move ht hm⟩

theorem Reachable.act (h : Reachable c may s) (a : ClientAct c.nodes.length) (ha : may a) (hc : s.current = none)
    (hr : a.run s = (.ok (), s')) : Reachable c may s' := by
  obtain ⟨past, ht⟩ := h
  exact ⟨_, .act ht a ha hc hr⟩

/-- A run that meets no fault reaches the state in which it leaves the network. -/
theorem Reachable.run (h : Reachable c may s) (limit fuel events : Nat)
    (hf : ∀ f, (World.run limit fuel events s).halt ≠ .failed f) :
    Reachable c may (World.run limit fuel events s).world := by
  induction fuel generalizing s events with
  | zero => exact h
  | succ fuel ih =>
    rw [World.run] at hf ⊢
    split at hf
    · rename_i s₁ hp
      exact ih (h.move (.proceed hp)) events hf
    · exact absurd rfl (hf _)
    · rename_i hp
      have hc : s.current = none := current_eq_none hp
      split at hf
      · exact h
      · rename_i a ha
        exact h.move (.wait hc ha)
      · rename_i e a ha
        split at hf
        · rename_i s₁ hb
          have hm := Moves.begin hc ha
          change begin { s with agenda := a } e = (none, s₁) at hb
          rw [hb] at hm
          exact ih (h.move hm) _ hf
        · rename_i k s₁ hb
          have hm := Moves.begin hc ha
          change begin { s with agenda := a } e = (some k, s₁) at hb
          rw [hb] at hm
          exact h.move hm

end Reachable

end Network

end QuantumNode
