import QuantumNode.Proofs.Node.Primitive
import QuantumNode.Proofs.Work.Run

/-! Work that does not fail, and what it comes to. -/
namespace QuantumNode.Work

variable {σ α β : Type} {n m : Nat}

/-- Work that succeeds, with a postcondition of its result and of the state after it. -/
def Attains (x : Work σ n m α) (w : Working σ n m) (Q : α → Working σ n m → Prop) : Prop :=
  ∃ a w', x.exec w = (.ok a, w') ∧ Q a w'

namespace Attains

variable {x : Work σ n m α} {w : Working σ n m} {Q : α → Working σ n m → Prop} {R : β → Working σ n m → Prop}

theorem mono (h : Attains x w Q) {Q' : α → Working σ n m → Prop} (hle : ∀ a w', Q a w' → Q' a w') : Attains x w Q' := by
  obtain ⟨a, w', he, hq⟩ := h
  exact ⟨a, w', he, hle a w' hq⟩

theorem pure {a : α} (h : Q a w) : Attains (Pure.pure a) w Q := ⟨a, w, rfl, h⟩

theorem bind {f : α → Work σ n m β} (h : Attains x w fun a w' => Attains (f a) w' R) : Attains (x >>= f) w R := by
  obtain ⟨a, w', he, b, w'', hf, hr⟩ := h
  exact ⟨b, w'', exec_bind_ok.2 ⟨a, w', he, hf⟩, hr⟩

/-- A first step whose result is known. -/
theorem next {f : α → Work σ n m β} {a : α} {w' : Working σ n m} (hx : x.exec w = (.ok a, w'))
    (h : Attains (f a) w' R) : Attains (x >>= f) w R := bind ⟨a, w', hx, h⟩

theorem part {f : σ → Work σ n m β} (h : Attains (f w.part) w R) : Attains (Work.part >>= f) w R := h

theorem setPart {s : σ} {f : Unit → Work σ n m β} (h : Attains (f ()) { w with part := s } R) :
    Attains (Work.setPart s >>= f) w R := h

theorem modifyPart {g : σ → σ} {f : Unit → Work σ n m β} (h : Attains (f ()) { w with part := g w.part } R) :
    Attains (Work.modifyPart g >>= f) w R := h

theorem ofExcept {r : Except Fault α} {f : α → Work σ n m β} {a : α} (hr : r = .ok a) (h : Attains (f a) w R) :
    Attains (Work.ofExcept r >>= f) w R := by
  subst hr
  exact h

/-- What is attempted and succeeds is as good as done. -/
theorem attempt {f : Except Fault α → Work σ n m β} (h : Attains x w fun a w' => Attains (f (.ok a)) w' R) :
    Attains (Work.attempt x >>= f) w R := by
  obtain ⟨a, w', he, b, w'', hf, hr⟩ := h
  refine ⟨b, w'', exec_bind_ok.2 ⟨.ok a, w', ?_, hf⟩, hr⟩
  rw [exec_attempt, he]

theorem ite_neg {c : Prop} [Decidable c] {y : Work σ n m α} (hc : ¬ c) (h : Attains y w Q) :
    Attains (if c then x else y) w Q := by
  rwa [if_neg hc]

/-- Work that succeeds within a relation. -/
theorem within {S : Working σ n m → Working σ n m → Prop} (h : Attains x w Q) (hs : Within S x) :
    Attains x w fun a w' => S w w' ∧ Q a w' := by
  obtain ⟨a, w', he, hq⟩ := h
  exact ⟨a, w', he, hs.of_exec he, hq⟩

/-- Work that succeeds, and what is known of it if it does. -/
theorem ends (h : Attains x w Q) {P : α → Working σ n m → Prop} (he : Ends x w P) :
    Attains x w fun a w' => P a w' ∧ Q a w' := by
  obtain ⟨a, w', hx, hq⟩ := h
  exact ⟨a, w', hx, he a w' hx, hq⟩

/-- Work that succeeds meets no fault. -/
theorem halts (h : Attains x w Q) {P : Working σ n m → Prop} : Halts x w P := by
  obtain ⟨a, w', he, -⟩ := h
  exact .of_ok (by rw [he])

theorem forM {γ : Type} {f : γ → Work σ n m PUnit} {I : Working σ n m → Prop}
    (hf : ∀ c w, I w → Attains (f c) w fun _ w' => I w') (l : List γ) {w : Working σ n m} (h : I w) :
    Attains (l.forM f) w fun _ w' => I w' := by
  induction l generalizing w with
  | nil => exact pure h
  | cons c l ih => exact bind ((hf c w h).mono fun _ _ h' => ih h')

end Attains

/-- Work that ends in a fault, with a postcondition of the fault and of the state after it. -/
def Breaks (x : Work σ n m α) (w : Working σ n m) (Q : Fault → Working σ n m → Prop) : Prop :=
  ∃ e w', x.exec w = (.error e, w') ∧ Q e w'

namespace Breaks

variable {x : Work σ n m α} {w : Working σ n m} {Q : Fault → Working σ n m → Prop}

theorem fail {e : Fault} (h : Q e w) : Breaks (Work.fail e : Work σ n m α) w Q := ⟨e, w, rfl, h⟩

theorem bind {f : α → Work σ n m β} (h : Attains x w fun a w' => Breaks (f a) w' Q) : Breaks (x >>= f) w Q := by
  obtain ⟨a, w', hx, e, w'', hf, hq⟩ := h
  exact ⟨e, w'', (exec_bind_of_ok hx).trans hf, hq⟩

/-- A first step whose result is known. -/
theorem next {f : α → Work σ n m β} {a : α} {w' : Working σ n m} (hx : x.exec w = (.ok a, w')) (h : Breaks (f a) w' Q) :
    Breaks (x >>= f) w Q := bind ⟨a, w', hx, h⟩

/-- The first step ends in a fault. -/
theorem first {f : α → Work σ n m β} (h : Breaks x w Q) : Breaks (x >>= f) w Q := by
  obtain ⟨e, w', hx, hq⟩ := h
  exact ⟨e, w', by rw [exec_bind, hx], hq⟩

theorem part {f : σ → Work σ n m β} (h : Breaks (f w.part) w Q) : Breaks (Work.part >>= f) w Q := h

/-- What is attempted ends in a fault, and so does what is done then. -/
theorem attempt {f : Except Fault α → Work σ n m β} (h : Breaks x w fun e w' => Breaks (f (.error e)) w' Q) :
    Breaks (Work.attempt x >>= f) w Q := by
  obtain ⟨e, w', hx, h⟩ := h
  exact bind ⟨.error e, w', by rw [exec_attempt, hx], h⟩

end Breaks

end QuantumNode.Work

/-! What small pieces of a node's work come to where nothing is in their way. -/
namespace QuantumNode.Node

open Work

variable {n m : Nat} {w : Working (Node n m) n m} {app : Int} {mem mem' : AppMemory}

theorem log_attains (level : LogLevel) (kind text : String) :
    Attains (log level kind text) w fun _ w' => w'.part = w.part := ⟨_, _, rfl, rfl⟩

theorem memory_attains (h : w.part.apps.get? app = some mem) :
    Attains (memory app) w fun a w' => a = mem ∧ w' = w := by
  refine ⟨mem, w, ?_, rfl, rfl⟩
  rw [exec_memory, h]

theorem updateMemory_attains (h : w.part.apps.get? app = some mem) {f : AppMemory → Except Fault AppMemory}
    (hf : f mem = .ok mem') : Attains (updateMemory app f) w fun _ w' =>
      w' = { w with part := { w.part with apps := w.part.apps.insert app mem' } } := by
  refine ⟨(), _, ?_, rfl⟩
  rw [exec_updateMemory, h]
  dsimp only
  rw [hf]

theorem setPc_attains (h : w.part.apps.get? app = some mem) (f : AppMemory → Nat) :
    Attains (updateMemory app fun mem => .ok { mem with pc := f mem }) w fun _ w' =>
      w' = { w with part := { w.part with apps := w.part.apps.insert app { mem with pc := f mem } } } :=
  updateMemory_attains h rfl

theorem notifyMemoryFreed_attains : Attains notifyMemoryFreed w fun _ _ => True :=
  .part <| .setPart <| .forM (I := fun _ => True) (fun _ _ _ => ⟨_, _, rfl, trivial⟩) _ trivial

theorem notifyNews_attains : Attains notifyNews w fun _ _ => True :=
  .part <| .setPart <| .forM (I := fun _ => True) (fun _ _ _ => ⟨_, _, rfl, trivial⟩) _ trivial

/-- A slot that is allocated can be freed. -/
theorem freeQubit_attains {p : Nat} (h : w.part.pool.isAllocated p = true) : Attains (freeQubit p) w fun _ _ => True := by
  have hfree : w.part.pool.free p = .ok (w.part.pool.setAllocated p false) := if_pos h
  refine .bind <| .part <| .ofExcept hfree ⟨_, _, rfl, ?_⟩
  exact .bind <| (log_attains _ _ _).mono fun _ _ _ => notifyMemoryFreed_attains

/-- A node with a generic device, all of its slots free, that holds the memory of one application. -/
def lone (app : Int) (qubits : Nat) : Node 1 0 where
  id := 0
  name := "alice"
  device := .new (.generic { GenericDevice.standard with numQubits := qubits }) 0
  pool := .generic qubits 0
  apps := SortedMap.empty.insert app (.new app qubits)
  memoryFreed := .new
  arrayWritten := .new
  inbox := .new 0
  ports := .new
  service := .new (Vector.replicate 1 0)
  dispatcher := .new
  executed := 0
  relocations := 0

/-- At work there. -/
def atWork (node : Node 1 0) : Working (Node 1 0) 1 0 := ⟨node, ⟨.zero node.pool.size, .ofSeed 0⟩, 0, #[]⟩

end QuantumNode.Node
