import QuantumNode.Proofs.Node.Books
import QuantumNode.Proofs.Node.Dispatch
import QuantumNode.Proofs.Node.Service

/-! Which applications a node has a memory for. Their ids are handed out in ascending order, so none is used twice: an
application that has gone does not come back. -/
namespace QuantumNode

open Node Work Working

variable {n m : Nat} {app : Int}

/-- Every application with a memory got its id when it was registered. -/
def Node.Enrolled (node : Node n m) : Prop := ∀ app, node.hasApp app = true → app < node.dispatcher.nextApp

/-- The memory of an application has been there, and is no longer. -/
def Node.Gone (node : Node n m) (app : Int) : Prop := node.hasApp app = false ∧ app < node.dispatcher.nextApp

/-- Applications that come to have a memory get the next ids. -/
structure Working.Enrols (w w' : Working (Node n m) n m) : Prop where
  next : w.part.dispatcher.nextApp ≤ w'.part.dispatcher.nextApp
  joins : ∀ app, w'.part.hasApp app = true → w.part.hasApp app = true ∨
    (w.part.dispatcher.nextApp ≤ app ∧ app < w'.part.dispatcher.nextApp)

namespace Working.Enrols

variable {w w₁ w₂ : Working (Node n m) n m}

theorem trans (h : Enrols w w₁) (h' : Enrols w₁ w₂) : Enrols w w₂ := by
  refine ⟨Nat.le_trans h.next h'.next, fun app happ => ?_⟩
  have hnext := h.next
  have hnext' := h'.next
  rcases h'.joins app happ with happ₁ | ⟨hle, hlt⟩
  · exact (h.joins app happ₁).imp_right fun ⟨hle, hlt⟩ => ⟨hle, by omega⟩
  · exact .inr ⟨by omega, hlt⟩

theorem enrolled (h : Enrols w w₁) (he : w.part.Enrolled) : w₁.part.Enrolled := fun app happ => by
  have hnext := h.next
  rcases h.joins app happ with happ | ⟨-, hlt⟩
  · have := he app happ
    omega
  · exact hlt

theorem gone (h : Enrols w w₁) (hg : w.part.Gone app) : w₁.part.Gone app := by
  have hnext := h.next
  obtain ⟨hno, hlt⟩ := hg
  refine ⟨Bool.eq_false_iff.2 fun happ => ?_, by omega⟩
  rcases h.joins app happ with happ | ⟨hle, -⟩
  · exact absurd (happ.symm.trans hno) nofun
  · omega

/-- The ids are those that there were, and nobody joins. -/
theorem of_apps (hn : w.part.dispatcher.nextApp ≤ w₁.part.dispatcher.nextApp)
    (ha : ∀ app, w₁.part.hasApp app = true → w.part.hasApp app = true) : Enrols w w₁ :=
  ⟨hn, fun app happ => .inl (ha app happ)⟩

theorem of_insert {mem mem' : AppMemory} (h : w.part.apps.get? app = some mem) :
    Enrols w { w with part := { w.part with apps := w.part.apps.insert app mem' } } :=
  of_apps (Nat.le_refl _) fun other ho => by
    by_cases heq : other = app
    · rw [heq, hasApp, SortedMap.contains, h]
      rfl
    · rwa [hasApp, SortedMap.contains, SortedMap.get?_insert_of_ne _ heq] at ho

end Working.Enrols

instance : Bookish (Enrols : Working (Node n m) n m → Working (Node n m) n m → Prop) where
  trans _ _ _ := Enrols.trans
  same h := .of_apps (Nat.le_of_eq (by rw [h.dispatcher])) fun app happ => by rwa [hasApp, h.apps] at happ

instance : Mild (Enrols : Working (Node n m) n m → Working (Node n m) n m → Prop) where
  toTame := tame_of_contents fun _ _ _ _ h _ => .of_insert h
  memory _ _ _ _ h _ := .of_insert h

instance : Steering (Enrols : Working (Node n m) n m → Working (Node n m) n m → Prop) where
  dispatcher _ _ h := .of_apps h fun _ happ => happ
  reply _ _ _ := .of_apps (Nat.le_refl _) fun _ happ => happ

/-- Work whose relation is said to be this one. -/
theorem Work.Within.enrols {α : Type} {x : NodeWork n m α} (h : Within Enrols x) : Within Enrols x := h

instance : Granting app (Enrols : Working (Node n m) n m → Working (Node n m) n m → Prop) where
  memory _ _ _ h _ := .of_insert h

instance : Wiping app (Enrols : Working (Node n m) n m → Working (Node n m) n m → Prop) where
  unmapped _ _ h := .of_insert h
  erased _ := .of_apps (Nat.le_refl _) fun other ho => by
    by_cases heq : other = app
    · simp [heq, hasApp, SortedMap.contains] at ho
    · rwa [hasApp, SortedMap.contains, SortedMap.get?_erase_of_ne _ heq] at ho

namespace Dispatch

/-- The next id goes to an application that gets a memory. -/
theorem join_enrols {α : Type} {x : NodeWork n m α} (hx : Within Enrols x) (w : Working (Node n m) n m) :
    Enrols w ((do
      modifyDispatcher fun d => { d with nextApp := d.nextApp + 1 }
      addApp w.part.dispatcher.nextApp
      x : NodeWork n m α).exec w).2 := by
  let d := { w.part.dispatcher with nextApp := w.part.dispatcher.nextApp + 1 }
  let w₁ : Working (Node n m) n m := { w with part := { w.part with dispatcher := d } }
  change Enrols w ((do addApp w.part.dispatcher.nextApp; x : NodeWork n m α).exec w₁).2
  rw [exec_bind, exec_addApp]
  by_cases happ : w₁.part.hasApp w.part.dispatcher.nextApp = true
  · rw [if_pos happ]
    exact .of_apps (Nat.le_succ _) fun _ happ => happ
  · rw [if_neg happ]
    refine IsTrans.trans _ _ _ ⟨Nat.le_succ _, fun app happ => ?_⟩ (hx _)
    by_cases heq : app = w.part.dispatcher.nextApp
    · refine .inr ⟨Int.le_of_eq heq.symm, ?_⟩
      change app < ((w.part.dispatcher.nextApp + 1 : Nat) : Int)
      omega
    · rw [hasApp, SortedMap.contains, SortedMap.get?_insert_of_ne _ heq] at happ
      exact .inl happ

theorem initApp_enrols (maxQubits : Nat) : Within Enrols (initApp maxQubits : NodeWork n m Int) :=
  .of_part fun w => join_enrols ((modifyDispatcher_steering _).bind fun _ => Within.part.bind fun _ => announce_mild _ _ _) w

instance : Enrolling (Enrols : Working (Node n m) n m → Working (Node n m) n m → Prop) := ⟨initApp_enrols⟩

theorem step_enrols (p : ProcessId) (stage : DispatchStage) (wake : Wake) :
    Within Enrols (step p stage wake : NodeWork n m (Step m)) :=
  step_enrolling p stage wake fun _ e _ => Execution.step_granting p e fun _ _ _ _ _ => inferInstance

end Dispatch

theorem Pairing.step_enrols (p : ProcessId) (stage : PairStage) (wake : Wake) :
    Within Enrols (step p stage wake : NodeWork n m (Step m)) :=
  step_within p stage wake (fun _ _ => inferInstance) fun _ _ => inferInstance

end QuantumNode
