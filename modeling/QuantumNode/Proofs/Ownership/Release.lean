import QuantumNode.Proofs.Network.Bystander
import QuantumNode.Proofs.Node.Books
import QuantumNode.Proofs.Node.Service
import QuantumNode.Proofs.Ownership.Dispatch
import QuantumNode.Proofs.Ownership.Network

/-! What an application holds once it has been told that a subroutine of it was aborted. It maps nothing then, and goes on
mapping nothing until a subroutine uses its memory, or a half of a pair for it arrives. Such a half may belong to a request
from before, since requests outlive the subroutine that has submitted them. -/
namespace QuantumNode

open Node Work Working

variable {n m : Nat}

/-! Applications that map nothing. A qubit comes to an application by a subroutine of its own, or by a half of a pair
that it keeps; whatever else a node does leaves an application that maps nothing so. -/

section

/-- An application maps no qubit. -/
def Node.Bare (node : Node n m) (app : Int) : Prop := ∀ virt p, ¬ node.Maps app virt p

theorem Node.Gone.bare {node : Node n m} {app : Int} (h : node.Gone app) : node.Bare app := fun virt p ⟨mem, hmem, _⟩ => by
  simp [Gone, hasApp, SortedMap.contains, hmem] at h

/-- An application that maps nothing comes to map nothing. -/
def Working.StaysBare (app : Int) (w w' : Working (Node n m) n m) : Prop := w.part.Bare app → w'.part.Bare app

variable {app : Int}

namespace Working.StaysBare

variable {w w' : Working (Node n m) n m}

theorem of_maps (h : ∀ virt p, w'.part.Maps app virt p → w.part.Maps app virt p) : StaysBare app w w' :=
  fun hb virt p hm => hb virt p (h virt p hm)

theorem of_apps (h : w'.part.apps = w.part.apps) : StaysBare app w w' := of_maps fun virt p => (maps_congr h app virt p).1

theorem of_thrifty (h : Thrifty w w') : StaysBare app w w' := of_maps fun virt p => (h.maps app virt p).1

end Working.StaysBare

instance : Bookish (StaysBare app : Working (Node n m) n m → Working (Node n m) n m → Prop) where
  trans _ _ _ h h' hb := h' (h hb)
  same h := .of_apps h.apps

instance : Mild (StaysBare app : Working (Node n m) n m → Working (Node n m) n m → Prop) where
  toTame := tame_of_contents fun w other mem mem' h ha => .of_thrifty (Tame.contents w other mem mem' h ha)
  memory w other mem mem' h hq := .of_thrifty (Mild.memory w other mem mem' h hq)

instance : Steering (StaysBare app : Working (Node n m) n m → Working (Node n m) n m → Prop) where
  dispatcher _ _ _ := .of_apps rfl
  reply _ _ _ := .of_apps rfl

instance : Clearing (StaysBare app : Working (Node n m) n m → Working (Node n m) n m → Prop) where
  fresh w other h := .of_maps fun virt p hm => by
    rw [maps_insert] at hm
    split at hm
    · simp at hm
    · exact hm
  unmapped w other mem _ := .of_maps fun virt p hm => by
    rw [maps_insert] at hm
    split at hm
    · simp at hm
    · exact hm
  erased w other := .of_maps fun virt p ⟨mem, hmem, hp⟩ => by
    by_cases ha : app = other
    · subst ha
      simp at hmem
    · exact ⟨mem, SortedMap.get?_erase_of_ne _ ha ▸ hmem, hp⟩

/-- Nor does it matter what becomes of another application. -/
theorem granting_of_ne {other : Int} (h : other ≠ app) :
    Granting other (StaysBare app : Working (Node n m) n m → Working (Node n m) n m → Prop) where
  memory w _ _ _ _ := .of_maps fun virt p hm => by
    rwa [maps_insert, if_neg h.symm] at hm

/-- A pair service maps a qubit of an application when it has a half for it to keep. -/
theorem Pairing.step_bare (p : ProcessId) {stage : PairStage} {wake : Wake} (h : keeps app stage wake = false) :
    Within (StaysBare app) (step p stage wake : NodeWork n m (Step m)) := by
  refine step_within p stage wake (fun _ _ => inferInstance) fun other ho => granting_of_ne fun he => ?_
  rw [he, h] at ho
  exact nomatch ho

variable {w : Working (Node n m) n m}

/-- A subroutine of another application maps nothing of this one: a qubit that makes way for another has been mapped. -/
theorem Execution.step_bare (p : ProcessId) {e : Execution} (hne : e.app ≠ app) (hs : w.part.Sound e.app e.stage)
    (hb : w.part.Bare app) (hg : ¬ w.part.Gone app) : Within (StaysBare app) (step p e : NodeWork n m (Step m)) := by
  have := granting_of_ne (n := n) (m := m) hne
  refine step_granting p e fun r owner c steps hst => granting_of_ne fun ho => ?_
  rw [hst] at hs
  rcases hs.2.2 with hmaps | hgone
  · exact hb owner.2 0 (ho ▸ hmaps)
  · exact hg (ho ▸ hgone)

namespace Dispatch

/-- A dispatcher maps a qubit of an application in a subroutine that uses its memory. -/
theorem step_bare (p : ProcessId) {stage : DispatchStage} (wake : Wake) (hs : w.part.Serves stage)
    (hne : ∀ k e, stage = .running k e → e.app ≠ app) (hb : w.part.Bare app) :
    ((step p stage wake).exec w).2.part.Bare app := by
  by_cases hg : w.part.Gone app
  · exact ((step_enrols p stage wake w).gone hg).bare
  · have hstep : Within (StaysBare app) (step p stage wake : NodeWork n m (Step m)) :=
      step_enrolling p stage wake fun k e hst => by
        rw [hst] at hs
        exact Execution.step_bare p (hne k e hst) hs hb hg
    exact hstep w hb

/-- Work after which an application maps nothing, also if it ends in a fault. -/
def LeavesBare {α : Type} (app : Int) (x : NodeWork n m α) : Prop := ∀ w, (x.exec w).2.part.Bare app

theorem LeavesBare.bind {α β : Type} {x : NodeWork n m α} {f : α → NodeWork n m β} (hx : LeavesBare app x)
    (hf : ∀ a, Within (StaysBare app) (f a)) : LeavesBare app (x >>= f) := fun w =>
  exec_bind_keeps (P := fun w => w.part.Bare app) (hx w) fun a w' hb => hf a w' hb

/-- An application that is cleared maps nothing, even where a slot of it cannot be freed. -/
theorem clearApp_bare : LeavesBare app (clearApp app false : NodeWork n m Unit) := fun w => by
  rcases hmem : w.part.apps.get? app with _ | mem
  · have hb : w.part.Bare app := fun v q ⟨mem, hget, _⟩ => nomatch hmem.symm.trans hget
    exact clearApp_wiping (R := StaysBare app) app false w hb
  · let w₁ : Working (Node n m) n m := { w with part := { w.part with apps := w.part.apps.insert app mem.unmapAll } }
    have hb : w₁.part.Bare app := fun v q hq => by
      rw [maps_insert, if_pos rfl] at hq
      simp at hq
    have he : (clearApp app false).exec w = (do mem.mapped.forM freeQubit; pure () : NodeWork n m Unit).exec w₁ := by
      simp [clearApp, hasApp, SortedMap.contains, hmem, memory, setMemory, exec_bind, w₁]
    have hrest : Within (StaysBare app) (do mem.mapped.forM freeQubit; pure () : NodeWork n m Unit) :=
      (Within.forM (fun _ => freeQubit_pooling _) _).bind fun _ => .pure _
    rw [he]
    exact hrest w₁ hb

/-- An application that is told that a subroutine of it has been aborted maps nothing. -/
theorem answer_bare : LeavesBare app (answer app .aborted : NodeWork n m (Step m)) := fun _ =>
  (clearApp_bare.bind fun _ => (reply_steering _).bind fun _ => .pure _ : LeavesBare app _) _

end Dispatch

end

/-! Along a run. -/

theorem Node.Bare.congr {x y : Node n m} {app : Int} (h : x.Bare app) (hs : x.SameSlots y) : y.Bare app :=
  fun virt p hm => h virt p ((maps_congr hs.apps ..).1 hm)

namespace Network

/-- The dispatcher of a node goes on with a subroutine that uses the memory of an application. -/
def Runs (s : Network n m) (i : Fin n) (app : Int) : Prop :=
  (∃ wake, s.current = some (dispatchId i, wake)) ∧ ∃ k e, s.dispatchStage i = .running k e ∧ e.app = app

/-- The pair service of a node goes on with a half of a pair that an application is to keep. -/
def Keeps (s : Network n m) (i : Fin n) (app : Int) : Prop :=
  ∃ wake, s.current = some (pairId i, wake) ∧ Pairing.keeps app (s.pairStage i) wake = true

variable {s s' : Network n m} {i : Fin n} {app : Int} {cause : Cause n}

/-- A step that is neither of a subroutine of an application nor of a half of a pair for it. -/
theorem Reaches.bare (h : s.Reaches i cause s') (hs : (s.node i).Serves (s.dispatchStage i)) (hr : ¬ s.Runs i app)
    (hk : ¬ s.Keeps i app) (hb : (s.node i).Bare app) : (s'.node i).Bare app := by
  cases h with
  | spares hslots _ _ _ => exact hb.congr hslots
  | works hshift hslots _ =>
    refine Bare.congr ?_ hslots
    cases hshift with
    | labour hc hx now => exact hx.sociable (R := StaysBare app) _ hb
    | @pairing wake hc =>
      have hkeeps : Pairing.keeps app (s.pairStage i) wake = false := Bool.eq_false_iff.2 fun hkeeps => hk ⟨wake, hc, hkeeps⟩
      exact Pairing.step_bare (pairId i) hkeeps (s.working i) hb
    | @dispatch wake hc =>
      exact Dispatch.step_bare (dispatchId i) wake hs (fun k e hst happ => hr ⟨⟨wake, hc⟩, k, e, hst, happ⟩) hb

/-- An application is told that a subroutine of it has been aborted. -/
theorem Reaches.bare_of_aborting {e : Execution} (h : s.Reaches i cause s') (ha : s.Aborting i app e) :
    (s'.node i).Bare app := by
  obtain ⟨⟨wake, hcur⟩, hst, w, hstep⟩ := ha
  cases h with
  | spares _ _ _ hdispatch =>
    rw [hdispatch (congrArg (Option.map Prod.fst) hcur)] at hst
    exact nomatch hst
  | works hshift hslots _ =>
    refine Bare.congr ?_ hslots
    cases hshift with
    | labour hc _ _ => exact nomatch hc.symm.trans hcur
    | pairing hc =>
      rw [hc] at hcur
      exact absurd (congrArg Prod.fst (Option.some.inj hcur)) (pairId_ne_dispatchId i i)
    | dispatch _ =>
      rw [hst, Dispatch.step, exec_bind, hstep]
      exact Dispatch.answer_bare w

/-- An application has been told that a subroutine of it was aborted, and since then no subroutine has used its memory and
no half of a pair has been for it. -/
def Released (i : Fin n) (app : Int) (past : List (Moment n m)) : Prop :=
  ∃ later x earlier e, past = later ++ x :: earlier ∧ x.state.Aborting i app e ∧
    ∀ y ∈ later, ¬ y.state.Runs i app ∧ ¬ y.state.Keeps i app

/-- The latest moment is the one in question, or one after it. -/
theorem Released.cons {x : Moment n m} {past : List (Moment n m)} (h : Released i app (x :: past)) :
    (∃ e, x.state.Aborting i app e) ∨ Released i app past ∧ ¬ x.state.Runs i app ∧ ¬ x.state.Keeps i app := by
  obtain ⟨later, y, earlier, e, hpast, ha, hlater⟩ := h
  cases later with
  | nil =>
    obtain ⟨rfl, -⟩ := List.cons.inj hpast
    exact .inl ⟨e, ha⟩
  | cons z later =>
    obtain ⟨rfl, rfl⟩ := List.cons.inj hpast
    exact .inr ⟨⟨later, y, earlier, e, rfl, ha, fun w hw => hlater w (List.mem_cons_of_mem _ hw)⟩,
      hlater x List.mem_cons_self⟩

/-- Along every run, an application maps nothing from the moment at which it is told that a subroutine of it was aborted
until a subroutine uses its memory, or a half of a pair that it is to keep arrives. -/
theorem aborted_apps_map_nothing {c : NetworkConfig} {past : List (Moment c.nodes.length c.links.length)}
    {s : Network c.nodes.length c.links.length} (h : Trace c ClientAct.Orderly past s) (i : Fin c.nodes.length) (app : Int)
    (hr : Released i app past) : (s.node i).Bare app := by
  have hstep : ∀ {past s s' cause act}, Trace c ClientAct.Orderly past s → s.Follows cause s' →
      (Released i app past → (s.node i).Bare app) → Released i app (⟨s, act⟩ :: past) → (s'.node i).Bare app := by
    intro past s s' cause act h hf ih hr
    have hreaches : s.Reaches i cause s' := (hf.happens h.crewed).reaches i
    rcases hr.cons with ⟨e, ha⟩ | ⟨hr, hruns, hkeeps⟩
    · exact hreaches.bare_of_aborting ha
    · exact hreaches.bare (h.owned i).serves hruns hkeeps (ih hr)
  induction h with
  | built h =>
    obtain ⟨later, x, earlier, e, hpast, -⟩ := hr
    exact nomatch (List.append_eq_nil_iff.1 hpast.symm).2
  | move h hm ih => exact hstep h (.moves hm) ih hr
  | @act past s s' h a ha hc hrun ih =>
    exact hstep h (.of_run hc hrun) ih hr

end Network

end QuantumNode
