import QuantumNode.Proofs.Network.Bystander
import QuantumNode.Proofs.Node.Range

/-! What a subroutine is aborted for. Along every run it is aborted only after a link has refused a pair of a request of
its application, and only once: between two of them that are aborted another request has failed. That request need not be
one of its own, since requests outlive the subroutine that has submitted them. Flags are raised by pair services, and by
clients that abort applications; an application that is stopped loses its own. -/
namespace QuantumNode

open Node Work Working

variable {n m : Nat}

/-! Who raises a flag. A pair service says that a request has failed when a link has refused a pair of it, and that an
application is aborted when its peer says so; a client may abort one, too. Nobody else raises a flag, and a subroutine that
is aborted has been told. -/

section

/-- A condition on the flags of a pair service that goes on to hold as flags are raised. -/
class PairService.Flag {π : Type} (φ : PairService n π → Prop) : Prop where
  mono {x y : PairService n π} (ha : ∀ app, y.isAborted app = true → x.isAborted app = true)
    (hf : ∀ app, app ∈ y.failed → app ∈ x.failed) (h : φ y) : φ x

/-- A condition that holds afterwards has held before. -/
def Working.Lowers (φ : PairService n ProcessId → Prop) (w w' : Working (Node n m) n m) : Prop :=
  φ w'.part.service → φ w.part.service

section

variable {φ : PairService n ProcessId → Prop} {w w' : Working (Node n m) n m}

theorem Working.Lowers.of_service (h : w'.part.service = w.part.service) : Lowers φ w w' := fun hφ => h ▸ hφ

instance : Std.Refl (Lowers φ : Working (Node n m) n m → Working (Node n m) n m → Prop) := ⟨fun _ h => h⟩

instance : IsTrans (Working (Node n m) n m) (Lowers φ) := ⟨fun _ _ _ h h' hφ => h (h' hφ)⟩

variable [PairService.Flag φ]

theorem Working.Lowers.of_flags (ha : w'.part.service.aborted = w.part.service.aborted)
    (hf : w'.part.service.failed = w.part.service.failed) : Lowers φ w w' :=
  PairService.Flag.mono (fun app => by rw [PairService.isAborted, ha, PairService.isAborted]; exact id) fun _ h => hf ▸ h

instance : Mild (Lowers φ : Working (Node n m) n m → Working (Node n m) n m → Prop) where
  emit _ _ _ := .of_service rfl
  part _ _ h := .of_service h.service
  quantum _ _ := .of_service rfl
  service _ _ h := PairService.Flag.mono h.aborted h.failed
  memory _ _ _ _ _ _ := .of_service rfl
  submit w r := .of_flags (by rw [exec_submit]; rfl) (by rw [exec_submit]; rfl)

instance : Steering (Lowers φ : Working (Node n m) n m → Working (Node n m) n m → Prop) where
  dispatcher _ _ _ := .of_service rfl
  reply _ _ _ := .of_service rfl

theorem notifyNews_lowers : Within (Lowers φ) (notifyNews : NodeWork n m Unit) := fun w => by
  obtain ⟨w', he, hpart, -⟩ := exec_notifyNews w
  rw [he]
  exact .of_flags (by rw [hpart]) (by rw [hpart])

instance : Lavish (Lowers φ : Working (Node n m) n m → Working (Node n m) n m → Prop) where
  freed w := by
    obtain ⟨w', he, hpart, -⟩ := exec_notifyMemoryFreed w
    rw [he]
    exact .of_service (by rw [hpart])
  written w := by
    obtain ⟨w', he, hpart, -⟩ := exec_notifyArrayWritten w
    rw [he]
    exact .of_service (by rw [hpart])
  news := notifyNews_lowers
  gone w other :=
    have hforget : Within (Lowers φ) (modifyService (·.forget other) : NodeWork n m Unit) := fun _ =>
      PairService.Flag.mono (fun _ => PairService.isAborted_of_forget) fun _ h => (List.mem_filter.1 h).1
    hforget.bind (fun _ => notifyNews_lowers) w
  apps _ _ := .of_service rfl
  pool _ _ _ := .of_service rfl

instance : Cordial (Lowers φ : Working (Node n m) n m → Working (Node n m) n m → Prop) where
  tell _ _ _ _ := .of_service rfl
  abort _ _ _ := .of_service rfl
  tend _ _ _ _ _ hf hb _ _ := .of_flags hb hf

instance (p : ProcessId) : Drowsy p (Lowers φ : Working (Node n m) n m → Working (Node n m) n m → Prop) where
  sleep _ _ := .of_service rfl
  write _ := .of_service rfl
  text _ := .of_service rfl

instance (p : ProcessId) : Standing p (Lowers φ : Working (Node n m) n m → Working (Node n m) n m → Prop) where
  news _ := .of_flags rfl rfl
  request _ := .of_flags rfl rfl

instance (p : ProcessId) : Starving p (Lowers φ : Working (Node n m) n m → Working (Node n m) n m → Prop) where
  count _ := .of_flags rfl rfl
  slot _ := .of_service rfl

end

variable {app : Int}

/-- No request of an application is said to have failed, unless one was before. -/
abbrev Working.Blameless (app : Int) : Working (Node n m) n m → Working (Node n m) n m → Prop :=
  Lowers fun s => app ∈ s.failed

instance {π : Type} : PairService.Flag (fun s : PairService n π => app ∈ s.failed) where
  mono _ hf := hf app

instance : Affable (Blameless app : Working (Node n m) n m → Working (Node n m) n m → Prop) where
  tell _ _ _ _ := .of_service rfl
  abort _ _ _ := .of_service rfl
  hold _ _ _ _ _ hf _ _ := hf app

theorem blaming_of_ne {other : Int} (h : other ≠ app) :
    Blaming other (Blameless app : Working (Node n m) n m → Working (Node n m) n m → Prop) where
  blame _ hf := (List.mem_insert_iff.1 hf).resolve_left h.symm

/-- A pair service says that a request has failed when it finds so. -/
theorem Pairing.step_blameless (p : ProcessId) {stage : PairStage} {wake : Wake} (h : fails app stage wake = false) :
    Within (Blameless app) (step p stage wake : NodeWork n m (Step m)) := by
  refine step_within p stage wake (fun other ho => blaming_of_ne fun he => ?_) fun _ _ => inferInstance
  rw [he, h] at ho
  exact nomatch ho

/-- An application is said to be aborted, or a request of it to have failed. -/
def PairService.Flagged {π : Type} (s : PairService n π) (app : Int) : Prop := s.isAborted app = true ∨ app ∈ s.failed

theorem PairService.not_flagged_forget {π : Type} (s : PairService n π) (app : Int) : ¬ (s.forget app).Flagged app := by
  simp [Flagged, isAborted, forget]

/-- No flag of an application is raised. -/
abbrev Working.Unflagging (app : Int) : Working (Node n m) n m → Working (Node n m) n m → Prop := Lowers (·.Flagged app)

instance {π : Type} : PairService.Flag (fun s : PairService n π => s.Flagged app) where
  mono ha hf := Or.imp (ha app) (hf app)

theorem marking_of_ne {other : Int} (h : other ≠ app) :
    Marking other (Unflagging app : Working (Node n m) n m → Working (Node n m) n m → Prop) where
  mark w hf := hf.imp_left fun ha => by
    rw [PairService.isAborted, List.contains_iff_mem] at ha ⊢
    exact (List.mem_insert_iff.1 ha).resolve_left h.symm

theorem flagging_of_ne {other : Int} (h : other ≠ app) :
    Blaming other (Unflagging app : Working (Node n m) n m → Working (Node n m) n m → Prop) where
  blame _ hf := hf.imp_right fun hfailed => (List.mem_insert_iff.1 hfailed).resolve_left h.symm

/-- A pair service raises a flag of an application when it finds reason to. -/
theorem Pairing.step_unflagging (p : ProcessId) {stage : PairStage} {wake : Wake} (hm : marks app stage wake = false)
    (hf : fails app stage wake = false) : Within (Unflagging app) (step p stage wake : NodeWork n m (Step m)) := by
  refine step_docile p stage wake (fun other ho => marking_of_ne fun he => ?_)
    (fun other ho => flagging_of_ne fun he => ?_) (fun _ _ => inferInstance) fun _ _ _ _ => inferInstance
  · rw [he, hm] at ho
    exact nomatch ho
  · rw [he, hf] at ho
    exact nomatch ho

namespace Dispatch

/-- An application that is stopped loses its flags. -/
theorem stopApp_unflags (app : Int) (w : Working (Node n m) n m) :
    Ends (stopApp app) w fun _ w' => ¬ w'.part.service.Flagged app := by
  have hrest : ∀ w : Working (Node n m) n m, Ends (do
      Pairing.removeApp app
      modifyDispatcher fun d => { d with apps := d.apps.erase app } : NodeWork n m Unit) w
        fun _ w' => ¬ w'.part.service.Flagged app := fun w => by
    have hforget : Ends (Pairing.removeApp app) w fun _ w' => ¬ w'.part.service.Flagged app := fun _ w' he hf => by
      have hnews : Within (Unflagging app) (notifyNews : NodeWork n m Unit) := notifyNews_lowers
      exact PairService.not_flagged_forget w.part.service app (hnews.of_exec he hf)
    refine .bind <| hforget.mono fun _ w₁ h₁ _ w₂ he => ?_
    obtain ⟨-, rfl⟩ := Prod.mk.inj he
    exact h₁
  refine .bind fun _ w₁ _ => .part ?_
  split
  · exact .bind fun _ w₂ _ => .bind fun _ w₃ _ => hrest w₃
  · exact .bind fun _ w₂ _ => hrest w₂

end Dispatch

namespace Execution

/-- A subroutine is aborted for a failure, which it thereby clears. -/
theorem step_aborted (p : ProcessId) (e : Execution) (w : Working (Node n m) n m) : Ends (step p e) w fun flow w' =>
    flow = .finished .aborted → e.app ∈ w.part.service.failed ∧ e.app ∉ w'.part.service.failed :=
  (step_looks p e w).mono fun flow w' h hflow => by
    rcases h with h | ⟨a, -, hv⟩
    · exact absurd hflow h.spared
    · cases hv with
      | aborted hf hc => exact ⟨hf, hc⟩
      | _ => exact nomatch hflow

end Execution

end

/-! Along a run. -/

theorem Node.SameSlots.failed {x y : Node n m} (h : x.SameSlots y) : y.service.failed = x.service.failed := by
  rw [h.service]

theorem Node.SameSlots.flagged {x y : Node n m} (h : x.SameSlots y) (app : Int) :
    y.service.Flagged app ↔ x.service.Flagged app := by
  rw [h.service]
  rfl

namespace Network

/-- A subroutine that uses the memory of an application is found to be aborted. -/
def Aborts (s : Network n m) (i : Fin n) (app : Int) : Prop := ∃ k e, s.Aborting i k e ∧ e.app = app

/-- Whether the process that goes on is a pair service that finds that a request of an application has failed. -/
def fails (s : Network n m) (i : Fin n) (app : Int) : Bool :=
  match s.current with
  | some (p, wake) => p = pairId i && Pairing.fails app (s.pairStage i) wake
  | none => false

variable {s s₁ s' : Network n m} {i j : Fin n} {app : Int} {cause : Cause n}

/-- What had failed before a step is all that has failed after it, and a subroutine that the step aborts has cleared its
failure. -/
def Clears (i : Fin n) (app : Int) (s s' : Network n m) : Prop :=
  app ∈ (s'.node i).service.failed → ¬ s.Aborts i app ∧ app ∈ (s.node i).service.failed

/-- A step finds that a request has failed, or clears failures at most. -/
theorem Reaches.clears (h : s.Reaches i cause s') : s.fails i app = true ∨ Clears i app s s' := by
  cases h with
  | spares hs hd hpair hdispatch =>
    refine .inr fun hf => ⟨fun ha => ?_, hs.failed ▸ hf⟩
    obtain ⟨k, e, ⟨⟨wake, hc⟩, hst, -⟩, -⟩ := ha
    rw [hdispatch (congrArg (Option.map Prod.fst) hc)] at hst
    exact nomatch hst
  | works hshift hs hd =>
    unfold Clears
    rw [hs.failed]
    cases hshift with
    | labour hc hx now =>
      refine .inr fun hf => ⟨fun ha => ?_, hx.sociable (R := Blameless app) _ hf⟩
      obtain ⟨k, e, ⟨⟨wake, hc'⟩, -, -⟩, -⟩ := ha
      exact nomatch hc.symm.trans hc'
    | @pairing wake hc =>
      by_cases hfails : s.fails i app = true
      · exact .inl hfails
      · have hblameless : Pairing.fails app (s.pairStage i) wake = false := by simpa [fails, hc] using hfails
        refine .inr fun hf => ⟨fun ha => ?_, Pairing.step_blameless _ hblameless _ hf⟩
        obtain ⟨k, e, ⟨⟨wake', hc'⟩, -, -⟩, -⟩ := ha
        rw [hc] at hc'
        exact absurd (congrArg Prod.fst (Option.some.inj hc')) (pairId_ne_dispatchId i i)
    | @dispatch wake hc =>
      refine .inr fun hf => ⟨fun ha => ?_, Dispatch.step_lavish (R := Blameless app) _ _ _ _ hf⟩
      obtain ⟨k, e, ⟨-, hst, w, hstep⟩, rfl⟩ := ha
      rw [hst, Dispatch.step, exec_bind, hstep] at hf
      have hblameless := Dispatch.answer_wiping (R := Blameless e.app) k .aborted w hf
      exact (Execution.step_aborted _ e (s.working i) _ w hstep rfl).2 hblameless

/-- A request of an application has failed, and no subroutine of the application has been aborted since. -/
def Warned (i : Fin n) (app : Int) (past : List (Stride n m)) : Prop :=
  ∃ later x earlier, past = later ++ x :: earlier ∧ x.before.fails i app = true ∧
    ∀ y ∈ later, ¬ y.before.Aborts i app

theorem Warned.step {past : List (Stride n m)} {x : Stride n m} (h : Warned i app past)
    (hx : ¬ x.before.Aborts i app) : Warned i app (x :: past) := by
  obtain ⟨later, y, earlier, rfl, hy, hlater⟩ := h
  exact ⟨x :: later, y, earlier, rfl, hy, List.forall_mem_cons.2 ⟨hx, hlater⟩⟩

theorem Course.warned {c : NetworkConfig} {past : List (Stride c.nodes.length c.links.length)}
    {s : Network c.nodes.length c.links.length} (h : Course c past s) (i : Fin c.nodes.length) (app : Int)
    (hf : app ∈ (s.node i).service.failed) : Warned i app past := by
  induction h with
  | built h =>
    obtain ⟨latencies, hservice⟩ := (built_of_build h).service i
    rw [hservice] at hf
    exact nomatch hf
  | @step past s s' cause h hstep ih =>
    have hclears : s.fails i app = true ∨ Clears i app s s' := ((hstep.happens h.crewed).reaches i).clears
    rcases hclears with hfails | hclears
    · exact ⟨[], _, past, rfl, hfails, List.forall_mem_nil _⟩
    · obtain ⟨ha, hf⟩ := hclears hf
      exact (ih hf).step ha

/-- Along every run, also after faults, a subroutine is aborted only if a link has refused a pair of a request of its
application since a subroutine of that application was last aborted. -/
theorem subroutines_are_aborted_once_per_failure {c : NetworkConfig} {past : List (Stride c.nodes.length c.links.length)}
    {s : Network c.nodes.length c.links.length} (h : Course c past s) (i : Fin c.nodes.length) (app : Int)
    (ha : s.Aborts i app) : Warned i app past := by
  obtain ⟨k, e, ⟨-, -, w, hstep⟩, rfl⟩ := ha
  exact h.warned i e.app (Execution.step_aborted _ e (s.working i) _ w hstep rfl).1

/-! Flags. -/

/-- Whether the process that goes on is a pair service that has reason to raise a flag of an application. -/
def flags (s : Network n m) (i : Fin n) (app : Int) : Bool :=
  match s.current with
  | some (p, wake) => p = pairId i && (Pairing.marks app (s.pairStage i) wake || Pairing.fails app (s.pairStage i) wake)
  | none => false

/-- A flag is raised by a client that aborts the application, or by the pair service. -/
theorem Reaches.flagged (h : s.Reaches i cause s') (hf : (s'.node i).service.Flagged app) :
    (s.node i).service.Flagged app ∨ cause = .client (.atNode i (.abort app)) ∨ s.flags i app = true := by
  cases h with
  | spares hs _ _ _ => exact .inl ((hs.flagged app).1 hf)
  | works hshift hs _ =>
    have hf := (hs.flagged app).1 hf
    cases hshift with
    | labour hc hx now =>
      refine or_iff_not_imp_right.2 fun hno => ?_
      refine hx.vocal (R := Unflagging app) (fun other ho => marking_of_ne fun he => hno (.inl ?_)) _ hf
      rw [ho, he]
    | @pairing wake hc =>
      refine or_iff_not_imp_right.2 fun hno => ?_
      have hquiet : s.flags i app = false := Bool.eq_false_iff.2 fun h => hno (.inr h)
      simp only [flags, hc, decide_true, Bool.true_and, Bool.or_eq_false_iff] at hquiet
      exact Pairing.step_unflagging _ hquiet.1 hquiet.2 _ hf
    | @dispatch wake hc => exact .inl (Dispatch.step_lavish (R := Unflagging app) _ _ _ _ hf)

end Network

end QuantumNode
