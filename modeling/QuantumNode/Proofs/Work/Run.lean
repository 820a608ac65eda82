import QuantumNode.Node.Work
import Mathlib.Order.Defs.Unbundled

/-! Work run from a given state. What a run preserves, whether or not it ends in a fault, is a relation between
the states before and after it (`Within`); what a run without a fault comes to is a postcondition (`Ends`). -/
namespace QuantumNode
namespace Work
variable {σ α β : Type} {n m : Nat}

/-- The result of work, and the state in which it leaves its part. -/
def exec (x : Work σ n m α) (w : Working σ n m) : Except Fault α × Working σ n m := (x.run w).run

@[simp] theorem exec_pure (a : α) (w : Working σ n m) : (pure a : Work σ n m α).exec w = (.ok a, w) := rfl

theorem exec_bind (x : Work σ n m α) (f : α → Work σ n m β) (w : Working σ n m) :
    (x >>= f).exec w = match x.exec w with
      | (.ok a, w') => (f a).exec w'
      | (.error e, w') => (.error e, w') := by
  change ExceptT.bindCont f (x w).1 (x w).2 = _
  change _ = match x w with
    | (.ok a, w') => (f a).exec w'
    | (.error e, w') => (.error e, w')
  rcases x w with ⟨_ | a, w'⟩
  · rfl
  · rfl

/-- Work in two steps succeeds by both steps succeeding. -/
theorem exec_bind_ok {x : Work σ n m α} {f : α → Work σ n m β} {w w'' : Working σ n m} {b : β} :
    (x >>= f).exec w = (.ok b, w'') ↔ ∃ a w', x.exec w = (.ok a, w') ∧ (f a).exec w' = (.ok b, w'') := by
  rw [exec_bind]
  rcases x.exec w with ⟨_ | a, w'⟩
  · simp
  · constructor
    · exact fun h => ⟨a, w', rfl, h⟩
    · rintro ⟨_, _, ⟨⟩, h⟩
      exact h

theorem exec_bind_of_ok {x : Work σ n m α} {f : α → Work σ n m β} {w w' : Working σ n m} {a : α}
    (h : x.exec w = (.ok a, w')) : (x >>= f).exec w = (f a).exec w' := by rw [exec_bind, h]

/-- What the first step brings about, whether or not it fails, and later steps keep. -/
theorem exec_bind_keeps {P : Working σ n m → Prop} {x : Work σ n m α} {f : α → Work σ n m β} {w : Working σ n m}
    (hx : P (x.exec w).2) (hf : ∀ a w', P w' → P ((f a).exec w').2) : P ((x >>= f).exec w).2 := by
  rw [exec_bind]
  generalize x.exec w = r at hx ⊢
  obtain ⟨_ | a, w'⟩ := r
  · exact hx
  · exact hf a w' hx

@[simp] theorem exec_part (w : Working σ n m) : (part : Work σ n m σ).exec w = (.ok w.part, w) := rfl

@[simp] theorem exec_get (w : Working σ n m) : (get : Work σ n m (Working σ n m)).exec w = (.ok w, w) := rfl

@[simp] theorem exec_now (w : Working σ n m) : (now : Work σ n m Nat).exec w = (.ok w.now, w) := rfl

@[simp] theorem exec_setPart (s : σ) (w : Working σ n m) :
    (setPart s : Work σ n m Unit).exec w = (.ok (), { w with part := s }) := rfl

@[simp] theorem exec_modifyPart (f : σ → σ) (w : Working σ n m) :
    (modifyPart f : Work σ n m Unit).exec w = (.ok (), { w with part := f w.part }) := rfl

@[simp] theorem exec_emit (e : Effect n m) (w : Working σ n m) :
    (emit e : Work σ n m Unit).exec w = (.ok (), { w with effects := w.effects.push e }) := rfl

@[simp] theorem exec_ofExcept (r : Except Fault α) (w : Working σ n m) :
    (ofExcept r : Work σ n m α).exec w = (r, w) := rfl

@[simp] theorem exec_fail (f : Fault) (w : Working σ n m) :
    (fail f : Work σ n m α).exec w = (.error f, w) := rfl

@[simp] theorem exec_attempt (x : Work σ n m α) (w : Working σ n m) :
    (attempt x).exec w = (.ok (x.exec w).1, (x.exec w).2) := rfl

/-! Relations between the state before and the state after. -/

/-- Work that leaves its state within a relation. -/
def Within (R : Working σ n m → Working σ n m → Prop) (x : Work σ n m α) : Prop := ∀ w, R w (x.exec w).2

/-- What holds of the result and of the state after work that does not fail. -/
def Ends (x : Work σ n m α) (w : Working σ n m) (Q : α → Working σ n m → Prop) : Prop :=
  ∀ a w', x.exec w = (.ok a, w') → Q a w'

/-- What holds of the state after work that ends in a fault. -/
def Halts (x : Work σ n m α) (w : Working σ n m) (Q : Working σ n m → Prop) : Prop :=
  ∀ f w', x.exec w = (.error f, w') → Q w'

/-- What holds of the result of work that does not fail, wherever it starts. -/
def Yields (Q : α → Prop) (x : Work σ n m α) : Prop := ∀ w, Ends x w fun a _ => Q a

/-- What holds of every fault of work, wherever it starts. -/
def Raises (P : Fault → Prop) (x : Work σ n m α) : Prop := ∀ w f w', x.exec w = (.error f, w') → P f

namespace Within

variable {R S : Working σ n m → Working σ n m → Prop} {x : Work σ n m α}

theorem of_exec (h : Within R x) {w w' : Working σ n m} {r : Except Fault α} (he : x.exec w = (r, w')) : R w w' := by
  have := h w
  rwa [he] at this

theorem mono (h : Within R x) (hle : ∀ w w', R w w' → S w w') : Within S x := fun w => hle _ _ (h w)

theorem of_ends (hok : ∀ w, Ends x w fun _ w' => R w w') (herr : ∀ w, Halts x w (R w)) : Within R x := fun w => by
  rcases hx : x.exec w with ⟨f | a, w'⟩
  · exact herr w f w' hx
  · exact hok w a w' hx

theorem and (h : Within R x) (h' : Within S x) : Within (fun w w' => R w w' ∧ S w w') x := fun w => ⟨h w, h' w⟩

/-- The next step of a piece of work, of which only what it preserves matters. -/
theorem next (h : Within R x) {f : α → Work σ n m β} {w : Working σ n m} {Q : β → Working σ n m → Prop}
    (hf : ∀ a w', R w w' → Ends (f a) w' Q) : Ends (x >>= f) w Q := fun b w'' he => by
  obtain ⟨a, w', h₁, h₂⟩ := exec_bind_ok.1 he
  exact hf a w' (h.of_exec h₁) b w'' h₂

/-- Work that begins by looking at its part. -/
theorem of_part {f : σ → Work σ n m α} (h : ∀ w, R w ((f w.part).exec w).2) : Within R (Work.part >>= f) := h

theorem ite {c : Prop} [Decidable c] {y : Work σ n m α} (hx : Within R x) (hy : Within R y) :
    Within R (if c then x else y) := by
  split
  · exact hx
  · exact hy

theorem attempt (h : Within R x) : Within R (Work.attempt x) := h

section Preorder
variable [Std.Refl R] [IsTrans _ R]

omit [IsTrans _ R] in
theorem of_unchanged (h : ∀ w, (x.exec w).2 = w) : Within R x := fun w => by
  rw [h w]
  exact Std.Refl.refl w

omit [IsTrans _ R] in
theorem pure (a : α) : Within R (Pure.pure a : Work σ n m α) := of_unchanged fun _ => rfl

omit [IsTrans _ R] in
theorem fail (f : Fault) : Within R (Work.fail f : Work σ n m α) := of_unchanged fun _ => rfl

omit [IsTrans _ R] in
theorem ofExcept (r : Except Fault α) : Within R (Work.ofExcept r : Work σ n m α) := of_unchanged fun _ => rfl

omit [IsTrans _ R] in
theorem part : Within R (Work.part : Work σ n m σ) := of_unchanged fun _ => rfl

omit [IsTrans _ R] in
theorem now : Within R (Work.now : Work σ n m Nat) := of_unchanged fun _ => rfl

omit [IsTrans _ R] in
theorem get : Within R (MonadState.get : Work σ n m (Working σ n m)) := of_unchanged fun _ => rfl

omit [Std.Refl R] in
theorem bind {f : α → Work σ n m β} (hx : Within R x) (hf : ∀ a, Within R (f a)) : Within R (x >>= f) := fun w => by
  rw [exec_bind]
  rcases h : x.exec w with ⟨_ | a, w'⟩
  · exact hx.of_exec h
  · exact IsTrans.trans _ _ _ (hx.of_exec h) (hf a w')

omit [Std.Refl R] in
/-- The part is replaced, and work goes on from there. -/
theorem setPart_bind {s : σ} {f : Unit → Work σ n m α} {w : Working σ n m} (h : R w { w with part := s })
    (hf : Within R (f ())) : R w ((Work.setPart s >>= f).exec w).2 :=
  IsTrans.trans _ _ _ h (hf _)

theorem forM {γ : Type} {f : γ → Work σ n m PUnit} (hf : ∀ c, Within R (f c)) (l : List γ) : Within R (l.forM f) := by
  induction l with
  | nil => exact pure _
  | cons c l ih => exact (hf c).bind fun _ => ih

end Preorder

end Within

/-! Postconditions. -/

namespace Ends

variable {x : Work σ n m α} {w : Working σ n m} {Q : α → Working σ n m → Prop}

theorem mono (h : Ends x w Q) {Q' : α → Working σ n m → Prop} (hle : ∀ a w', Q a w' → Q' a w') : Ends x w Q' :=
  fun a w' he => hle a w' (h a w' he)

theorem within (h : Ends x w Q) {R : Working σ n m → Working σ n m → Prop} (hr : Within R x) :
    Ends x w fun a w' => Q a w' ∧ R w w' := fun a w' he => ⟨h a w' he, hr.of_exec he⟩

theorem pure {a : α} (h : Q a w) : Ends (Pure.pure a) w Q := fun b w' he => by
  obtain ⟨⟨⟩, rfl⟩ := Prod.mk.inj he
  exact h

theorem fail (f : Fault) : Ends (Work.fail f) w Q := fun _ _ he => nomatch he

theorem bind {f : α → Work σ n m β} {R : β → Working σ n m → Prop} (h : Ends x w fun a w' => Ends (f a) w' R) :
    Ends (x >>= f) w R := fun b w'' he => by
  obtain ⟨a, w', h₁, h₂⟩ := exec_bind_ok.1 he
  exact h a w' h₁ b w'' h₂

theorem part {f : σ → Work σ n m β} {R : β → Working σ n m → Prop} (h : Ends (f w.part) w R) :
    Ends (Work.part >>= f) w R := bind fun a w' he => by
  obtain ⟨⟨⟩, rfl⟩ := Prod.mk.inj he
  exact h

theorem setPart {s : σ} {f : Unit → Work σ n m β} {R : β → Working σ n m → Prop}
    (h : Ends (f ()) { w with part := s } R) : Ends (Work.setPart s >>= f) w R := bind fun a w' he => by
  obtain ⟨⟨⟩, rfl⟩ := Prod.mk.inj he
  exact h

theorem modifyPart {g : σ → σ} {f : Unit → Work σ n m β} {R : β → Working σ n m → Prop}
    (h : Ends (f ()) { w with part := g w.part } R) : Ends (Work.modifyPart g >>= f) w R := bind fun a w' he => by
  obtain ⟨⟨⟩, rfl⟩ := Prod.mk.inj he
  exact h

theorem emit {e : Effect n m} {f : Unit → Work σ n m β} {R : β → Working σ n m → Prop}
    (h : Ends (f ()) { w with effects := w.effects.push e } R) : Ends (Work.emit e >>= f) w R := bind fun a w' he => by
  obtain ⟨⟨⟩, rfl⟩ := Prod.mk.inj he
  exact h

theorem ofExcept {r : Except Fault α} {f : α → Work σ n m β} {R : β → Working σ n m → Prop}
    (h : ∀ a, r = .ok a → Ends (f a) w R) : Ends (Work.ofExcept r >>= f) w R := bind fun a w' he => by
  obtain ⟨rfl, rfl⟩ := Prod.mk.inj he
  exact h a rfl

/-- What is attempted either yields a result or a fault; both go on. -/
theorem attempt {f : Except Fault α → Work σ n m β} {R : β → Working σ n m → Prop}
    (hok : ∀ a w', x.exec w = (.ok a, w') → Ends (f (.ok a)) w' R)
    (herr : ∀ e w', x.exec w = (.error e, w') → Ends (f (.error e)) w' R) :
    Ends (Work.attempt x >>= f) w R := bind fun r w' he => by
  rw [exec_attempt] at he
  obtain ⟨hr, rfl⟩ := Prod.mk.inj he
  cases hr
  rcases hx : x.exec w with ⟨e | a, w₁⟩
  · exact herr e w₁ hx
  · exact hok a w₁ hx

end Ends

namespace Halts

variable {R : Working σ n m → Working σ n m → Prop} {x : Work σ n m α} {w : Working σ n m} {Q : Working σ n m → Prop}

theorem mono (h : Halts x w Q) {Q' : Working σ n m → Prop} (hle : ∀ w', Q w' → Q' w') : Halts x w Q' :=
  fun f w' he => hle w' (h f w' he)

theorem pure (a : α) : Halts (Pure.pure a) w Q := fun _ _ he => nomatch he

theorem fail {f : Fault} (h : Q w) : Halts (Work.fail f : Work σ n m α) w Q := fun _ _ he => by
  obtain ⟨-, rfl⟩ := Prod.mk.inj he
  exact h

theorem of_within (h : Within R x) (hle : ∀ w', R w w' → Q w') : Halts x w Q := fun _ _ he => hle _ (h.of_exec he)

theorem of_ok {a : α} (h : (x.exec w).1 = .ok a) : Halts x w Q := fun f w' he => by
  rw [he] at h
  exact nomatch h

/-- Either the first step ends in a fault or what comes after it does. -/
theorem bind {f : α → Work σ n m β} (hx : Halts x w Q) (hf : Ends x w fun a w' => Halts (f a) w' Q) :
    Halts (x >>= f) w Q := fun g w'' he => by
  rw [exec_bind] at he
  rcases hw : x.exec w with ⟨e | a, w'⟩
  · rw [hw] at he
    obtain ⟨-, rfl⟩ := Prod.mk.inj he
    exact hx e w' hw
  · rw [hw] at he
    exact hf a w' hw g w'' he

/-- What a fault of the first step leaves, and what one of the rest leaves of that. -/
theorem next [IsTrans _ R] {f : α → Work σ n m β} (h : Within R x) (hf : ∀ a w', R w w' → Halts (f a) w' (R w')) :
    Halts (x >>= f) w (R w) :=
  .bind (.of_within h fun _ h => h) fun a w' he =>
    (hf a w' (h.of_exec he)).mono fun _ h' => IsTrans.trans _ _ _ (h.of_exec he) h'

theorem ite {c : Prop} [Decidable c] {y : Work σ n m α} (hx : Halts x w Q) (hy : Halts y w Q) :
    Halts (if c then x else y) w Q := by
  split
  · exact hx
  · exact hy

theorem part {f : σ → Work σ n m β} (h : Halts (f w.part) w Q) : Halts (Work.part >>= f) w Q := h

theorem setPart {s : σ} {f : Unit → Work σ n m β} (h : Halts (f ()) { w with part := s } Q) :
    Halts (Work.setPart s >>= f) w Q := h

theorem ofExcept {r : Except Fault α} {f : α → Work σ n m β} (he : Q w) (h : ∀ a, r = .ok a → Halts (f a) w Q) :
    Halts (Work.ofExcept r >>= f) w Q := by
  cases r with
  | error e => exact bind (fun _ _ hx => (Prod.mk.inj hx).2 ▸ he) fun _ _ hx => nomatch hx
  | ok a => exact h a rfl

/-- What is attempted either yields a result or a fault; both go on. -/
theorem attempt {f : Except Fault α → Work σ n m β} (hok : ∀ a w', x.exec w = (.ok a, w') → Halts (f (.ok a)) w' Q)
    (herr : ∀ e w', x.exec w = (.error e, w') → Halts (f (.error e)) w' Q) : Halts (Work.attempt x >>= f) w Q :=
  bind (fun _ _ he => nomatch he) fun r w' he => by
    rw [exec_attempt] at he
    obtain ⟨hr, rfl⟩ := Prod.mk.inj he
    cases hr
    rcases hx : x.exec w with ⟨e | a, w₁⟩
    · exact herr e w₁ hx
    · exact hok a w₁ hx

end Halts

namespace Yields

variable {Q : α → Prop} {x y : Work σ n m α}

theorem pure {a : α} (h : Q a) : Yields Q (Pure.pure a : Work σ n m α) := fun _ => .pure h

theorem fail (f : Fault) : Yields Q (Work.fail f : Work σ n m α) := fun _ => .fail f

theorem mono (h : Yields Q x) {Q' : α → Prop} (hle : ∀ a, Q a → Q' a) : Yields Q' x := fun w =>
  (h w).mono fun a _ => hle a

theorem bind {z : Work σ n m β} {f : β → Work σ n m α} (hf : ∀ b, Yields Q (f b)) : Yields Q (z >>= f) :=
  fun _ => .bind fun b w' _ => hf b w'

theorem bind_of {z : Work σ n m β} {P : β → Prop} {f : β → Work σ n m α} (hz : Yields P z)
    (hf : ∀ b, P b → Yields Q (f b)) : Yields Q (z >>= f) :=
  fun w => .bind fun b w' h => hf b (hz w b w' h) w'

theorem ite {c : Prop} [Decidable c] (hx : Yields Q x) (hy : Yields Q y) : Yields Q (if c then x else y) := by
  split
  · exact hx
  · exact hy

/-- A result of work that is attempted is one that the work yields. -/
theorem attempt (h : Yields Q x) : Yields (fun r => ∀ a, r = .ok a → Q a) (Work.attempt x) := fun w r w' he a ha => by
  rw [exec_attempt] at he
  obtain ⟨hr, rfl⟩ := Prod.mk.inj he
  cases hr
  exact h w a (x.exec w).2 (Prod.ext ha rfl)

end Yields

/-! Faults. -/

namespace Raises

variable {P : Fault → Prop} {x y : Work σ n m α}

theorem of_ok (h : ∀ w, ∃ a, (x.exec w).1 = .ok a) : Raises P x := fun w f w' he => by
  obtain ⟨a, ha⟩ := h w
  rw [he] at ha
  exact nomatch ha

theorem pure (a : α) : Raises P (Pure.pure a : Work σ n m α) := of_ok fun _ => ⟨a, rfl⟩

theorem part : Raises P (Work.part : Work σ n m σ) := of_ok fun w => ⟨w.part, rfl⟩

theorem get : Raises P (MonadState.get : Work σ n m (Working σ n m)) := of_ok fun w => ⟨w, rfl⟩

theorem setPart (s : σ) : Raises P (Work.setPart s : Work σ n m Unit) := of_ok fun _ => ⟨(), rfl⟩

theorem modifyPart (f : σ → σ) : Raises P (Work.modifyPart f : Work σ n m Unit) := of_ok fun _ => ⟨(), rfl⟩

theorem emit (e : Effect n m) : Raises P (Work.emit e : Work σ n m Unit) := of_ok fun _ => ⟨(), rfl⟩

theorem withQuantum (f : QuantumState → α × QuantumState) : Raises P (Work.withQuantum f : Work σ n m α) :=
  of_ok fun w => ⟨(f w.quantum).1, rfl⟩

theorem attempt (x : Work σ n m α) : Raises P (Work.attempt x) := of_ok fun w => ⟨(x.exec w).1, rfl⟩

theorem fail {f : Fault} (hf : P f) : Raises P (Work.fail f : Work σ n m α) := fun w f' w' he => by
  cases he
  exact hf

theorem ofExcept {r : Except Fault α} (hr : ∀ f, r = .error f → P f) : Raises P (Work.ofExcept r : Work σ n m α) :=
  fun _ f _ he => hr f (Prod.mk.inj he).1

theorem bind {f : α → Work σ n m β} (hx : Raises P x) (hf : ∀ a, Raises P (f a)) : Raises P (x >>= f) :=
  fun w g w' he => by
    rw [exec_bind] at he
    rcases hw : x.exec w with ⟨e | a, w₁⟩
    · rw [hw] at he
      cases he
      exact hx w g w' hw
    · rw [hw] at he
      exact hf a w₁ g w' he

/-- What comes after the first step matters for the results of that step only. -/
theorem bind_of {Q : α → Prop} {f : α → Work σ n m β} (hx : Raises P x) (hq : Yields Q x)
    (hf : ∀ a, Q a → Raises P (f a)) : Raises P (x >>= f) := fun w g w' he => by
  rw [exec_bind] at he
  rcases hw : x.exec w with ⟨e | a, w₁⟩
  · rw [hw] at he
    cases he
    exact hx w g w' hw
  · rw [hw] at he
    exact hf a (hq w a w₁ hw) w₁ g w' he

theorem mono (h : Raises P x) {Q : Fault → Prop} (hle : ∀ f, P f → Q f) : Raises Q x := fun w f w' he =>
  hle f (h w f w' he)

/-- A fault of work that is attempted is one that the work raises. -/
theorem bind_attempt {f : Except Fault α → Work σ n m β} (hx : Raises P x) (hok : ∀ a, Raises P (f (.ok a)))
    (herr : ∀ e, P e → Raises P (f (.error e))) : Raises P (Work.attempt x >>= f) := fun w g w' he => by
  rw [exec_bind, exec_attempt] at he
  rcases hw : x.exec w with ⟨e | a, w₁⟩
  · rw [hw] at he
    exact herr e (hx w e w₁ hw) w₁ g w' he
  · rw [hw] at he
    exact hok a w₁ g w' he

theorem ite {c : Prop} [Decidable c] (hx : Raises P x) (hy : Raises P y) : Raises P (if c then x else y) := by
  split
  · exact hx
  · exact hy

theorem forM {γ : Type} {f : γ → Work σ n m PUnit} (hf : ∀ c, Raises P (f c)) (l : List γ) : Raises P (l.forM f) := by
  induction l with
  | nil => exact pure _
  | cons c l ih => exact (hf c).bind fun _ => ih

end Raises

end Work

/-- The stage in which a process goes on, unless it ends. -/
def Flow.going? {m : Nat} {α β : Type} : Flow m α β → Option α
  | .go a | .rest a | .call a .. => some a
  | .finished _ => none

theorem Flow.going?_map {m : Nat} {α β γ δ : Type} (x : Flow m α β) (f : α → γ) (g : β → δ) :
    (x.map f g).going? = x.going?.map f := by
  cases x with
  | _ => rfl

/-- The stage in which a process is left that never ends. -/
def Flow.stage {m : Nat} {α : Type} : Flow m α Empty → α
  | .go a | .rest a | .call a .. => a

theorem Flow.going?_eq {m : Nat} {α : Type} (x : Flow m α Empty) : x.going? = some x.stage := by
  cases x with
  | finished e => exact nomatch e
  | _ => rfl

/-- Whether a process asks a link. -/
def Flow.asks {m : Nat} {α β : Type} : Flow m α β → Bool
  | .call .. => true
  | _ => false

theorem Flow.asks_map {m : Nat} {α β γ δ : Type} (x : Flow m α β) (f : α → γ) (g : β → δ) :
    (x.map f g).asks = x.asks := by
  cases x with
  | _ => rfl

/-! Work that resumes processes. -/

variable {σ : Type} {n m : Nat}

/-- The process that an effect resumes. -/
def Effect.resumed? : Effect n m → Option ProcessId
  | .resume _ p _ => some p
  | _ => none

namespace Working

/-- How often a process has been resumed. -/
def resumed (w : Working σ n m) (q : ProcessId) : Nat := (w.effects.toList.filterMap Effect.resumed?).count q

theorem resumed_push (w : Working σ n m) (e : Effect n m) (q : ProcessId) :
    ({ w with effects := w.effects.push e } : Working σ n m).resumed q =
      w.resumed q + if e.resumed? = some q then 1 else 0 := by
  simp only [resumed, Array.toList_push, List.filterMap_append, List.count_append]
  congr 1
  cases h : e.resumed? with
  | none => simp [h]
  | some p => simp [h, List.count_singleton]

theorem resumed_push_of_none (w : Working σ n m) {e : Effect n m} (h : e.resumed? = none) (q : ProcessId) :
    ({ w with effects := w.effects.push e } : Working σ n m).resumed q = w.resumed q := by
  simp [resumed_push, h]

end Working

namespace Work

/-- Processes that are woken are resumed once for each time that they are listed. -/
theorem exec_wakeAll (ps : List ProcessId) (w : Working σ n m) : ∃ w', (wakeAll ps).exec w = (.ok (), w') ∧
    w'.part = w.part ∧ ∀ q, w'.resumed q = w.resumed q + ps.count q := by
  induction ps generalizing w with
  | nil => exact ⟨w, rfl, rfl, fun q => by simp⟩
  | cons p ps ih =>
    obtain ⟨w', hw', hpart, hres⟩ := ih { w with effects := w.effects.push (.resume 0 p .go) }
    refine ⟨w', ?_, hpart, ?_⟩
    · rw [← hw']
      rfl
    · intro q
      rw [hres, Working.resumed_push, List.count_cons]
      simp only [Effect.resumed?, Option.some.injEq, beq_iff_eq]
      omega

end Work

end QuantumNode
