/-! Computations that may fail: what the success of a sequence says about its parts, and what its failure may be. -/
namespace QuantumNode

variable {ε α β σ : Type}

/-- A result in two steps comes from results of both. -/
theorem bind_ok {x : Except ε α} {f : α → Except ε β} {b : β} (h : x >>= f = .ok b) :
    ∃ a, x = .ok a ∧ f a = .ok b := by
  rcases x with _ | a
  · exact nomatch h
  · exact ⟨a, rfl, h⟩

theorem ok_of_toOption {x : Except ε α} {a : α} (h : x.toOption = some a) : x = .ok a := by
  rcases x with _ | b
  · exact nomatch h
  · cases h
    rfl

theorem toOption_eq_some {x : Except ε α} {a : α} : x.toOption = some a ↔ x = .ok a :=
  ⟨ok_of_toOption, fun h => by rw [h]; rfl⟩

theorem toOption_bind (x : Except ε α) (f : α → Except ε β) :
    (x >>= f).toOption = x.toOption.bind fun a => (f a).toOption := by
  cases x <;> rfl

theorem toOption_foldlM (f : σ → α → Except ε σ) (l : List α) (s : σ) :
    (l.foldlM f s).toOption = l.foldlM (fun s a => (f s a).toOption) s := by
  induction l generalizing s with
  | nil => rfl
  | cons a l ih =>
    rw [List.foldlM_cons, List.foldlM_cons, toOption_bind, Option.bind_eq_bind]
    exact Option.bind_congr fun s' _ => ih s'

/-- A view of the state that each step changes by a step of its own is changed by all of them so. -/
theorem map_toOption_foldlM {τ : Type} {f : σ → α → Except ε σ} {g : σ → τ} {h : τ → α → Option τ}
    (hstep : ∀ s a, (f s a).toOption.map g = h (g s) a) (l : List α) (s : σ) :
    (l.foldlM f s).toOption.map g = l.foldlM h (g s) := by
  induction l generalizing s with
  | nil => rfl
  | cons a l ih =>
    rw [List.foldlM_cons, List.foldlM_cons, toOption_bind, Option.map_bind, ← hstep]
    cases f s a with
    | error e => rfl
    | ok s' => exact ih s'

theorem toOption_mapM (f : α → Except ε β) (l : List α) : (l.mapM f).toOption = l.mapM fun a => (f a).toOption := by
  induction l with
  | nil => rfl
  | cons a l ih =>
    rw [List.mapM_cons, List.mapM_cons, toOption_bind, Option.bind_eq_bind]
    refine Option.bind_congr fun b _ => ?_
    rw [toOption_bind, ih]
    rfl

/-- A list of results comes from one result for each element. -/
theorem mapM_eq_ok_iff {f : α → Except ε β} {l : List α} {ys : List β} :
    l.mapM f = .ok ys ↔ l.map f = ys.map .ok := by
  constructor
  · intro h
    induction l generalizing ys with
    | nil =>
      cases h
      rfl
    | cons a l ih =>
      rw [List.mapM_cons] at h
      obtain ⟨y, h₁, h⟩ := bind_ok h
      obtain ⟨rest, h₂, h⟩ := bind_ok h
      cases h
      rw [List.map_cons, List.map_cons, h₁, ih h₂]
  · intro h
    induction ys generalizing l with
    | nil =>
      rw [List.map_eq_nil_iff.1 h]
      rfl
    | cons y ys ih =>
      obtain ⟨a, l, rfl, ha, hl⟩ := List.map_eq_cons_iff.1 h
      rw [List.mapM_cons, ha, ih hl]
      rfl

theorem map_of_mapM_ok {γ : Type} {f : α → Except ε β} {g : α → γ} {g' : β → γ} {l : List α} {ys : List β}
    (hf : ∀ a b, f a = .ok b → g' b = g a) (h : l.mapM f = .ok ys) : ys.map g' = l.map g := by
  induction l generalizing ys with
  | nil =>
    cases h
    rfl
  | cons a l ih =>
    rw [List.mapM_cons] at h
    obtain ⟨y, h₁, h⟩ := bind_ok h
    obtain ⟨rest, h₂, h⟩ := bind_ok h
    cases h
    rw [List.map_cons, List.map_cons, hf a y h₁, ih h₂]

theorem exists_of_mapM_ok {f : α → Except ε β} {l : List α} {ys : List β} (h : l.mapM f = .ok ys) {b : β}
    (hb : b ∈ ys) : ∃ a ∈ l, f a = .ok b := by
  have hmem : (Except.ok b : Except ε β) ∈ l.map f := mapM_eq_ok_iff.1 h ▸ List.mem_map_of_mem hb
  obtain ⟨a, ha, hab⟩ := List.mem_map.1 hmem
  exact ⟨a, ha, hab⟩

theorem ok_of_mapM_ok {f : α → Except ε β} {l : List α} {ys : List β} (h : l.mapM f = .ok ys) {a : α}
    (ha : a ∈ l) : ∃ b, f a = .ok b := by
  have hmem : f a ∈ ys.map .ok := mapM_eq_ok_iff.1 h ▸ List.mem_map_of_mem ha
  obtain ⟨b, -, hb⟩ := List.mem_map.1 hmem
  exact ⟨b, hb.symm⟩

/-- A list of results is there as soon as there is one for each element. -/
theorem exists_mapM_ok {f : α → Except ε β} {l : List α} (h : ∀ a ∈ l, ∃ b, f a = .ok b) :
    ∃ ys, l.mapM f = .ok ys := by
  induction l with
  | nil => exact ⟨[], rfl⟩
  | cons a l ih =>
    obtain ⟨y, hy⟩ := h a (List.mem_cons_self ..)
    obtain ⟨ys, hys⟩ := ih fun b hb => h b (List.mem_cons_of_mem _ hb)
    exact ⟨y :: ys, by rw [List.mapM_cons, hy, hys]; rfl⟩

/-- A loop of checks passes only what each check passes. -/
theorem ok_of_forIn_ok {f : α → Except ε Unit} {l : List α} {u : PUnit}
    (h : (forIn l PUnit.unit fun a _ => do f a; pure (ForInStep.yield PUnit.unit)) = .ok u) :
    ∀ a ∈ l, f a = .ok () := by
  induction l with
  | nil => exact nofun
  | cons a l ih =>
    rw [List.forIn_cons] at h
    obtain ⟨s, hs, h⟩ := bind_ok h
    obtain ⟨v, hv, hs⟩ := bind_ok hs
    cases hs
    exact List.forall_mem_cons.2 ⟨hv, ih h⟩

/-- What one step of a loop keeps, the loop keeps. -/
theorem foldlM_ok {f : σ → α → Except ε σ} {P : σ → Prop} (hstep : ∀ s a s', P s → f s a = .ok s' → P s')
    {l : List α} {s s' : σ} (hs : P s) (h : l.foldlM f s = .ok s') : P s' := by
  induction l generalizing s with
  | nil =>
    cases h
    exact hs
  | cons a l ih =>
    rw [List.foldlM_cons] at h
    obtain ⟨s₁, h₁, h⟩ := bind_ok h
    exact ih (hstep s a s₁ hs h₁) h

/-- A view of the state that each step updates in its own way is updated by all of them in turn. -/
theorem foldl_of_foldlM_ok {f : σ → α → Except ε σ} {g : σ → β} {u : β → α → β}
    (hstep : ∀ s a s', f s a = .ok s' → g s' = u (g s) a) {l : List α} {s s' : σ} (h : l.foldlM f s = .ok s') :
    g s' = l.foldl u (g s) := by
  induction l generalizing s with
  | nil =>
    cases h
    rfl
  | cons a l ih =>
    rw [List.foldlM_cons] at h
    obtain ⟨s₁, h₁, h⟩ := bind_ok h
    rw [ih h, hstep s a s₁ h₁, List.foldl_cons]

/-- Results whose error, if any, has a property. -/
def Refuses (P : ε → Prop) (x : Except ε α) : Prop := ∀ e, x = .error e → P e

namespace Refuses

variable {P : ε → Prop} {x : Except ε α}

theorem ok (a : α) : Refuses P (.ok a : Except ε α) := fun _ h => nomatch h

theorem error {e : ε} (h : P e) : Refuses P (.error e : Except ε α) := fun e' he => by
  cases he
  exact h

theorem bind_of {f : α → Except ε β} (hx : Refuses P x) (hf : ∀ a, x = .ok a → Refuses P (f a)) :
    Refuses P (x >>= f) := by
  intro e he
  cases x with
  | error e' =>
    cases he
    exact hx e rfl
  | ok a => exact hf a rfl e he

theorem bind {f : α → Except ε β} (hx : Refuses P x) (hf : ∀ a, Refuses P (f a)) : Refuses P (x >>= f) :=
  hx.bind_of fun a _ => hf a

theorem mono {Q : ε → Prop} (h : Refuses P x) (hPQ : ∀ e, P e → Q e) : Refuses Q x := fun e he => hPQ e (h e he)

theorem foldlM {f : σ → α → Except ε σ} {l : List α} (hf : ∀ s, ∀ a ∈ l, Refuses P (f s a)) (s : σ) :
    Refuses P (l.foldlM f s) := by
  induction l generalizing s with
  | nil => exact ok s
  | cons a l ih =>
    have hl : ∀ s, ∀ b ∈ l, Refuses P (f s b) := fun s b hb => hf s b (List.mem_cons_of_mem a hb)
    exact (hf s a (List.mem_cons_self ..)).bind fun s' => ih hl s'

theorem mapM {f : α → Except ε β} {l : List α} (hf : ∀ a ∈ l, Refuses P (f a)) : Refuses P (l.mapM f) := by
  induction l with
  | nil => exact ok []
  | cons a l ih =>
    obtain ⟨ha, hl⟩ := List.forall_mem_cons.1 hf
    rw [List.mapM_cons]
    exact ha.bind fun b => (ih hl).bind fun bs => ok (b :: bs)

theorem left {f : α → Except ε β} (h : Refuses P (x >>= f)) : Refuses P x := by
  rintro e rfl
  exact h e rfl

/-- What two functions answer alike, but for some errors, they answer alike over a list. -/
theorem mapM_congr {f g : α → Except ε β} {l : List α} (hfg : ∀ a ∈ l, Refuses P (f a) → g a = f a)
    (h : Refuses P (l.mapM f)) : l.mapM g = l.mapM f := by
  induction l with
  | nil => rfl
  | cons a l ih =>
    obtain ⟨ha, hl⟩ := List.forall_mem_cons.1 hfg
    rw [List.mapM_cons] at h
    rw [List.mapM_cons, List.mapM_cons, ha h.left]
    cases hf : f a with
    | error e => rfl
    | ok b =>
      rw [hf] at h
      have hrest : Refuses P (l.mapM f >>= fun bs => pure (b :: bs)) := h
      rw [ih hl hrest.left]

end Refuses

/-- The error of a result, if it is one. -/
def failure? : Except ε α → Option ε
  | .error e => some e
  | .ok _ => none

theorem failure?_eq_some {x : Except ε α} {e : ε} : failure? x = some e ↔ x = .error e := by
  cases x with
  | error e' => exact ⟨fun h => congrArg _ (Option.some.inj h), fun h => congrArg _ (Except.error.inj h)⟩
  | ok a => exact ⟨nofun, nofun⟩

/-- A loop whose steps fail whatever the state is fails where the first of them does. -/
theorem failure?_foldlM {f : σ → α → Except ε σ} {err : α → Option ε} (hf : ∀ s a, failure? (f s a) = err a) (l : List α)
    (s : σ) : failure? (l.foldlM f s) = l.findSome? err := by
  induction l generalizing s with
  | nil => rfl
  | cons a l ih =>
    rw [List.foldlM_cons, List.findSome?_cons, ← hf s a]
    cases f s a with
    | error e => rfl
    | ok s' => exact ih s'

theorem failure?_mapM (f : α → Except ε β) (l : List α) :
    failure? (l.mapM f) = l.findSome? fun a => failure? (f a) := by
  induction l with
  | nil => rfl
  | cons a l ih =>
    rw [List.mapM_cons, List.findSome?_cons]
    cases f a with
    | error e => rfl
    | ok b =>
      refine Eq.trans ?_ ih
      change failure? (l.mapM f >>= fun bs => pure (b :: bs)) = _
      cases l.mapM f <;> rfl

end QuantumNode
