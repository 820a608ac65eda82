import QuantumNode.Proofs.Node.Awaiting

/-! What a subroutine finds when it looks at a range that it waits for. It is aborted after a failure, goes on when every
entry is set or no more will be, and begins to wait otherwise; nothing else makes it wait for a range. -/
namespace QuantumNode

open Node Work Working

variable {n m : Nat}

/-- A range gives a subroutine of an application no reason to go on: nothing has failed, an entry is unset, and more
entries may still be written. -/
structure Node.Withholds (node : Node n m) (app : Int) (a : AwaitedRange) : Prop where
  sound : app ∉ node.service.failed
  unset : ∀ values, node.entries? app a = some values → none ∈ values
  hopeful : Execution.abandoned node.service app = false

theorem Node.Overlooks.withholds {gone : Prop} {app : Int} {x y : Node n m} (h : x.Overlooks gone app y)
    {a : AwaitedRange} (hx : x.Withholds app a) : y.Withholds app a where
  sound hf := hx.sound (h.failed hf)
  unset values hv := by
    rcases h.entries a with he | ⟨-, he⟩
    · exact hx.unset values (he.symm.trans hv)
    · rw [he] at hv
      exact nomatch hv
  hopeful := Bool.eq_false_iff.2 fun hb => absurd (h.abandoned hb) (by simp [hx.hopeful])

/-- A process is in line for the next time that an array is written, and misses an entry of a range until then. The range
of an application that is gone may be gone, too. -/
structure Node.Posted (gone : Prop) (p : ProcessId) (node : Node n m) (app : Int) (a : AwaitedRange) : Prop where
  queued : p ∈ node.arrayWritten.waiters
  withholds : node.Withholds app a
  declared : gone ∨ ∃ values, node.entries? app a = some values

theorem Node.Overlooks.posted {gone : Prop} {app : Int} {x y : Node n m} (h : x.Overlooks gone app y) {p : ProcessId}
    {a : AwaitedRange} (hx : x.Posted gone p app a) : y.Posted gone p app a where
  queued := h.written ▸ hx.queued
  withholds := h.withholds hx.withholds
  declared := by
    rcases h.entries a with he | ⟨hg, -⟩
    · rw [he]
      exact hx.declared
    · exact .inl hg

theorem Node.Posted.mono {gone gone' : Prop} {p : ProcessId} {x : Node n m} {app : Int} {a : AwaitedRange}
    (h : x.Posted gone p app a) (hg : gone → gone') : x.Posted gone' p app a :=
  ⟨h.queued, h.withholds, h.declared.imp_left hg⟩

namespace Execution

/-- A subroutine that is to look at a range next: it waits for the range, or is to fetch the instruction that does. -/
inductive Awaits (node : Node n m) (e : Execution) : AwaitedRange → Prop where
  | waiting {a : AwaitedRange} (he : e.stage = .waiting a) : Awaits node e a
  | next {mem : AppMemory} {slice : ArraySlice} {start stop : Int} (he : e.stage = .fetch)
      (hmem : node.apps.get? e.app = some mem) (hi : e.subroutine.instructions[mem.pc]? = some (.waitAll slice))
      (hstart : mem.resolve slice.start = .ok start) (hstop : mem.resolve slice.stop = .ok stop) :
      Awaits node e ⟨slice.address, start, stop⟩

/-- What a look at a range comes to. -/
inductive Verdict (p : ProcessId) (e : Execution) (a : AwaitedRange) (x y : Node n m) : Step m → Prop where
  | aborted (hf : e.app ∈ x.service.failed) (hc : e.app ∉ y.service.failed) : Verdict p e a x y (.finished .aborted)
  | complete {values : ArrayValues} (hf : e.app ∉ x.service.failed) (hv : x.entries? e.app a = some values)
      (hset : none ∉ values) (hpc : y.apps.get? e.app = (x.apps.get? e.app).map AppMemory.incrementPc) :
      Verdict p e a x y (.go { e with stage := .fetch })
  | abandoned {values : ArrayValues} (hf : e.app ∉ x.service.failed) (hv : x.entries? e.app a = some values)
      (hunset : none ∈ values) (hb : Execution.abandoned x.service e.app = true)
      (hpc : y.apps.get? e.app = (x.apps.get? e.app).map AppMemory.incrementPc) :
      Verdict p e a x y (.go { e with stage := .fetch })
  | waits {values : ArrayValues} (hv : x.entries? e.app a = some values) (hx : x.Withholds e.app a)
      (hq : p ∈ y.arrayWritten.waiters) (ha : y.apps = x.apps) (hs : y.service = (x.service.takeFailure e.app).2) :
      Verdict p e a x y (.rest { e with stage := .waiting a })

/-- How many instructions have been executed does not matter. -/
theorem Verdict.of_executed {p : ProcessId} {e : Execution} {a : AwaitedRange} {x y : Node n m} {flow : Step m} {k : Nat}
    (h : Verdict p e a { x with executed := k } y flow) : Verdict p e a x y flow := by
  cases h with
  | aborted hf hc => exact .aborted hf hc
  | complete hf hv hset hpc => exact .complete hf hv hset hpc
  | abandoned hf hv hunset hb hpc => exact .abandoned hf hv hunset hb hpc
  | waits hv hx hq ha hs => exact .waits hv ⟨hx.sound, hx.unset, hx.hopeful⟩ hq ha hs

theorem all_isSome_iff (values : ArrayValues) : values.all Option.isSome = true ↔ none ∉ values := by
  rw [Array.all_eq_true_iff_forall_mem]
  constructor
  · exact fun h hn => nomatch h none hn
  · intro h v hv
    cases v with
    | none => exact absurd hv h
    | some v => rfl

theorem advance_ends {app : Int} {mem : AppMemory} {w : Working (Node n m) n m} (hmem : w.part.apps.get? app = some mem) :
    Ends (advance app) w fun _ w' => w'.part.apps.get? app = some mem.incrementPc := fun _ w' he => by
  rw [advance, exec_updateMemory, hmem] at he
  cases he
  exact SortedMap.get?_insert_self ..

theorem checkRange_verdict (p : ProcessId) (e : Execution) (a : AwaitedRange) (w : Working (Node n m) n m) :
    Ends (checkRange p e a) w fun flow w' => Verdict p e a w.part w'.part flow := by
  refine .part (.modifyPart ?_)
  dsimp only [PairService.takeFailure]
  split
  · rename_i hf
    refine .bind <| (memory_ends e.app).mono fun mem w₁ ⟨hw, _⟩ => .bind <| (log_ends _ _ _).mono fun _ w₂ h₂ => ?_
    refine .pure (.aborted (List.contains_iff_mem.1 hf) ?_)
    rw [h₂, hw]
    simp
  · rename_i hf
    have hf : e.app ∉ w.part.service.failed := fun h => hf (List.contains_iff_mem.2 h)
    refine .bind <| (memory_ends e.app).mono fun mem w₁ ⟨hw, hmem⟩ => .ofExcept fun values hv => ?_
    subst hw
    have hmem : w.part.apps.get? e.app = some mem := hmem
    have hentries : w.part.entries? e.app a = some values := by rw [entries?, hmem, Option.bind_some, hv, Except.toOption]
    have hgo : ∀ {w₁ : Working (Node n m) n m}, w₁.part.apps = w.part.apps →
        (∀ y : Node n m, y.apps.get? e.app = (w.part.apps.get? e.app).map AppMemory.incrementPc →
          Verdict p e a w.part y (.go { e with stage := .fetch })) →
        Ends (do advance e.app; return .go { e with stage := .fetch }) w₁
          fun flow w' => Verdict p e a w.part w'.part flow := fun h₁ hy =>
      .bind ((advance_ends (h₁ ▸ hmem)).mono fun _ w' h => .pure (hy w'.part (h.trans (by rw [hmem]; rfl))))
    split
    · rename_i hset
      exact hgo rfl fun _ h => .complete hf hentries ((all_isSome_iff values).1 hset) h
    · rename_i hunset
      have hunset : none ∈ values := Decidable.of_not_not fun h => hunset ((all_isSome_iff values).2 h)
      split
      · rename_i hb
        exact .bind <| (log_ends _ _ _).mono fun _ w₁ h₁ => hgo (by rw [h₁]) fun _ h => .abandoned hf hentries hunset hb h
      · rename_i hb
        have hw : w.part.Withholds e.app a := by
          refine ⟨hf, fun values' h => ?_, Bool.eq_false_iff.2 hb⟩
          rw [hentries] at h
          exact Option.some.inj h ▸ hunset
        exact .modifyPart (.pure (.waits hentries hw (List.mem_append_right _ (List.mem_singleton.2 rfl)) rfl rfl))

theorem resolve_ends {app : Int} {mem : AppMemory} {w : Working (Node n m) n m} (hmem : w.part.apps.get? app = some mem)
    (v : Value) : Ends (resolve app v) w fun k w' => w' = w ∧ mem.resolve v = .ok k := fun k w' he => by
  simp only [resolve, memory, exec_bind, exec_part, hmem, exec_pure, exec_ofExcept] at he
  obtain ⟨hk, rfl⟩ := Prod.mk.inj he
  exact ⟨rfl, hk⟩

theorem waitAll_verdict (p : ProcessId) {e : Execution} {slice : ArraySlice} {mem : AppMemory}
    {w : Working (Node n m) n m} (hmem : w.part.apps.get? e.app = some mem) :
    Ends (waitAll p e slice) w fun flow w' => ∃ start stop, mem.resolve slice.start = .ok start ∧
      mem.resolve slice.stop = .ok stop ∧ Verdict p e ⟨slice.address, start, stop⟩ w.part w'.part flow := by
  refine .bind <| (resolve_ends hmem _).mono fun start w₁ ⟨h₁, hstart⟩ => ?_
  subst h₁
  refine .bind <| (resolve_ends hmem _).mono fun stop w₂ ⟨h₂, hstop⟩ => ?_
  subst h₂
  refine .bind <| (log_ends _ _ _).mono fun _ w₃ h₃ => ?_
  rw [← h₃]
  exact (checkRange_verdict p e _ w₃).mono fun _ _ h => ⟨start, stop, hstart, hstop, h⟩

/-- A subroutine at a wait looks at the range. -/
theorem step_verdict (p : ProcessId) {e : Execution} {a : AwaitedRange} {w : Working (Node n m) n m}
    (h : e.Awaits w.part a) : Ends (step p e) w fun flow w' => Verdict p e a w.part w'.part flow := by
  unfold step
  cases h with
  | waiting he =>
    rw [he]
    exact .bind <| (log_ends _ _ _).mono fun _ w₁ h₁ => h₁ ▸ checkRange_verdict p e a w₁
  | @next mem slice start stop he hmem hi hstart hstop =>
    rw [he]
    refine .bind <| (memory_ends e.app).mono fun mem' w₀ ⟨hw, hmem'⟩ => ?_
    subst hw
    obtain rfl : mem = mem' := Option.some.inj (hmem.symm.trans hmem')
    dsimp only
    rw [hi]
    refine .bind <| (log_ends _ _ _).mono fun _ w₁ h₁ => .modifyPart ?_
    rw [← h₁] at hmem ⊢
    let w₂ : Working (Node n m) n m := { w₁ with part := { w₁.part with executed := w₁.part.executed + 1 } }
    refine (waitAll_verdict (w := w₂) p hmem).mono fun flow w' ⟨start', stop', hstart', hstop', h⟩ => ?_
    rw [hstart] at hstart'
    rw [hstop] at hstop'
    cases hstart'
    cases hstop'
    exact h.of_executed

/-! Nothing else aborts a subroutine or makes it wait for a range. -/

theorem Verdict.posted {p : ProcessId} {e e' : Execution} {a a' : AwaitedRange} {x y : Node n m} {flow : Step m}
    (h : Verdict p e a x y flow) (hgo : flow.going? = some e') (he : e'.stage = .waiting a') :
    y.Posted False p e'.app a' := by
  cases h with
  | aborted _ _ => exact nomatch hgo
  | complete _ _ _ _ =>
    cases hgo
    exact nomatch he
  | abandoned _ _ _ _ _ =>
    cases hgo
    exact nomatch he
  | @waits values hv hx hq ha hs =>
    cases hgo
    cases he
    have hentries : y.entries? e.app a = x.entries? e.app a := entries?_congr (by rw [ha]) a
    refine ⟨hq, ⟨fun hf => ?_, fun values' hv' => hx.unset values' (hentries.symm.trans hv'), ?_⟩,
      .inr ⟨values, hentries.trans hv⟩⟩
    · rw [hs] at hf
      exact hx.sound (List.mem_filter.1 hf).1
    · rw [hs]
      exact hx.hopeful

/-- What a step comes to that has looked at no range: the subroutine is neither aborted nor left waiting for one. -/
structure Awake (flow : Step m) : Prop where
  spared : flow ≠ .finished .aborted
  free : ∀ e a, flow.going? = some e → e.stage ≠ .waiting a

/-- Work on a subroutine that looks at no range. -/
def Blind (x : NodeWork n m (Step m)) : Prop := Yields Awake x

theorem Blind.go {e : Execution} (h : ∀ a, e.stage ≠ .waiting a) : Blind (pure (.go e) : NodeWork n m (Step m)) :=
  .pure ⟨(fun he => nomatch he), fun _ a he => by
    cases he
    exact h a⟩

theorem Blind.rest {e : Execution} (h : ∀ a, e.stage ≠ .waiting a) : Blind (pure (.rest e) : NodeWork n m (Step m)) :=
  .pure ⟨(fun he => nomatch he), fun _ a he => by
    cases he
    exact h a⟩

variable (p : ProcessId) (e : Execution)

theorem unsupported_blind (i : Instruction) : Blind (unsupported i : NodeWork n m (Step m)) :=
  .bind fun _ => .bind fun _ => .fail _

theorem operate_blind (c : DeviceCall) : Blind (operate p e c : NodeWork n m (Step m)) := .bind fun _ => Blind.rest nofun

theorem beginReadout_blind (virt : Int) (dest : Register) : Blind (beginReadout e virt dest : NodeWork n m (Step m)) :=
  .bind fun _ => .bind fun target => by
    cases target with
    | none => exact .fail _
    | some _ => exact .bind fun _ => Blind.go nofun

theorem quantum_blind (i : Instruction) : Blind (quantum p e i : NodeWork n m (Step m)) := .bind fun _ => by
  split
  · exact .bind fun _ => operate_blind p e _
  · exact .ite (unsupported_blind _) (.bind fun _ => operate_blind p e _)
  · exact .bind fun _ => operate_blind p e _
  · exact .ite (unsupported_blind _) (.bind fun _ => .bind fun _ => operate_blind p e _)
  · exact .ite (.bind fun _ => .bind fun _ => operate_blind p e _) (unsupported_blind _)
  · exact .ite (.bind fun _ => beginReadout_blind e _ _) (.bind fun _ => .bind fun _ => Blind.rest nofun)
  · exact unsupported_blind _

theorem beginMove_blind (r : Readout) (owner : Option (Int × Int)) (steps : List RelocationStep) (calls : List DeviceCall) :
    Blind (beginMove p e r owner steps calls : NodeWork n m (Step m)) := by
  cases calls with
  | nil => exact Blind.go nofun
  | cons c calls => exact .bind fun _ => Blind.rest nofun

theorem relocate_blind (r : Readout) (s : RelocationStep) (steps : List RelocationStep) :
    Blind (relocate p e r s steps : NodeWork n m (Step m)) := .bind fun _ => by
  cases s with
  | allocateElectron => exact .bind fun _ => .bind fun _ => Blind.go nofun
  | allocateFreeCarbon => exact .bind fun _ => Blind.go nofun
  | moveElectronToCarbon => exact .bind fun _ => beginMove_blind p e _ _ _ _
  | moveCarbonToElectron => exact beginMove_blind p e _ _ _ _
  | freeCarbon => exact .bind fun _ => Blind.go nofun
  | measureElectron => exact .bind fun _ => Blind.rest nofun

theorem perform_blind {i : Instruction} (hi : ∀ slice, i ≠ .waitAll slice) :
    Blind (perform p e i : NodeWork n m (Step m)) := by
  cases i with
  | jump _ => exact .bind fun _ => Blind.go nofun
  | branchZero _ _ _ => exact .bind fun _ => Blind.go nofun
  | branch _ _ _ _ => exact .bind fun _ => Blind.go nofun
  | waitAll slice => exact absurd rfl (hi slice)
  | init _ => exact quantum_blind p e (.init _)
  | gate _ _ => exact quantum_blind p e (.gate _ _)
  | rotate _ _ _ _ => exact quantum_blind p e (.rotate _ _ _ _)
  | pairGate _ _ _ => exact quantum_blind p e (.pairGate _ _ _)
  | directed _ _ _ _ _ => exact quantum_blind p e (.directed _ _ _ _ _)
  | measure _ _ => exact quantum_blind p e (.measure _ _)
  | _ => exact .bind fun _ => .bind fun _ => Blind.go nofun

/-- A step looks at the range that the subroutine awaits, or at none. -/
theorem step_looks (w : Working (Node n m) n m) : Ends (step p e) w fun flow w' =>
    Awake flow ∨ ∃ a, e.Awaits w.part a ∧ Verdict p e a w.part w'.part flow := by
  have hblind : ∀ {x : NodeWork n m (Step m)} {w₁ : Working (Node n m) n m}, Blind x → Ends x w₁ fun flow w' =>
      Awake flow ∨ ∃ a, e.Awaits w.part a ∧ Verdict p e a w.part w'.part flow :=
    fun {_ w₁} h => (h w₁).mono fun _ _ => .inl
  unfold step
  split
  · exact hblind (.bind fun _ => .bind fun _ => Blind.go nofun)
  · rename_i hstage
    refine .bind <| (memory_ends e.app).mono fun mem w₀ ⟨hw, hmem⟩ => ?_
    subst hw
    dsimp only
    split
    · exact .pure (.inl ⟨(fun h => nomatch h), (fun _ _ h => nomatch h)⟩)
    · rename_i i hi
      by_cases hwait : ∃ slice, i = .waitAll slice
      · obtain ⟨slice, rfl⟩ := hwait
        refine .bind <| (log_ends _ _ _).mono fun _ w₁ h₁ => .modifyPart ?_
        rw [← h₁] at hmem ⊢
        let w₂ : Working (Node n m) n m := { w₁ with part := { w₁.part with executed := w₁.part.executed + 1 } }
        refine (waitAll_verdict (w := w₂) p hmem).mono fun flow w' ⟨start, stop, hstart, hstop, h⟩ => .inr ?_
        exact ⟨_, .next hstage hmem hi hstart hstop, h.of_executed⟩
      · exact hblind (.bind fun _ => .bind fun _ => perform_blind p e fun slice h => hwait ⟨slice, h⟩)
  · exact hblind (.bind fun _ => .bind fun _ => Blind.go nofun)
  · exact hblind (.bind fun _ => .bind fun _ => .bind fun _ => Blind.go nofun)
  · exact hblind (Blind.go nofun)
  · exact hblind (relocate_blind p e _ _ _)
  · exact hblind (.bind fun _ => .bind fun _ => Blind.go nofun)
  · exact hblind (.bind fun _ => beginMove_blind p e _ _ _ _)
  · rename_i a hstage
    refine .bind <| (log_ends _ _ _).mono fun _ w₁ h₁ => ?_
    rw [← h₁]
    exact (checkRange_verdict p e a w₁).mono fun _ _ h => .inr ⟨a, .waiting hstage, h⟩

/-- A subroutine that is left waiting for a range is in line for the next time that an array is written. -/
theorem step_posts (w : Working (Node n m) n m) : Ends (step p e) w fun flow w' =>
    ∀ e' a, flow.going? = some e' → e'.stage = .waiting a → w'.part.Posted False p e'.app a :=
  (step_looks p e w).mono fun _ _ h e' a hgo he => by
    rcases h with h | ⟨_, -, h⟩
    · exact absurd he (h.free e' a hgo)
    · exact h.posted hgo he

end Execution

namespace Dispatch

theorem answer_unseen {gone : Prop} {app other : Int} (status : ExecutionStatus) :
    Within (Unseen gone app) (answer other status : NodeWork n m (Step m)) := (modifyDispatcher_steering _).bind fun _ => by
  cases status with
  | ok => exact (memory_mild _).bind fun _ => (reply_steering _).bind fun _ => .pure _
  | aborted => exact (clearApp_unseen nofun).bind fun _ => (reply_steering _).bind fun _ => .pure _

/-- A dispatcher that has answered a subroutine takes the next one of the application. -/
theorem answer_serves (app : Int) (status : ExecutionStatus) :
    Yields (· = .go (.serving app)) (answer app status : NodeWork n m (Step m)) := .bind fun _ => by
  cases status with
  | ok => exact .bind fun _ => .bind fun _ => .pure rfl
  | aborted => exact .bind fun _ => .bind fun _ => .pure rfl

theorem takeMessage_awake (text : String) :
    Yields (fun flow => ∀ app e, flow.stage ≠ .running app e) (takeMessage text : NodeWork n m (Step m)) := by
  unfold takeMessage
  split
  · exact .bind fun _ => .fail _
  · refine .bind fun _ => .bind fun _ => ?_
    split
    · exact .pure fun _ _ h => nomatch h
    · exact .pure fun _ _ h => nomatch h

/-- A dispatcher whose subroutine is left waiting for a range is in line for the next time that an array is written. -/
theorem step_posts (p : ProcessId) (stage : DispatchStage) (wake : Wake) (w : Working (Node n m) n m) :
    Ends (step p stage wake) w fun flow w' => ∀ app e a, flow.stage = .running app e → e.stage = .waiting a →
      w'.part.Posted False p e.app a := by
  have hawake : ∀ {x : NodeWork n m (Step m)} {w : Working (Node n m) n m},
      Yields (fun flow => ∀ app e, flow.stage ≠ .running app e) x → Ends x w fun flow w' =>
        ∀ app e a, flow.stage = .running app e → e.stage = .waiting a → w'.part.Posted False p e.app a :=
    fun {x w} hx => (hx w).mono fun _ _ h app e _ hst => absurd hst (h app e)
  unfold step
  split
  · exact hawake (takeMessage_awake _)
  · refine hawake (.bind fun _ => .bind fun _ => ?_)
    split
    · exact takeMessage_awake _
    · exact .pure fun _ _ h => nomatch h
  · refine .part ?_
    split
    · refine .bind fun _ _ _ => .pure fun app e a hst he => ?_
      cases hst
      exact nomatch he
    · exact .pure fun _ _ _ h => nomatch h
  · rename_i app e
    refine .bind fun flow w₁ hx => ?_
    have hp := Execution.step_posts p e w flow w₁ hx
    cases flow with
    | go e' =>
      refine .pure fun _ e a hst he => ?_
      cases hst
      exact hp e' a rfl he
    | rest e' =>
      refine .pure fun _ e a hst he => ?_
      cases hst
      exact hp e' a rfl he
    | call _ _ _ _ => exact nomatch Execution.step_local p e w _ w₁ hx
    | finished status =>
      refine hawake fun w flow w' h => ?_
      rw [answer_serves app status w flow w' h]
      exact fun _ _ h => nomatch h

end Dispatch

end QuantumNode
