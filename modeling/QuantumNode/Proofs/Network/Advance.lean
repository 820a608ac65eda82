import QuantumNode.Proofs.Entanglement.Usage
import QuantumNode.Proofs.Network.Rehearsal

/-! Runs that can be computed although nobody computes how long a link takes to make its pair: while the link works nothing
else is ahead, and whoever is answered goes on at once, in the order of the answers. -/
namespace QuantumNode

namespace Agenda

variable {ε : Type} {a : Agenda ε}

/-- An event falls due now, after whatever is still to happen. -/
def append (a : Agenda ε) (e : ε) : Agenda ε :=
  { a with seq := a.seq + 1, queue := a.queue ++ [⟨(a.now + 0) % Word.size64, a.seq, e⟩] }

/-- Whatever is still to happen falls due now. -/
def Prompt (a : Agenda ε) : Prop := ∀ t ∈ a.queue, t.time = (a.now + 0) % Word.size64 ∧ t.seq < a.seq

theorem enqueue_eq_append {s : Scheduled ε} {q : List (Scheduled ε)} (h : ∀ t ∈ q, s.before t = false) :
    enqueue s q = q ++ [s] := by
  induction q with
  | nil => rfl
  | cons t q ih =>
    obtain ⟨ht, hq⟩ := List.forall_mem_cons.1 h
    rw [enqueue, ht, if_neg Bool.false_ne_true, ih hq, List.cons_append]

theorem Prompt.schedule_eq (h : a.Prompt) (e : ε) : a.schedule 0 e = a.append e := by
  rw [schedule, append, enqueue_eq_append]
  intro t ht
  obtain ⟨htime, hseq⟩ := h t ht
  simp [Scheduled.before, htime, Nat.le_of_lt hseq]

theorem Prompt.append (h : a.Prompt) (e : ε) : (a.append e).Prompt := fun t ht => by
  rcases List.mem_append.1 ht with ht | ht
  · exact ⟨(h t ht).1, Nat.lt_succ_of_lt (h t ht).2⟩
  · obtain rfl := List.mem_singleton.1 ht
    exact ⟨rfl, Nat.lt_succ_self _⟩

theorem Prompt.foldl_schedule (h : a.Prompt) (es : List ε) :
    es.foldl (fun a e => a.schedule 0 e) a = es.foldl Agenda.append a := by
  induction es generalizing a with
  | nil => rfl
  | cons e es ih => rw [List.foldl_cons, List.foldl_cons, h.schedule_eq, ih (h.append e)]

end Agenda

namespace Network

variable {n m : Nat} {l : Fin m}

/-- Who goes on at once when a link is answering. -/
def roused (l : Fin m) : Network n m → List LinkEffect → List (NetworkEvent n m)
  | _, [] => []
  | s, x :: xs =>
    (match x with
      | .answer e a => (((s.wired l).answers e).countSent.arrive a).1.map fun p => NetworkEvent.resume p (.answer a)
      | _ => none).toList ++ roused l (applyLink l s x) xs

theorem foldl_applyLink_agenda (s : Network n m) {es : List LinkEffect} (h : LinkEffect.events es = []) :
    (es.foldl (applyLink l) s).agenda = (roused l s es).foldl (fun a e => a.schedule 0 e) s.agenda := by
  induction es generalizing s with
  | nil => rfl
  | cons x es ih =>
    cases x with
    | schedule delay e => exact nomatch h
    | log level text => exact ih _ h
    | answer e a =>
      rw [List.foldl_cons, roused, List.foldl_append, ih _ h]
      congr 1
      change (s.answer l e a).agenda = _
      unfold answer
      dsimp only
      rcases ((s.wired l).answers e).countSent.arrive a with ⟨_ | p, c⟩
      · rfl
      · rfl

/-- A link completes its pair while nothing else is ahead. -/
def complete (s : Network n m) (l : Fin m) (ticket : Nat) : Network n m :=
  let r := (s.link l).fire (.complete ticket) s.quantum
  { s.fireLink l (.complete ticket) with
    agenda := (roused l (({ s with quantum := r.2 } : Network n m).setLink l r.1.2) r.1.1).foldl .append s.agenda }

theorem fireLink_eq_complete {s : Network n m} (h : s.agenda.queue = []) (ticket : Nat) :
    s.fireLink l (.complete ticket) = s.complete l ticket := by
  have hprompt : s.agenda.Prompt := fun t ht => by
    rw [h] at ht
    exact nomatch ht
  have hagenda : (s.fireLink l (.complete ticket)).agenda = (s.complete l ticket).agenda := by
    refine (foldl_applyLink_agenda _ ((s.link l).fire_events (.complete ticket) s.quantum)).trans ?_
    exact Agenda.Prompt.foldl_schedule hprompt _
  change _ = { s.fireLink l (.complete ticket) with agenda := (s.complete l ticket).agenda }
  rw [← hagenda]

/-- The next step of a network by itself, whenever its next event falls due. -/
def advance? (s : Network n m) : Option (Network n m) :=
  match s.proceed with
  | .went s' => some s'
  | .failed _ _ => none
  | .settled =>
    match s.agenda.queue with
    | [] => none
    | x :: rest =>
      let s : Network n m := { s with agenda := { s.agenda with now := x.time, queue := rest } }
      match x.event, rest with
      | .link l (.complete ticket), [] => some (s.complete l ticket)
      | e, _ => some (s.begin e).2

def advance : Nat → List (Moment n m) → Network n m → List (Moment n m) × Network n m
  | 0, past, s => (past, s)
  | steps + 1, past, s =>
    match s.advance? with
    | some s' => advance steps (⟨s, none⟩ :: past) s'
    | none => (past, s)

theorem moves_of_advance? {s s' : Network n m} (h : s.advance? = some s') : s.Moves s' := by
  unfold advance? at h
  split at h
  · rename_i hp
    cases h
    exact .proceed hp
  · exact nomatch h
  · rename_i hp
    split at h
    · exact nomatch h
    · rename_i x rest hq
      have hnext : s.agenda.next x.time = .event x.event { s.agenda with now := x.time, queue := rest } := by
        rw [Agenda.next, hq]
        exact if_neg (Nat.lt_irrefl _)
      have hbegin := Moves.begin (current_eq_none hp) hnext
      split at h
      · rename_i l ticket he
        cases h
        rw [← fireLink_eq_complete rfl]
        rwa [he] at hbegin
      · cases h
        exact hbegin

theorem Trace.advance {c : NetworkConfig} {may : ClientAct c.nodes.length → Prop}
    {past : List (Moment c.nodes.length c.links.length)} {s : Network c.nodes.length c.links.length}
    (h : Trace c may past s) (steps : Nat) :
    Trace c may (Network.advance steps past s).1 (Network.advance steps past s).2 := by
  induction steps generalizing past s with
  | zero => exact h
  | succ steps ih =>
    rw [Network.advance]
    split
    · rename_i hm
      exact ih (h.move (moves_of_advance? hm))
    · exact h

/-- What holds after some steps beyond the end of a rehearsal holds at the end of some run. -/
theorem Trace.exists_of_advance (c : NetworkConfig) (may : ClientAct c.nodes.length → Prop)
    (script : List (Direction c.nodes.length)) (steps : Nat)
    (p : List (Moment c.nodes.length c.links.length) × Network c.nodes.length c.links.length → Bool)
    (h : ((Network.rehearse c script).any fun r => p (Network.advance steps r.1 r.2)) = true)
    (hmay : ∀ a ∈ script.filterMap Direction.act?, may a) : ∃ past s, Trace c may past s ∧ p (past, s) = true := by
  obtain ⟨past, s, ht, hp⟩ := Trace.exists_of_rehearse c may script (fun r => p (Network.advance steps r.1 r.2)) h hmay
  exact ⟨_, _, ht.advance steps, hp⟩

end Network

end QuantumNode
