import QuantumNode.Proofs.Network.Trace
import Mathlib.Algebra.GroupWithZero.Nat

/-! Runs that can be computed: the client follows a list of directions, and what passes is recorded. -/
namespace QuantumNode

variable {n m : Nat}

/-- What a client does next, or how far it lets the network move by itself. -/
inductive Direction (n : Nat) where
  | start
  | act (a : ClientAct n)
  /-- At most `steps` steps, and no event later than `limit`. -/
  | run (limit steps : Nat)

def Direction.act? : Direction n → Option (ClientAct n)
  | act a => some a
  | _ => none

namespace Network

/-- The next step of a network by itself, up to a time. A fault has none. -/
def moveOn? (s : Network n m) (limit : Nat) : Option (Network n m) :=
  match s.proceed with
  | .went s' => some s'
  | .failed _ _ => none
  | .settled =>
    match s.agenda.next limit with
    | .event e a => some ({ s with agenda := a }.begin e).2
    | _ => none

def runOn (limit : Nat) : Nat → List (Moment n m) → Network n m → List (Moment n m) × Network n m
  | 0, past, s => (past, s)
  | steps + 1, past, s =>
    match s.moveOn? limit with
    | some s' => runOn limit steps (⟨s, none⟩ :: past) s'
    | none => (past, s)

/-- Follows directions; an act that meets a fault or comes at a wrong moment cannot be followed. -/
def follow : List (Direction n) → List (Moment n m) → Network n m → Option (List (Moment n m) × Network n m)
  | [], past, s => some (past, s)
  | .start :: script, past, s =>
    match s.current with
    | none => follow script (⟨s, none⟩ :: past) s.start
    | some _ => none
  | .act a :: script, past, s =>
    match s.current, a.run s with
    | none, (.ok (), s') => follow script (⟨s, some a⟩ :: past) s'
    | _, _ => none
  | .run limit steps :: script, past, s =>
    let r := runOn limit steps past s
    follow script r.1 r.2

/-- The run of a freshly built network whose client follows directions. -/
def rehearse (c : NetworkConfig) (script : List (Direction c.nodes.length)) :
    Option (List (Moment c.nodes.length c.links.length) × Network c.nodes.length c.links.length) :=
  match build c with
  | .ok s => follow script [] s
  | .error _ => none

theorem moves_of_moveOn? {s s' : Network n m} {limit : Nat} (h : s.moveOn? limit = some s') : s.Moves s' := by
  unfold moveOn? at h
  split at h
  · rename_i hp
    cases h
    exact .proceed hp
  · exact nomatch h
  · rename_i hp
    split at h
    · rename_i hn
      cases h
      exact .begin (current_eq_none hp) hn
    · exact nomatch h

section Trace

variable {c : NetworkConfig} {may : ClientAct c.nodes.length → Prop}
  {past past' : List (Moment c.nodes.length c.links.length)} {s s' : Network c.nodes.length c.links.length}

theorem Trace.runOn (h : Trace c may past s) (limit steps : Nat) :
    Trace c may (Network.runOn limit steps past s).1 (Network.runOn limit steps past s).2 := by
  induction steps generalizing past s with
  | zero => exact h
  | succ steps ih =>
    rw [Network.runOn]
    split
    · rename_i hm
      exact ih (h.move (moves_of_moveOn? hm))
    · exact h

theorem Trace.follow (h : Trace c may past s) {script : List (Direction c.nodes.length)}
    (hmay : ∀ a ∈ script.filterMap Direction.act?, may a) (hf : Network.follow script past s = some (past', s')) :
    Trace c may past' s' := by
  induction script generalizing past s with
  | nil =>
    cases hf
    exact h
  | cons d script ih =>
    cases d with
    | start =>
      rw [Network.follow] at hf
      split at hf
      · rename_i hc
        exact ih (h.move (.start hc)) hmay hf
      · exact nomatch hf
    | act a =>
      rw [Network.follow] at hf
      have ha : a ∈ (Direction.act a :: script).filterMap Direction.act? :=
        List.mem_filterMap.2 ⟨_, List.mem_cons_self, rfl⟩
      split at hf
      · rename_i hc hr
        exact ih (h.act a (hmay a ha) hc hr) (fun b hb => hmay b (List.mem_cons_of_mem _ hb)) hf
      · exact nomatch hf
    | run limit steps =>
      rw [Network.follow] at hf
      exact ih (h.runOn limit steps) hmay hf

/-- A rehearsal is a run. -/
theorem Trace.rehearse {script : List (Direction c.nodes.length)}
    (h : Network.rehearse c script = some (past, s)) (hmay : ∀ a ∈ script.filterMap Direction.act?, may a) :
    Trace c may past s := by
  unfold Network.rehearse at h
  split at h
  · rename_i hb
    exact Trace.follow (.built hb) hmay h
  · exact nomatch h

/-- What holds at the end of a rehearsal holds at the end of some run. -/
theorem Trace.exists_of_rehearse (c : NetworkConfig) (may : ClientAct c.nodes.length → Prop)
    (script : List (Direction c.nodes.length))
    (p : List (Moment c.nodes.length c.links.length) × Network c.nodes.length c.links.length → Bool)
    (h : (Network.rehearse c script).any p = true) (hmay : ∀ a ∈ script.filterMap Direction.act?, may a) :
    ∃ past s, Trace c may past s ∧ p (past, s) = true := by
  obtain ⟨hs, hp⟩ := (Option.any_eq_true_iff_get _ _).1 h
  exact ⟨_, _, .rehearse (Option.some_get hs).symm hmay, hp⟩

end Trace

/-- Two nodes and a link between them. -/
def duo : NetworkConfig :=
  { NetworkConfig.standard with
    nodes := [⟨"a", .generic .standard⟩, ⟨"b", .generic .standard⟩]
    links := [.standard "a" "b"] }

instance : NeZero duo.nodes.length := ⟨Nat.succ_ne_zero 1⟩

/-- Application 0 of each node gets a socket to the other node; the first may ask for two pairs that are kept. -/
def duoOpening : List (Direction duo.nodes.length) :=
  [.start, .run 0 100, .act (.atNode 0 (.register 2)), .act (.atNode 1 (.register 2)),
    .act (.atNode 0 (.openSocket 0 0 1)), .act (.atNode 1 (.openSocket 0 0 0)),
    .act (.atNode 0 (.declare 0 1 #[some 0, some 2]))]

/-- The request of either application. -/
def duoRequest (i : Fin duo.nodes.length) : EntanglementRequest where
  role := if i = 0 then .create else .receive
  app := 0
  remote := if i = 0 then 1 else 0
  socket := 0
  qubitArray := 0
  argumentArray := 1
  resultArray := 2

end Network

end QuantumNode
