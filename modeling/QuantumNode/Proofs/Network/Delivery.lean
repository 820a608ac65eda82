import QuantumNode.Proofs.Handshake.Peers
import QuantumNode.Proofs.Network.Advance
import QuantumNode.Proofs.Network.Departure
import QuantumNode.Proofs.Network.Starvation
import QuantumNode.Proofs.Node.Delivery

/-! How a request for several pairs is served. Its pairs are asked for one at a time and in order, each when the row of the
one before it has been written, up to the first that fails. After an abort no more pairs are asked for, but one may still be
under way. -/
namespace QuantumNode

open Node Work Working

variable {n m : Nat}

/-- What a pair service does for a pair of its task. -/
inductive PairNote where
  /-- It asks a link for the pair. -/
  | call (k : Nat)
  /-- It writes the row of the pair. -/
  | row (k : Nat)
  /-- It is told that the pair has failed. -/
  | failure (k : Nat)
  deriving DecidableEq

namespace PairNote

/-- One pair after another is asked for, and its row written. -/
def rounds (rows : Nat) : List PairNote := (List.range rows).flatMap fun k => [.call k, .row k]

theorem rounds_succ (k : Nat) : rounds (k + 1) = rounds k ++ [.call k] ++ [.row k] := by
  simp [rounds, List.range_succ]

/-- What has been done for a task of `count` pairs when `rows` rows have been written. -/
inductive Unfolds (count rows : Nat) : List PairNote → Prop where
  | between (h : rows ≤ count) : Unfolds count rows (rounds rows)
  | called (h : rows < count) : Unfolds count rows (rounds rows ++ [.call rows])
  | failed (h : rows < count) : Unfolds count rows (rounds rows ++ [.call rows] ++ [.failure rows])

end PairNote

open PairNote

namespace Pairing

/-- What is noted of a step of a pair service. -/
def note? (stage : PairStage) (wake : Wake) (result : Except Fault (Step m)) : Option PairNote :=
  match stage, wake with
  | .linking _ k _, .answer (.refused _ _) => some (.failure k)
  | _, _ =>
    match result with
    | .ok (.call (.linking _ k _) _ _ _) => some (.call k)
    | .ok (.go (.next _ (k + 1))) => some (.row k)
    | _ => none

theorem note?_cases (stage : PairStage) (wake : Wake) (result : Except Fault (Step m)) :
    note? stage wake result = none ∨
      (∃ t k position cause kind, stage = .linking t k position ∧ wake = .answer (.refused cause kind) ∧
        note? stage wake result = some (.failure k)) ∨
      (∃ t k position l e c, result = .ok (.call (.linking t k position) l e c) ∧
        note? stage wake result = some (.call k)) ∨
      ∃ t k, result = .ok (.go (.next t (k + 1))) ∧ note? stage wake result = some (.row k) := by
  unfold note?
  split
  · exact .inr (.inl ⟨_, _, _, _, _, rfl, rfl, rfl⟩)
  · split
    · exact .inr (.inr (.inl ⟨_, _, _, _, _, _, rfl, rfl⟩))
    · exact .inr (.inr (.inr ⟨_, _, rfl, rfl⟩))
    · exact .inl rfl

/-- With a pair in hand no pair fails. -/
theorem Gets.note?_eq {t : PairTask} {k : Nat} {pair : Pair} {stage : PairStage} {wake : Wake} (h : Gets t k pair stage wake)
    (result : Except Fault (Step m)) : note? stage wake result = note? .idle wake result := by
  cases h with
  | _ => rfl

section Deed

variable {here : Fin n} {port : Int → Option (Fin m × LinkEnd)} {recorded : PairTask → Nat → Pair → Prop}
  {stage stage' : PairStage} {wake : Wake} {took told : Option (Fin n × PeerMessage)} {l : Fin m} {e : LinkEnd} {c : LinkCall}

theorem Deed.called {t : PairTask} {k position : Nat}
    (h : Deed here port recorded stage wake took told (.call (.linking t k position) l e c)) :
    Asks t k stage ∧ port t.request.remote = some (l, e) ∧ c.role = t.request.role := by
  cases h with
  | ask ha hl hr _ => exact ⟨ha, hl, hr⟩

/-- No call goes unnoticed. -/
theorem Deed.call_noted (h : Deed here port recorded stage wake took told (.call stage' l e c)) :
    ∃ k, note? stage wake (.ok (.call stage' l e c)) = some (.call k) := by
  cases h with
  | ask ha _ _ _ =>
    cases ha with
    | _ => exact ⟨_, rfl⟩

end Deed

/-- What has been noted of a task by a stage of it. A task that has ended before all of its pairs has been `cut`. -/
inductive Progress (t : PairTask) (cut : Prop) : List PairNote → PairStage → Prop where
  | next {k : Nat} (h : k ≤ t.count.toNat) : Progress t cut (rounds k) (.next t k)
  | starving {k : Nat} (h : k < t.count.toNat) : Progress t cut (rounds k) (.starving t k)
  | linking {k position : Nat} (h : k < t.count.toNat) : Progress t cut (rounds k ++ [.call k]) (.linking t k position)
  | correcting {k position : Nat} {pair : Pair} {c : DeviceCall} {calls : List DeviceCall} (h : k < t.count.toNat) :
      Progress t cut (rounds k ++ [.call k]) (.correcting t k position pair c calls)
  | settling {rows : Nat} {notes : List PairNote} (h : Unfolds t.count.toNat rows notes)
      (hcut : rows < t.count.toNat → cut) : Progress t cut notes (.settling t.request)
  | finished {rows : Nat} {notes : List PairNote} (h : Unfolds t.count.toNat rows notes) : Progress t cut notes .idle

namespace Progress

variable {t : PairTask} {cut cut' : Prop} {notes : List PairNote} {stage : PairStage} {wake : Wake} {flow : Step m}

theorem unfolds (h : Progress t cut notes stage) : ∃ rows, Unfolds t.count.toNat rows notes := by
  cases h with
  | next h => exact ⟨_, .between h⟩
  | starving h => exact ⟨_, .between (Nat.le_of_lt h)⟩
  | linking h => exact ⟨_, .called h⟩
  | correcting h => exact ⟨_, .called h⟩
  | settling h _ => exact ⟨_, h⟩
  | finished h => exact ⟨_, h⟩

theorem mono (h : Progress t cut notes stage) (hc : cut → cut') : Progress t cut' notes stage := by
  cases h with
  | next h => exact .next h
  | starving h => exact .starving h
  | linking h => exact .linking h
  | correcting h => exact .correcting h
  | settling h hcut => exact .settling h fun hlt => hc (hcut hlt)
  | finished h => exact .finished h

theorem ended (h : Progress t cut notes stage) : Progress t cut' notes .idle := by
  obtain ⟨rows, h⟩ := h.unfolds
  exact .finished h

/-- A pair that a pair service has is the one that was asked for last. -/
theorem gets (h : Progress t cut notes stage) {t' : PairTask} {k : Nat} {pair : Pair} (hg : Gets t' k pair stage wake) :
    t' = t ∧ k < t.count.toNat ∧ notes = rounds k ++ [.call k] := by
  cases hg with
  | answered position =>
    cases h with
    | linking h => exact ⟨rfl, h, rfl⟩
  | corrected position c calls wake =>
    cases h with
    | correcting h => exact ⟨rfl, h, rfl⟩

theorem asks (h : Progress t cut notes stage) {t' : PairTask} {k : Nat} (ha : Asks t' k stage) :
    t' = t ∧ k < t.count.toNat ∧ notes = rounds k := by
  cases ha with
  | next hk =>
    cases h with
    | next h => exact ⟨rfl, by omega, rfl⟩
  | starving =>
    cases h with
    | starving h => exact ⟨rfl, h, rfl⟩

/-- A step that meets a fault. -/
theorem breaks (h : Progress t cut notes stage) (wake : Wake) (f : Fault) :
    Progress t cut' (notes ++ (note? stage wake (.error f : Except Fault (Step m))).toList) .idle := by
  have hquiet (hn : note? stage wake (.error f : Except Fault (Step m)) = none) :
      Progress t cut' (notes ++ (note? stage wake (.error f : Except Fault (Step m))).toList) .idle := by
    rw [hn, Option.toList_none, List.append_nil]
    exact h.ended
  cases h with
  | linking hk =>
    cases wake with
    | answer a =>
      cases a with
      | refused cause kind => exact .finished (.failed hk)
      | pair pair => exact hquiet rfl
    | _ => exact hquiet rfl
  | _ => exact hquiet rfl

variable {here : Fin n} {port : Int → Option (Fin m × LinkEnd)} {recorded : PairTask → Nat → Pair → Prop}
  {took told : Option (Fin n × PeerMessage)}

/-- A step that meets none. -/
theorem step (h : Progress t cut notes stage) (hd : Deed here port recorded stage wake took told flow)
    (hidle : stage ≠ .idle)
    (hfail : ∀ k, note? stage wake (.ok flow) = some (.failure k) → cut')
    (habandon : ∀ k, Asks t k stage → flow = .go (.settling t.request) → cut')
    (hlose : ∀ k pair, Gets t k pair stage wake → flow = .go (.settling t.request) → cut') :
    Progress t cut' (notes ++ (note? stage wake (.ok flow)).toList) flow.stage := by
  have hquiet {stage' : PairStage} (hn : note? stage wake (.ok flow) = none) (hp : Progress t cut' notes stage') :
      Progress t cut' (notes ++ (note? stage wake (.ok flow)).toList) stage' := by
    rwa [hn, Option.toList_none, List.append_nil]
  cases hd with
  | idle | attend _ | offer _ _ _ => exact absurd rfl hidle
  | awaitReply | conclude _ _ | awaitDescriptor | drop | decline _ | refuse _ | accept _ => exact nomatch h
  | complete hk =>
    cases h with
    | next h => exact hquiet rfl (.settling (.between h) fun hlt => by omega)
  | abandon ha =>
    obtain ⟨rfl, hk, rfl⟩ := h.asks ha
    refine hquiet ?_ (.settling (.between (Nat.le_of_lt hk)) fun _ => habandon _ ha rfl)
    cases ha with
    | _ => rfl
  | starve ha =>
    obtain ⟨rfl, hk, rfl⟩ := h.asks ha
    refine hquiet ?_ (.starving hk)
    cases ha with
    | _ => rfl
  | ask ha hl hr hcall =>
    obtain ⟨rfl, hk, rfl⟩ := h.asks ha
    cases ha with
    | _ => exact .linking hk
  | bide ha =>
    cases h with
    | linking h =>
      refine hquiet ?_ (.linking h)
      cases wake with
      | answer a => exact absurd rfl (ha a)
      | _ => rfl
  | «yield» =>
    cases h with
    | linking h => exact .settling (.failed h) fun _ => hfail _ rfl
  | correct hg =>
    obtain ⟨rfl, hk, rfl⟩ := h.gets hg
    refine hquiet ?_ (.correcting hk)
    cases hg with
    | _ => rfl
  | deliver hg hr =>
    obtain ⟨rfl, hk, rfl⟩ := h.gets hg
    have hnext : Progress _ cut' _ (.next _ _) := .next (Nat.succ_le_of_lt hk)
    rw [rounds_succ] at hnext
    cases hg with
    | _ => exact hnext
  | lose hg =>
    obtain ⟨rfl, hk, rfl⟩ := h.gets hg
    refine hquiet ?_ (.settling (.called hk) fun _ => hlose _ _ hg rfl)
    cases hg with
    | _ => rfl
  | settle => exact hquiet rfl h.ended

end Progress

end Pairing

def ClientAct.isStop : ClientAct n → Bool
  | .atNode _ (.stop _) => true
  | _ => false

def PairStage.isSettling : PairStage → Bool
  | settling _ => true
  | _ => false

theorem PairStage.isSettling_iff {stage : PairStage} : stage.isSettling = true ↔ ∃ r, stage = .settling r := by
  cases stage with
  | settling r => exact iff_of_true rfl ⟨r, rfl⟩
  | _ => exact iff_of_false nofun nofun

namespace Network

/-- What the next step of the pair service of a node comes to. -/
def serving (s : Network n m) (i : Fin n) (wake : Wake) : Except Fault (Pairing.Step m) × Working (Node n m) n m :=
  (Pairing.step (pairId i) (s.pairStage i) wake).exec (s.working i)

/-- What is noted of the pair service of a node if it is to go on. -/
def note? (s : Network n m) (i : Fin n) : Option PairNote :=
  match s.current with
  | some (p, wake) => if p = pairId i then Pairing.note? (s.pairStage i) wake (s.serving i wake).1 else none
  | none => none

/-- All that has been noted, in order. -/
def notes (past : List (Stride n m)) (i : Fin n) : List PairNote := past.reverse.filterMap fun x => x.before.note? i

/-- The task on which the pair service of a node, if it is to go on, finds that both sides have agreed. -/
def matched? (s : Network n m) (i : Fin n) : Option PairTask :=
  match s.current with
  | some (p, wake) =>
    if p = pairId i then
      match (s.serving i wake).1 with
      | .ok (.go (.next t 0)) => some t
      | _ => none
    else none
  | none => none

/-- The pair service of a node is to go on, and has a pair. -/
def Stride.Has (y : Stride n m) (i : Fin n) (t : PairTask) (k : Nat) (pair : Pair) : Prop :=
  ∃ wake, y.before.current = some (pairId i, wake) ∧ Pairing.Gets t k pair (y.before.pairStage i) wake

/-- The pair service of a node asks a link. -/
def Stride.Calls (y : Stride n m) (i : Fin n) : Prop :=
  ∃ wake stage l e c, y.before.current = some (pairId i, wake) ∧ (y.before.serving i wake).1 = .ok (.call stage l e c)

/-- What a step does for a task of the pair service of a node, and what is noted of it. -/
inductive Stride.Serves (y : Stride n m) (i : Fin n) (t : PairTask) : Option PairNote → Prop where
  /-- The link to the peer of the request is asked for a pair. -/
  | asks {k position : Nat} {wake : Wake} {l : Fin m} {e : LinkEnd} {c : LinkCall}
      (hc : y.before.current = some (pairId i, wake))
      (hcall : (y.before.serving i wake).1 = .ok (.call (.linking t k position) l e c))
      (hl : (y.before.node i).ports.links.get? t.request.remote = some (l, e)) (hr : c.role = t.request.role)
      (h : (y.after.node i).apps = (y.before.node i).apps) : Serves y i t (some (.call k))
  /-- The ten entries of a row are written, and nothing else; then whoever waits for them is told. -/
  | writes {k : Nat} {pair : Pair} (hg : y.Has i t k pair) (hr : Pairing.Records (y.after.node i) t k pair)
      (hn : (y.after.node i).arrayWritten.notified = (y.before.node i).arrayWritten.notified + 1)
      (h : Jots t.request k (y.before.working i) (y.after.working i)) : Serves y i t (some (.row k))
  | fails {k position : Nat} {cause : LinkRefusal} {kind : PairKind}
      (hc : y.before.current = some (pairId i, .answer (.refused cause kind)))
      (hst : y.before.pairStage i = .linking t k position)
      (h : (y.after.node i).apps = (y.before.node i).apps) : Serves y i t (some (.failure k))
  /-- A row does not fit: a fault ends the pair service. -/
  | breaks {k : Nat} {pair : Pair} (hg : y.Has i t k pair) (hf : y.after.pairStage i = .idle)
      (h : Jots t.request k (y.before.working i) (y.after.working i)) : Serves y i t none
  /-- The pair service writes nothing. -/
  | leaves (h : y.goesOn i = true → (y.after.node i).apps = (y.before.node i).apps) : Serves y i t none

variable {s s' : Network n m} {i : Fin n} {cause : Cause n} {t : PairTask} {wake : Wake}

theorem notes_cons (x : Stride n m) (past : List (Stride n m)) (i : Fin n) :
    notes (x :: past) i = notes past i ++ (x.before.note? i).toList := by
  rw [notes, List.reverse_cons, List.filterMap_append]
  cases h : x.before.note? i with
  | _ => simp [notes, h]

theorem note?_of_current (hc : s.current = some (pairId i, wake)) :
    s.note? i = Pairing.note? (s.pairStage i) wake (s.serving i wake).1 := by
  simp only [note?, hc, if_true]

theorem note?_of_ne (h : s.current.map Prod.fst ≠ some (pairId i)) : s.note? i = none := by
  unfold note?
  split
  · rename_i p wake hc
    rw [if_neg fun hp => h (by rw [hc, hp]; rfl)]
  · rfl

theorem serving_deed {flow : Pairing.Step m} (h : (s.serving i wake).1 = .ok flow) : ∃ took told,
    Pairing.Deed (s.node i).id (fun r => (s.node i).ports.links.get? r) (Pairing.Records (s.serving i wake).2.part)
      (s.pairStage i) wake took told flow := by
  obtain ⟨took, told, -, hd⟩ := Pairing.step_deed (pairId i) (s.pairStage i) wake _ _
    (Prod.ext h rfl : s.serving i wake = (_, (s.serving i wake).2))
  exact ⟨took, told, hd⟩

theorem Stride.Calls.noted {y : Stride n m} (h : y.Calls i) : ∃ k, y.before.note? i = some (.call k) := by
  obtain ⟨wake, stage, l, e, c, hc, hcall⟩ := h
  obtain ⟨took, told, hd⟩ := serving_deed hcall
  rw [note?_of_current hc, hcall]
  exact hd.call_noted

/-- What becomes of a pair service at its turn, be it that it is gone, that it meets a fault, or that the link that it asks
does. -/
theorem Treads.serving (h : s.Treads s') (hc : s.current = some (pairId i, wake)) :
    (s.pairStage i = .idle ∧ s'.pairStage i = .idle) ∨
      (s.serving i wake).2.part.SameSlots (s'.node i) ∧
        ((s'.pairStage i = .idle ∧ ∀ flow, (s.serving i wake).1 = .ok flow → flow.asks = true) ∨
          ∃ flow, (s.serving i wake).1 = .ok flow ∧ s'.pairStage i = flow.stage) := by
  cases h with
  | @gone p wake' hc' hp =>
    rw [hc] at hc'
    cases hc'
    exact .inl ⟨pairStage_of_gone hp, pairStage_of_gone hp⟩
  | @dispatch j name stage wake' result w _ hc' hp hx hr =>
    rw [hc] at hc'
    exact absurd (congrArg Prod.fst (Option.some.inj hc')) (pairId_ne_dispatchId i j)
  | @host j name stage wake' result w _ hc' hp hx hr =>
    rw [hc] at hc'
    exact absurd (congrArg Prod.fst (Option.some.inj hc')) (pairId_ne_hostId i j)
  | @pairing j name stage wake' result w _ hc' hp hx hr =>
    rw [hc] at hc'
    obtain ⟨hij, rfl⟩ := Prod.mk.inj (Option.some.inj hc')
    obtain rfl := pairId_inj.1 hij
    have hx : s.serving i wake = (result, w) := by rwa [Network.serving, pairStage_eq hp]
    have hslots := hr.slots_commit (i := i)
    rw [if_pos rfl] at hslots
    rw [hx]
    refine .inr ⟨hslots, ?_⟩
    rcases hr with ⟨flow, hflow, hres⟩ | ⟨hasks, rfl⟩
    · cases result with
      | error f => exact nomatch hflow
      | ok flow =>
        cases hflow
        exact .inr ⟨flow, rfl, hres.pairStage⟩
    · refine .inl ⟨pairStage_of_gone (by rw [processes_drop, if_pos rfl]), fun flow hflow => ?_⟩
      subst hflow
      have := hasks _ rfl
      rwa [Flow.asks_map] at this

/-- What a pair service with a pair does to the memories. -/
theorem Treads.jots (h : s.Treads s') (hc : s.current = some (pairId i, wake)) {k : Nat} {pair : Pair}
    (hg : Pairing.Gets t k pair (s.pairStage i) wake) : Jots t.request k (s.working i) (s'.working i) := by
  obtain ⟨hslots, -⟩ := (h.serving hc).resolve_left fun hgone => by
    rw [hgone.1] at hg
    exact nomatch hg
  have hjots : Jots t.request k (s.working i) (s.serving i wake).2 := Pairing.step_jots (pairId i) hg (s.working i)
  exact hjots.trans (.of_apps hslots.apps)

/-- A step takes a task from one stage to the next. It ends before its last pair for a failure that is noted, or because
its application has been aborted, or is not there. -/
theorem Happens.progress (h : s.Happens cause s') (hs : s.Crewed) {cut cut' : Prop} {notes : List PairNote}
    (hp : Pairing.Progress t cut notes (s.pairStage i)) (hidle : s.pairStage i ≠ .idle) (hcut : cut → cut')
    (hfail : ∀ k, s.note? i = some (.failure k) → cut')
    (habort : (s.node i).service.isAborted t.request.app = true → cut')
    (hgone : (s.node i).hasApp t.request.app = false → cut') :
    Pairing.Progress t cut' (notes ++ (s.note? i).toList) (s'.pairStage i) := by
  by_cases hown : s.current.map Prod.fst = some (pairId i)
  · obtain ⟨⟨p, wake⟩, hc, rfl⟩ := Option.map_eq_some_iff.1 hown
    change s.current = some (pairId i, wake) at hc
    have hend := (((h.treads hown).serving hc).resolve_left fun hgone => hidle hgone.1).2
    rw [note?_of_current hc] at hfail ⊢
    rcases hres : s.serving i wake with ⟨result, w⟩
    rw [hres] at hend hfail
    cases result with
    | error f =>
      obtain ⟨hidle', -⟩ := hend.resolve_right fun ⟨_, hflow, _⟩ => nomatch hflow
      rw [hidle']
      exact hp.breaks wake f
    | ok flow =>
      obtain ⟨took, told, -, hd⟩ := Pairing.step_deed (pairId i) (s.pairStage i) wake flow w hres
      have hnext := hp.step hd hidle hfail
        (fun k ha hflow => habort ((Pairing.step_gives_up (pairId i) ha wake flow w hres).1 hflow))
        (fun k pair hg hflow => by
          have hh := Pairing.step_hands (pairId i) hg flow w hres
          subst hflow
          cases hh with
          | lose hno _ => exact hgone hno)
      rcases hend with ⟨hidle', -⟩ | ⟨_, hflow, hst⟩
      · rw [hidle']
        exact hnext.ended
      · cases hflow
        rwa [hst]
  · rw [note?_of_ne hown, Option.toList_none, List.append_nil, h.pairStage_of_ne hs hown]
    exact hp.mono hcut

/-- What a step does for a task, and that nothing else is written meanwhile. -/
theorem Happens.serves (h : s.Happens cause s') {cut : Prop} {notes : List PairNote}
    (hp : Pairing.Progress t cut notes (s.pairStage i)) (hidle : s.pairStage i ≠ .idle) :
    (⟨s, cause, s'⟩ : Stride n m).Serves i t (s.note? i) := by
  by_cases hown : s.current.map Prod.fst = some (pairId i)
  · obtain ⟨⟨p, wake⟩, hc, rfl⟩ := Option.map_eq_some_iff.1 hown
    change s.current = some (pairId i, wake) at hc
    obtain ⟨hslots, hend⟩ := ((h.treads hown).serving hc).resolve_left fun hgone => hidle hgone.1
    rw [note?_of_current hc]
    rcases hres : s.serving i wake with ⟨result, w⟩
    rw [hres] at hslots hend
    by_cases hgets : ∃ t' k pair, Pairing.Gets t' k pair (s.pairStage i) wake
    · obtain ⟨t', k, pair, hg⟩ := hgets
      obtain ⟨rfl, -, -⟩ := hp.gets hg
      have hjots := (h.treads hown).jots hc hg
      rw [hg.note?_eq]
      cases result with
      | error f =>
        obtain ⟨hidle', -⟩ := hend.resolve_right fun ⟨_, hflow, _⟩ => nomatch hflow
        exact .breaks ⟨wake, hc, hg⟩ hidle' hjots
      | ok flow =>
        have hh := Pairing.step_hands (pairId i) hg flow w hres
        obtain ⟨took, told, -, hd⟩ := Pairing.step_deed (pairId i) (s.pairStage i) wake flow w hres
        cases hh with
        | write hn =>
          obtain ⟨pair', hg', mem, virt, hmem, hrow⟩ := hd.delivered rfl
          obtain ⟨-, -, rfl⟩ := hg.unique hg'
          have hnotified : (s'.node i).arrayWritten.notified = (s.node i).arrayWritten.notified + 1 := by
            rw [hslots.arrayWritten]
            exact hn
          exact .writes ⟨wake, hc, hg⟩ ⟨mem, virt, by rw [hslots.apps, hmem], hrow⟩ hnotified hjots
        | lose _ ha => exact .leaves fun _ => hslots.apps.trans ha
        | correct ha => exact .leaves fun _ => hslots.apps.trans ha
    · have hbooks : SameBooks (s.working i) w :=
        (Pairing.step_sameBooks (pairId i) fun t k pair hg => hgets ⟨t, k, pair, hg⟩).of_exec hres
      have happs : (s'.node i).apps = (s.node i).apps := hslots.apps.trans hbooks.apps
      rcases Pairing.note?_cases (s.pairStage i) wake result with hn | ⟨t', k, position, cause, kind, hst, rfl, hn⟩ |
        ⟨t', k, position, l, e, c, rfl, hn⟩ | ⟨t', k, rfl, hn⟩
      · rw [hn]
        exact .leaves fun _ => happs
      · rw [hn]
        rw [hst] at hp
        cases hp with
        | linking _ => exact .fails hc hst happs
      · rw [hn]
        obtain ⟨took, told, -, hd⟩ := Pairing.step_deed (pairId i) (s.pairStage i) wake _ w hres
        obtain ⟨ha, hl, hr⟩ := hd.called
        obtain ⟨rfl, -, -⟩ := hp.asks ha
        exact .asks hc (congrArg Prod.fst hres) hl hr happs
      · obtain ⟨took, told, -, hd⟩ := Pairing.step_deed (pairId i) (s.pairStage i) wake _ w hres
        obtain ⟨pair, hg, -⟩ := hd.delivered rfl
        exact absurd ⟨t', k, pair, hg⟩ hgets
  · rw [note?_of_ne hown]
    exact .leaves fun hg => absurd (beq_iff_eq.1 hg) hown

/-- A pair service without a pair writes nothing. -/
theorem Happens.leaves (h : s.Happens cause s') (hown : s.current.map Prod.fst = some (pairId i))
    (hno : ∀ t k pair, ¬ (⟨s, cause, s'⟩ : Stride n m).Has i t k pair) : (s'.node i).apps = (s.node i).apps := by
  cases (h.treads hown).reaches i with
  | spares hs _ _ _ => exact hs.apps
  | works hshift hs _ =>
    cases hshift with
    | labour hc _ _ =>
      rw [hc] at hown
      exact nomatch hown
    | pairing hc =>
      exact hs.apps.trans (Pairing.step_sameBooks _ (fun t k pair hg => hno t k pair ⟨_, hc, hg⟩) (s.working i)).apps
    | dispatch hc =>
      rw [hc] at hown
      exact absurd (Option.some.inj hown).symm (pairId_ne_dispatchId i i)

theorem exists_of_matched? (h : s.matched? i = some t) :
    ∃ wake, s.current = some (pairId i, wake) ∧ (s.serving i wake).1 = .ok (.go (.next t 0)) := by
  unfold matched? at h
  split at h
  · rename_i p wake hc
    split at h
    · rename_i hp
      subst hp
      split at h
      · rename_i hres
        cases h
        exact ⟨wake, hc, hres⟩
      · exact nomatch h
    · exact nomatch h
  · exact nomatch h

theorem Happens.matched (hh : s.Happens cause s') (h : s.matched? i = some t) : s'.pairStage i = .next t 0 := by
  obtain ⟨wake, hc, hres⟩ := exists_of_matched? h
  have hidle : s.pairStage i ≠ .idle := fun hst => by
    obtain ⟨took, told, hd⟩ := serving_deed hres
    rw [hst] at hd
    exact nomatch hd
  obtain ⟨-, hend⟩ := ((hh.treads (by rw [hc]; rfl)).serving hc).resolve_left fun hgone => hidle hgone.1
  rcases hend with ⟨-, hasks⟩ | ⟨flow, hflow, hst⟩
  · exact nomatch hasks _ hres
  · rw [hres] at hflow
    cases hflow
    exact hst

/-- Why a task ends before the last of its pairs. -/
inductive Cut (i : Fin n) (t : PairTask) (later before : List (Stride n m)) : Prop where
  | failed {k : Nat} (h : PairNote.failure k ∈ notes later i)
  | aborted {y : Stride n m} (hy : y ∈ later) (h : (y.before.node i).service.isAborted t.request.app = true)
  /-- The application is not there, for it has been stopped. -/
  | stopped {y z : Stride n m} (hy : y ∈ later) (h : (y.before.node i).hasApp t.request.app = false)
      (hz : z ∈ later ++ before) (hs : z.Stops i t.request.app)
  /-- The application is not there, and never has been. -/
  | absent {y : Stride n m} (hy : y ∈ later) (h : (y.before.node i).hasApp t.request.app = false)
      (hnever : ∀ z ∈ before, (z.before.node i).hasApp t.request.app = false)

theorem Cut.cons {later before : List (Stride n m)} (h : Cut i t later before) (x : Stride n m) :
    Cut i t (x :: later) before := by
  cases h with
  | @failed k h =>
    refine .failed (k := k) ?_
    rw [notes_cons]
    exact List.mem_append_left _ h
  | aborted hy h => exact .aborted (List.mem_cons_of_mem _ hy) h
  | stopped hy h hz hs => exact .stopped (List.mem_cons_of_mem _ hy) h (List.mem_cons_of_mem _ hz) hs
  | absent hy h hnever => exact .absent (List.mem_cons_of_mem _ hy) h hnever

section Course

variable {c : NetworkConfig} {x : Stride c.nodes.length c.links.length}
  {later earlier : List (Stride c.nodes.length c.links.length)} {s : Network c.nodes.length c.links.length}
  {i : Fin c.nodes.length} {t : PairTask}

/-- How far a task has come since both sides have agreed on it, and what each step since then has done for it. -/
theorem Course.progress (h : Course c (later ++ x :: earlier) s) (hx : x.before.matched? i = some t)
    (hl : ∀ y ∈ later, y.before.pairStage i ≠ .idle) :
    Pairing.Progress t (Cut i t later (x :: earlier)) (notes later i) (s.pairStage i) ∧
      ∀ y ∈ later, y.Serves i t (y.before.note? i) := by
  induction later generalizing s with
  | nil =>
    cases h with
    | step h hf =>
      refine ⟨?_, fun _ hy => nomatch hy⟩
      rw [(hf.happens h.crewed).matched hx]
      exact .next (Nat.zero_le _)
  | cons y later ih =>
    rw [List.cons_append] at h
    cases h with
    | @step _ s₀ _ cause h hf =>
      obtain ⟨hidle, hl⟩ := List.forall_mem_cons.1 hl
      obtain ⟨hp, hserves⟩ := ih h hl
      have hhappens := hf.happens h.crewed
      refine ⟨?_, List.forall_mem_cons.2 ⟨hhappens.serves hp hidle, hserves⟩⟩
      rw [notes_cons]
      refine hhappens.progress h.crewed hp hidle (fun hcut => hcut.cons _) (fun k hk => .failed (k := k) ?_)
        (fun ha => .aborted List.mem_cons_self ha) fun hgone => ?_
      · rw [notes_cons, hk]
        exact List.mem_append_right _ List.mem_cons_self
      · rcases h.stopped hgone with ⟨z, hz, hstop⟩ | hnever
        · exact .stopped List.mem_cons_self hgone (List.mem_cons_of_mem _ hz) hstop
        · exact .absent List.mem_cons_self hgone fun z hz => hnever z (List.mem_append_right _ hz)

theorem Course.leaves {past : List (Stride c.nodes.length c.links.length)} (h : Course c past s)
    (i : Fin c.nodes.length) : ∀ y ∈ past, y.goesOn i = true → (∀ t k pair, ¬ y.Has i t k pair) →
      (y.after.node i).apps = (y.before.node i).apps := by
  induction h with
  | built _ => exact fun _ hy => nomatch hy
  | step h hf ih =>
    exact List.forall_mem_cons.2 ⟨fun hown hno => (hf.happens h.crewed).leaves (beq_iff_eq.1 hown) hno, ih⟩

/-- Along every run, also after faults, a request is served one pair after another. The link is asked for its pairs in
order, for each when the row of the one before it has been written and told, and at most as often as there are pairs; for a
pair that fails, or after it, no row is written, and nothing but the rows of pairs ever is. When the request is settled its
first rows have been written: all of them, unless a pair has failed or the application has been aborted, or is not there,
as it has been stopped or never was. -/
theorem pairs_are_made_one_after_another (h : Course c (later ++ x :: earlier) s) (hx : x.before.matched? i = some t)
    (hl : ∀ y ∈ later, y.before.pairStage i ≠ .idle) :
    (∃ rows, Unfolds t.count.toNat rows (notes later i)) ∧
      (∀ y ∈ later, y.Serves i t (y.before.note? i) ∧ (y.Calls i → ∃ k, y.before.note? i = some (.call k))) ∧
      (∀ y ∈ later ++ x :: earlier, y.goesOn i = true → (∀ t k pair, ¬ y.Has i t k pair) →
        (y.after.node i).apps = (y.before.node i).apps) ∧
      ∀ r, s.pairStage i = .settling r → ∃ rows, Unfolds t.count.toNat rows (notes later i) ∧
        (rows < t.count.toNat → Cut i t later (x :: earlier)) := by
  obtain ⟨hp, hserves⟩ := h.progress hx hl
  refine ⟨hp.unfolds, fun y hy => ⟨hserves y hy, Stride.Calls.noted⟩, h.leaves i, fun r hst => ?_⟩
  rw [hst] at hp
  generalize notes later i = all at hp ⊢
  cases hp with
  | settling h hcut => exact ⟨_, h, hcut⟩

end Course

/-! Runs that can be computed. -/

/-- The states of a run since the pair service of a node has last found a task agreed on. -/
def sinceMatch (states : List (Network n m)) (i : Fin n) : List (Network n m) :=
  states.takeWhile fun z => (z.matched? i).isNone

/-- What a run has computed since a task has been agreed on. -/
theorem Trace.exists_since_match {c : NetworkConfig} {may : ClientAct c.nodes.length → Prop}
    {past : List (Moment c.nodes.length c.links.length)} {s : Network c.nodes.length c.links.length} (h : Trace c may past s)
    {i : Fin c.nodes.length} {app count : Int} {ns : List PairNote}
    (hm : ((past.map Moment.state).findSome? (·.matched? i)).map (fun t => (t.request.app, t.count)) = some (app, count))
    (hn : (sinceMatch (past.map Moment.state) i).reverse.filterMap (·.note? i) = ns)
    (hl : ∀ z ∈ sinceMatch (past.map Moment.state) i, (z.pairStage i).request?.isSome = true) :
    ∃ later x earlier t, Course c (later ++ x :: earlier) s ∧ x.before.matched? i = some t ∧ t.request.app = app ∧
      t.count = count ∧ (∀ y ∈ later, y.before.pairStage i ≠ .idle) ∧ notes later i = ns ∧
      (later ++ x :: earlier).map (fun x => (x.before, x.cause)) = past.map fun x => (x.state, x.cause) := by
  obtain ⟨strides, hcourse, hs⟩ := h.strides
  have hstates : past.map Moment.state = strides.map (·.before) := by
    have hfst := congrArg (List.map Prod.fst) hs
    rw [List.map_map, List.map_map] at hfst
    exact hfst.symm
  rw [hstates] at hm hn hl
  obtain ⟨t, ht, happ⟩ := Option.map_eq_some_iff.1 hm
  obtain ⟨rfl, rfl⟩ := Prod.mk.inj happ
  rw [List.findSome?_map] at ht
  obtain ⟨later, x, earlier, rfl, hx, hnone⟩ := List.findSome?_eq_some_iff.1 ht
  have hsince : sinceMatch ((later ++ x :: earlier).map (·.before)) i = later.map (·.before) := by
    rw [sinceMatch, List.map_append, List.map_cons, List.takeWhile_append_of_pos, List.takeWhile_cons_of_neg,
      List.append_nil]
    · rw [Option.isNone_iff_eq_none]
      exact fun hno => nomatch hno.symm.trans hx
    · intro z hz
      obtain ⟨y, hy, rfl⟩ := List.mem_map.1 hz
      exact Option.isNone_iff_eq_none.2 (hnone y hy)
  rw [hsince] at hn hl
  refine ⟨later, x, earlier, t, hcourse, hx, rfl, rfl, fun y hy hst => ?_, ?_, hs⟩
  · have := hl _ (List.mem_map_of_mem hy)
    rw [hst] at this
    exact nomatch this
  · rw [← hn, notes, ← List.map_reverse, List.filterMap_map]
    rfl

/-- Either application asks for two pairs, which are measured. -/
def duoTwice : List (Direction duo.nodes.length) :=
  duoOpening ++ [.act (.atNode 0 (.declare 0 1 #[some 1, some 2])), .act (.atNode 0 (.declare 0 2 (.replicate 20 none))),
    .act (.atNode 1 (.declare 0 2 (.replicate 20 none))), .act (.atNode 0 (.submit (duoRequest 0))),
    .act (.atNode 1 (.submit (duoRequest 1)))]

theorem pairs_are_made_one_after_another_twice : ∃ later x earlier s t r, Course duo (later ++ x :: earlier) s ∧
    x.before.matched? 0 = some t ∧ (∀ y ∈ later, y.before.pairStage 0 ≠ .idle) ∧ t.count = 2 ∧
      notes later 0 = rounds 2 ∧
      (∀ y ∈ later, y.Serves 0 t (y.before.note? 0) ∧ (y.Calls 0 → ∃ k, y.before.note? 0 = some (.call k))) ∧
      s.pairStage 0 = .settling r := by
  obtain ⟨past, s, ht, hs⟩ := Trace.exists_of_advance duo (fun _ => True) duoTwice 23
    (fun r => (((r.1.map Moment.state).findSome? (·.matched? 0)).map (fun t => (t.request.app, t.count)) = some (0, 2) ∧
      (sinceMatch (r.1.map Moment.state) 0).reverse.filterMap (·.note? 0) = rounds 2 ∧
      ∀ z ∈ sinceMatch (r.1.map Moment.state) 0, (z.pairStage 0).request?.isSome = true) ∧
      (r.2.pairStage 0).isSettling = true) (by decide +kernel) (fun _ _ => trivial)
  obtain ⟨⟨hmatch, hnotes, hbusy⟩, hsettling⟩ := of_decide_eq_true hs
  obtain ⟨later, x, earlier, t, hcourse, hx, -, htwo, hl, hrounds, -⟩ := ht.exists_since_match hmatch hnotes hbusy
  obtain ⟨r, hr⟩ := PairStage.isSettling_iff.1 hsettling
  exact ⟨later, x, earlier, s, t, r, hcourse, hx, hl, htwo, hrounds,
    (pairs_are_made_one_after_another hcourse hx hl).2.1, hr⟩

/-- The second node receives a pair for application 7, which it does not have. -/
def duoForNobody : List (Direction duo.nodes.length) :=
  [.start, .run 0 100, .act (.atNode 0 (.register 2)), .act (.atNode 0 (.openSocket 0 0 1)),
    .act (.atNode 1 (.openSocket 7 0 0)), .act (.atNode 0 (.declare 0 1 #[some 1, some 1])),
    .act (.atNode 0 (.declare 0 2 (.replicate 10 none))), .act (.atNode 0 (.submit (duoRequest 0))),
    .act (.atNode 1 (.submit { duoRequest 1 with app := 7 }))]

/-- A receive for an application that is not registered is served and settled. Its only pair, which does not fail, leaves no
row, although nobody aborts or stops the application. -/
theorem pairs_for_nobody_leave_no_row : ∃ later x earlier s t r, Course duo (later ++ x :: earlier) s ∧
    x.before.matched? 1 = some t ∧ (∀ y ∈ later, y.before.pairStage 1 ≠ .idle) ∧ t.request.app = 7 ∧
      t.count = 1 ∧ s.pairStage 1 = .settling r ∧ notes later 1 = [.call 0] ∧ (s.node 1).service.isAborted 7 = false ∧
      ∀ y ∈ later ++ x :: earlier, (y.before.node 1).service.isAborted 7 = false ∧ ¬ y.Stops 1 7 := by
  obtain ⟨past, s, ht, hs⟩ := Trace.exists_of_advance duo (fun _ => True) duoForNobody 20
    (fun r => (((r.1.map Moment.state).findSome? (·.matched? 1)).map (fun t => (t.request.app, t.count)) = some (7, 1) ∧
      (sinceMatch (r.1.map Moment.state) 1).reverse.filterMap (·.note? 1) = [.call 0] ∧
      ∀ z ∈ sinceMatch (r.1.map Moment.state) 1, (z.pairStage 1).request?.isSome = true) ∧
      (r.2.pairStage 1).isSettling = true ∧ (r.2.node 1).service.isAborted 7 = false ∧
      ∀ x ∈ r.1, (x.state.node 1).service.isAborted 7 = false ∧ x.state.heard? 1 = none ∧
        x.act.all (!·.isStop) = true) (by decide +kernel) (fun _ _ => trivial)
  obtain ⟨⟨hmatch, hnotes, hbusy⟩, hsettling, hunaborted, hquiet⟩ := of_decide_eq_true hs
  obtain ⟨later, x, earlier, t, hcourse, hx, happ, hone, hl, hcall, hmoments⟩ := ht.exists_since_match hmatch hnotes hbusy
  obtain ⟨r, hr⟩ := PairStage.isSettling_iff.1 hsettling
  refine ⟨later, x, earlier, s, t, r, hcourse, hx, hl, happ, hone, hr, hcall, hunaborted, fun y hy => ?_⟩
  obtain ⟨z, hz, hzy⟩ := List.mem_map.1 (hmoments ▸ List.mem_map_of_mem hy)
  obtain ⟨hstate, hcause⟩ := Prod.mk.inj hzy
  obtain ⟨haborted, hheard, hact⟩ := hquiet z hz
  rw [hstate] at haborted hheard
  refine ⟨haborted, ?_⟩
  rintro (hstop | ⟨text, htext, -⟩)
  · rw [← hcause, Moment.cause] at hstop
    cases ha : z.act with
    | none =>
      rw [ha] at hstop
      exact nomatch hstop
    | some a =>
      rw [ha] at hstop hact
      cases hstop
      exact nomatch hact
  · rw [hheard] at htext
    exact nomatch htext

/-! What an application that has been aborted still comes to. A pair that was under way is handed over like any other. -/

/-- The pair service of a node asks a link for a pair of an application. -/
def Stride.CallsFor (y : Stride n m) (i : Fin n) (app : Int) : Prop :=
  ∃ wake t k position l e c, y.before.current = some (pairId i, wake) ∧
    (y.before.serving i wake).1 = .ok (.call (.linking t k position) l e c) ∧ t.request.app = app

/-- The pair service of a node changes the memory of an application. -/
def Stride.Alters (y : Stride n m) (i : Fin n) (app : Int) : Prop :=
  y.goesOn i = true ∧ (y.after.node i).apps.get? app ≠ (y.before.node i).apps.get? app

theorem serving_gives_up {k : Nat} {flow : Pairing.Step m} (ha : Pairing.Asks t k (s.pairStage i))
    (h : (s.serving i wake).1 = .ok flow) (hab : (s.node i).service.isAborted t.request.app = true) :
    flow = .go (.settling t.request) :=
  (Pairing.step_gives_up (pairId i) ha wake flow _ (Prod.ext h rfl : s.serving i wake = (_, (s.serving i wake).2))).2 hab

theorem not_callsFor_of_aborted {app : Int} (hab : (s.node i).service.isAborted app = true) :
    ¬ (⟨s, cause, s'⟩ : Stride n m).CallsFor i app := by
  rintro ⟨wake, t, k, position, l, e, c, -, hcall, rfl⟩
  obtain ⟨took, told, hd⟩ := serving_deed hcall
  exact nomatch serving_gives_up hd.called.1 hcall hab

/-- No pair of an application that has been aborted comes under way. -/
theorem Happens.underWay (h : s.Happens cause s') (hs : s.Crewed) {k : Nat}
    (hab : (s.node i).service.isAborted t.request.app = true) (hw : Pairing.UnderWay t k (s'.pairStage i)) :
    Pairing.UnderWay t k (s.pairStage i) := by
  by_cases hown : s.current.map Prod.fst = some (pairId i)
  · obtain ⟨⟨p, wake⟩, hc, rfl⟩ := Option.map_eq_some_iff.1 hown
    change s.current = some (pairId i, wake) at hc
    rcases (h.treads hown).serving hc with ⟨-, hidle⟩ | ⟨-, ⟨hidle, -⟩ | ⟨flow, hflow, hst⟩⟩
    · rw [hidle] at hw
      exact nomatch hw
    · rw [hidle] at hw
      exact nomatch hw
    · rw [hst] at hw
      obtain ⟨took, told, hd⟩ := serving_deed hflow
      refine (hd.underWay hw).resolve_right fun ⟨hasks, stage, l, e, c, hcall⟩ => ?_
      exact nomatch hcall.symm.trans (serving_gives_up hasks hflow hab)
  · rwa [h.pairStage_of_ne hs hown] at hw

/-- A pair service changes the memory of an application for a pair that is under way, which is then over. -/
theorem Happens.alters (h : s.Happens cause s') {app : Int} (ha : (⟨s, cause, s'⟩ : Stride n m).Alters i app) :
    ∃ t k, t.request.app = app ∧ Pairing.UnderWay t k (s.pairStage i) ∧ Jots t.request k (s.working i) (s'.working i) ∧
      ∀ t' k', ¬ Pairing.UnderWay t' k' (s'.pairStage i) := by
  obtain ⟨hown, hne⟩ := ha
  have hown : s.current.map Prod.fst = some (pairId i) := beq_iff_eq.1 hown
  have hchanged : (s'.node i).apps ≠ (s.node i).apps := fun happs => hne (congrArg (·.get? app) happs)
  obtain ⟨t, k, pair, wake, hc, hg⟩ : ∃ t k pair, (⟨s, cause, s'⟩ : Stride n m).Has i t k pair := by
    by_contra hno
    exact hchanged (h.leaves hown fun t k pair hhas => hno ⟨t, k, pair, hhas⟩)
  obtain ⟨hslots, hend⟩ := ((h.treads hown).serving hc).resolve_left fun hgone => by
    rw [hgone.1] at hg
    exact nomatch hg
  have hjots := (h.treads hown).jots hc hg
  refine ⟨t, k, by_contra fun happ => hne (hjots.1 app (Ne.symm happ)), hg.underWay, hjots, fun t' k' hw => ?_⟩
  rcases hend with ⟨hidle, -⟩ | ⟨flow, hflow, hst⟩
  · rw [hidle] at hw
    exact nomatch hw
  · rw [hst] at hw
    have hh := Pairing.step_hands (pairId i) hg flow _
      (Prod.ext hflow rfl : s.serving i wake = (_, (s.serving i wake).2))
    cases hh with
    | write _ => exact nomatch hw
    | lose _ ha => exact hchanged (hslots.apps.trans ha)
    | correct ha => exact hchanged (hslots.apps.trans ha)

section Abort

variable {c : NetworkConfig} {later earlier : List (Stride c.nodes.length c.links.length)}
  {s : Network c.nodes.length c.links.length} {i : Fin c.nodes.length} {t : PairTask}

/-- A pair of an aborted application that is under way has been so ever since the application was aborted, and nothing has
been written for it meanwhile. -/
theorem Course.underWay (h : Course c (later ++ earlier) s)
    (hab : ∀ y ∈ later, (y.before.node i).service.isAborted t.request.app = true) {k : Nat}
    (hw : Pairing.UnderWay t k (s.pairStage i)) :
    ∀ y ∈ later, Pairing.UnderWay t k (y.before.pairStage i) ∧ ¬ y.Alters i t.request.app := by
  induction later generalizing s with
  | nil => exact fun _ hy => nomatch hy
  | cons y later ih =>
    rw [List.cons_append] at h
    cases h with
    | step h hf =>
      obtain ⟨ha, hab⟩ := List.forall_mem_cons.1 hab
      have hhappens := hf.happens h.crewed
      have hbefore := hhappens.underWay h.crewed ha hw
      refine List.forall_mem_cons.2 ⟨⟨hbefore, fun halters => ?_⟩, ih h hab hbefore⟩
      obtain ⟨-, -, -, -, -, hover⟩ := hhappens.alters halters
      exact hover _ _ hw

/-- Along every run, also after faults, and as long as an application of a node is aborted: the pair service of the node asks
no link for a pair of it, and changes its memory once at most. If it does, then for the pair that has been under way ever
since the application was aborted: the row of that pair may be written, and the half of it mapped. -/
theorem one_pair_at_most_outlives_an_abort {app : Int} (h : Course c (later ++ earlier) s)
    (hab : ∀ y ∈ later, (y.before.node i).service.isAborted app = true) :
    (∀ y ∈ later, ¬ y.CallsFor i app) ∧ (later.Pairwise fun y z => ¬ (y.Alters i app ∧ z.Alters i app)) ∧
      ∀ newer y older, later = newer ++ y :: older → y.Alters i app → ∃ t k, t.request.app = app ∧
        (∀ z ∈ y :: older, Pairing.UnderWay t k (z.before.pairStage i)) ∧
          Jots t.request k (y.before.working i) (y.after.working i) := by
  induction later generalizing s with
  | nil => exact ⟨fun _ hy => (nomatch hy), .nil, fun newer y older hl => absurd hl (by simp)⟩
  | cons x later ih =>
    rw [List.cons_append] at h
    cases h with
    | step h hf =>
      obtain ⟨ha, hab⟩ := List.forall_mem_cons.1 hab
      obtain ⟨hcalls, honce, hwhich⟩ := ih h hab
      have hsince : ∀ t k, t.request.app = app → Pairing.UnderWay t k _ →
          ∀ y ∈ later, Pairing.UnderWay t k (y.before.pairStage i) ∧ ¬ y.Alters i app := fun t k happ hw => by
        subst happ
        exact h.underWay hab hw
      refine ⟨List.forall_mem_cons.2 ⟨not_callsFor_of_aborted ha, hcalls⟩, List.pairwise_cons.2 ⟨?_, honce⟩, ?_⟩
      · rintro y hy ⟨hx, hy'⟩
        obtain ⟨t, k, happ, hw, -, -⟩ := (hf.happens h.crewed).alters hx
        exact (hsince t k happ hw y hy).2 hy'
      · intro newer y older hl hy
        rcases List.cons_eq_append_iff.1 hl with ⟨rfl, hnow⟩ | ⟨newer, rfl, hbefore⟩
        · obtain ⟨rfl, rfl⟩ := List.cons_eq_cons.1 hnow
          obtain ⟨t, k, happ, hw, hjots, -⟩ := (hf.happens h.crewed).alters hy
          exact ⟨t, k, happ, List.forall_mem_cons.2 ⟨hw, fun z hz => (hsince t k happ hw z hz).1⟩, hjots⟩
        · exact hwhich newer y older hbefore hy

end Abort

/-- Either application asks for a pair, which is measured. -/
def duoOnce : List (Direction duo.nodes.length) :=
  duoOpening ++ [.act (.atNode 0 (.declare 0 1 #[some 1, some 1])), .act (.atNode 0 (.declare 0 2 (.replicate 10 none))),
    .act (.atNode 1 (.declare 0 2 (.replicate 10 none))), .act (.atNode 0 (.submit (duoRequest 0))),
    .act (.atNode 1 (.submit (duoRequest 1)))]

/-- In the last step the pair service of the first node writes results of application 0, which has been aborted. -/
def duoOvertaken : List (Moment duo.nodes.length duo.links.length) × Network duo.nodes.length duo.links.length → Bool
  | (x :: _, s) => x.state.current.map Prod.fst = some (pairId (0 : Fin duo.nodes.length)) ∧
      (x.state.node 0).service.isAborted 0 = true ∧
      ((s.node 0).apps.get? 0).map (·.arrays.get? 2) ≠ ((x.state.node 0).apps.get? 0).map (·.arrays.get? 2)
  | ([], _) => false

/-- An abort between the answer of a link and the turn of the pair service comes too late for that pair. -/
theorem abort_comes_too_late : ∃ y past s, Course duo (y :: past) s ∧ (y.before.node 0).service.isAborted 0 = true ∧
    y.Alters 0 0 := by
  obtain ⟨past, s, ht, hs⟩ := Trace.exists_of_advance duo (fun _ => True) duoOnce 13
    (fun r => (follow [.act (.atNode 0 (.abort 0))] r.1 r.2).any fun r => duoOvertaken (advance 2 r.1 r.2))
    (by decide +kernel) (fun _ _ => trivial)
  obtain ⟨⟨past₁, s₁⟩, hfollow, hs⟩ := (Option.any_eq_true _ _).1 hs
  have ht := (ht.follow (fun _ _ => trivial) hfollow).advance 2
  rcases hend : advance 2 past₁ s₁ with ⟨_ | ⟨x, past⟩, s⟩
  all_goals rw [hend] at hs ht
  · exact nomatch hs
  · obtain ⟨hown, haborted, hresults⟩ := of_decide_eq_true hs
    obtain ⟨strides, hcourse, hbefore⟩ := ht.course
    obtain ⟨y, strides, rfl, hy, -⟩ := List.map_eq_cons_iff.1 hbefore
    cases hcourse with
    | step h hf =>
      change _ = x.state at hy
      subst hy
      refine ⟨_, strides, s, .step h hf, haborted, beq_iff_eq.2 hown, fun hsame => hresults ?_⟩
      exact congrArg (Option.map (·.arrays.get? 2)) hsame

end Network

end QuantumNode
