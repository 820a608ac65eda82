import Mathlib.Algebra.GroupWithZero.Nat
import QuantumNode.Config.Parser
import QuantumNode.Proofs.Data.Except

/-! What accepted descriptions of networks are like: which stacks they have and in which order, and what is known of
their devices and links; and which error the others are rejected with. -/
namespace QuantumNode

open Text

/-- A device has a position, and no more positions communicate than it has. -/
def DeviceConfig.Sound : DeviceConfig → Prop
  | generic d => 0 < d.numQubits ∧ d.numCommQubits ≤ d.numQubits
  | nv d => 0 < d.numQubits

namespace NetworkConfig

def names (c : NetworkConfig) : List String := c.nodes.map (·.name)

/-- The qubits of all stacks together. -/
def qubits (c : NetworkConfig) : Nat := (c.nodes.map (·.device.numQubits)).sum

/-- Stacks have names of their own and sound devices, and every link joins two of them. -/
structure Sound (c : NetworkConfig) : Prop where
  distinct : c.names.Nodup
  devices : ∀ s ∈ c.nodes, s.device.Sound
  links : ∀ l ∈ c.links, l.stack1 ∈ c.names ∧ l.stack2 ∈ c.names ∧ l.stack1 ≠ l.stack2

end NetworkConfig

namespace ConfigText

/-- The parts of the key that a line assigns a value to. -/
def keyOf? (raw : List Char) : Option (List String) :=
  (cutAt '=' (trim (before '#' raw))).map fun p => (splitAt '.' (trim p.1)).map String.ofList

/-- The stack that a line is about. -/
def stackOf? (raw : List Char) : Option String :=
  match keyOf? raw with
  | some ["stack", name, _] => some name
  | _ => none

theorem stackOf?_of_key {raw : List Char} {name field : String} (h : keyOf? raw = some ["stack", name, field]) :
    stackOf? raw = some name := by
  simp only [stackOf?, h]

theorem stackOf?_eq_none {raw : List Char} (h : ∀ name field, keyOf? raw ≠ some ["stack", name, field]) :
    stackOf? raw = none := by
  unfold stackOf?
  split
  · next name field hkey => exact absurd hkey (h name field)
  · rfl

/-- The stacks that a description speaks of, in order of first appearance. -/
def mentioned (text : String) : List String := ((lines text.toList).filterMap stackOf?).eraseDups

/-! ### Keys in order of first appearance -/

section Keys

variable {κ α : Type} [DecidableEq κ]

/-- The keys seen so far and one more, which may have been seen before. -/
def noted (seen : List κ) (k : κ) : List κ := if k ∈ seen then seen else seen ++ [k]

theorem nodup_noted {seen : List κ} (h : seen.Nodup) (k : κ) : (noted seen k).Nodup := by
  unfold noted
  split
  · exact h
  · next hk =>
    refine List.nodup_append.2 ⟨h, by simp, ?_⟩
    rintro a ha b hb rfl
    exact hk (List.mem_singleton.1 hb ▸ ha)

theorem eraseDups_concat (l : List κ) (k : κ) : (l ++ [k]).eraseDups = noted l.eraseDups k := by
  rw [List.eraseDups_append, noted]
  simp only [List.mem_eraseDups]
  split
  · next h => simp [List.removeAll, h]
  · next h => simp [List.removeAll, h, List.eraseDups_cons]

theorem map_fst_amend (k : κ) (initial : α) (f : α → α) (l : List (κ × α)) :
    (amend k initial f l).map Prod.fst = noted (l.map Prod.fst) k := by
  unfold noted
  induction l with
  | nil => rfl
  | cons e l ih =>
    rw [amend]
    by_cases he : e.1 = k
    · simp [he]
    · have hk : k ∈ (e :: l).map Prod.fst ↔ k ∈ l.map Prod.fst := by simp [Ne.symm he]
      simp only [if_neg he, hk]
      rw [List.map_cons, ih, List.map_cons]
      split <;> rfl

end Keys

/-! ### Line by line -/

/-- A line that is accepted assigns nothing, or a value to its key. -/
theorem addLine_ok {d d' : Draft} {number : Nat} {raw : List Char} (h : addLine d number raw = .ok d') :
    (keyOf? raw = none ∧ d' = d) ∨ ∃ key value,
      keyOf? raw = some ((splitAt '.' key).map String.ofList) ∧ addAssignment d number key value = .ok d' := by
  simp only [addLine] at h
  split at h
  · next hline =>
    cases h
    refine .inl ⟨?_, rfl⟩
    rw [keyOf?, List.isEmpty_iff.1 hline]
    rfl
  · split at h
    · exact nomatch h
    · next key value hcut => exact .inr ⟨trim key, trim value, by rw [keyOf?, hcut]; rfl, h⟩

/-- A line adds the stack that it is about, and leaves the order of the others. -/
theorem addLine_nodes {d d' : Draft} {number : Nat} {raw : List Char} (h : addLine d number raw = .ok d') :
    d'.nodes.map Prod.fst = (stackOf? raw).elim (d.nodes.map Prod.fst) (noted (d.nodes.map Prod.fst)) := by
  obtain ⟨hkey, rfl⟩ | ⟨key, value, hkey, h⟩ := addLine_ok h
  · rw [stackOf?_eq_none (by simp [hkey])]
    rfl
  · unfold addAssignment at h
    split at h
    · next hparts =>
      obtain ⟨c, -, h⟩ := bind_ok h
      cases h
      rw [stackOf?_eq_none (by simp [hkey, hparts])]
      rfl
    · next hparts =>
      rw [stackOf?_of_key (hkey.trans (congrArg some hparts))]
      unfold addStackField at h
      split at h
      · split at h
        · cases h
          exact map_fst_amend ..
        · cases h
          exact map_fst_amend ..
        · exact nomatch h
      · cases h
        exact map_fst_amend ..
    · next hparts =>
      cases h
      rw [stackOf?_eq_none (by simp [hkey, hparts])]
      rfl
    · next hparts =>
      cases h
      rw [stackOf?_eq_none (by simp [hkey, hparts])]
      rfl
    · exact nomatch h

private theorem foldlM_addLine {ls : List (List Char)} {n : Nat} {d d' : Draft} {past : List String}
    (hd : d.nodes.map Prod.fst = past.eraseDups) (hn : (d.nodes.map Prod.fst).Nodup)
    (h : ((ls.zipIdx n).map fun p => (p.2, p.1)).foldlM (fun d p => addLine d p.1 p.2) d = .ok d') :
    d'.nodes.map Prod.fst = (past ++ ls.filterMap stackOf?).eraseDups ∧ (d'.nodes.map Prod.fst).Nodup := by
  induction ls generalizing n d past with
  | nil =>
    cases h
    exact ⟨by simpa using hd, hn⟩
  | cons raw ls ih =>
    rw [List.zipIdx_cons, List.map_cons, List.foldlM_cons] at h
    obtain ⟨d₁, h₁, h⟩ := bind_ok h
    have hadd := addLine_nodes h₁
    rw [List.filterMap_cons]
    rcases hs : stackOf? raw with _ | name
    · rw [hs] at hadd
      exact ih (hadd.trans hd) (hadd.symm ▸ hn) h
    · rw [hs] at hadd
      have hadd : d₁.nodes.map Prod.fst = noted (d.nodes.map Prod.fst) name := hadd
      have hnext := ih (hadd.trans (by rw [eraseDups_concat, hd])) (hadd.symm ▸ nodup_noted hn name) h
      simpa using hnext

/-- The stacks of a draft are those that its lines speak of, each once. -/
theorem draft_nodes {text : String} {d : Draft} (h : draft text.toList = .ok d) :
    d.nodes.map Prod.fst = mentioned text ∧ (mentioned text).Nodup := by
  have hrun : d.nodes.map Prod.fst = ([] ++ (lines text.toList).filterMap stackOf?).eraseDups ∧
      (d.nodes.map Prod.fst).Nodup := foldlM_addLine rfl (by simp) h
  have hd : d.nodes.map Prod.fst = mentioned text := hrun.1
  exact ⟨hd, hd ▸ hrun.2⟩

/-! ### Stack by stack and link by link -/

private theorem settle_ok {α : Type} {s : Setting α} {unknown invalid : ConfigError} {a : α}
    (h : settle s unknown invalid = .ok a) : s = some (some a) := by
  unfold settle at h
  split at h
  · exact nomatch h
  · exact nomatch h
  · cases h
    rfl

theorem count?_pos {v : List Char} {n : Nat} (h : count? v = some n) : 0 < n := by
  obtain ⟨-, h⟩ := Option.filter_eq_some_iff.1 h
  simpa using h

theorem genericField_pos {g g' : GenericDevice} {field : String} {v : List Char} (hg : 0 < g.numQubits)
    (h : genericField g field v = some (some g')) : 0 < g'.numQubits := by
  unfold genericField at h
  split at h
  case h_12 => exact nomatch h
  all_goals obtain ⟨x, hx, rfl⟩ := Option.map_eq_some_iff.1 (Option.some.inj h)
  case h_1 => exact count?_pos hx
  all_goals exact hg

theorem nvField_pos {d d' : NVDevice} {field : String} {v : List Char} (hd : 0 < d.numQubits)
    (h : nvField d field v = some (some d')) : 0 < d'.numQubits := by
  unfold nvField at h
  split at h
  case h_21 => exact nomatch h
  case h_2 =>
    have h := Option.some.inj h
    simp only [perfectField] at h
    split at h
    · cases h
      exact hd
    · split at h
      · cases h
        exact hd
      · exact nomatch h
  all_goals obtain ⟨x, hx, rfl⟩ := Option.map_eq_some_iff.1 (Option.some.inj h)
  case h_1 => exact count?_pos hx
  all_goals exact hd

/-- A stack that is accepted has its name, and a sound device. -/
theorem stack_ok {p : String × StackLines} {s : StackConfig} (h : stack p = .ok s) :
    s.name = p.1 ∧ s.device.Sound := by
  unfold stack at h
  split at h
  · obtain ⟨d, hd, h⟩ := bind_ok h
    cases h
    refine ⟨rfl, foldlM_ok (P := fun d : NVDevice => 0 < d.numQubits) (fun d e d' hd h => ?_) (by decide) hd⟩
    exact nvField_pos hd (settle_ok h)
  · obtain ⟨g, hg, h⟩ := bind_ok h
    split at h
    · exact nomatch h
    · next hcomm =>
      cases h
      refine ⟨rfl, ?_, Nat.le_of_not_lt hcomm⟩
      refine foldlM_ok (P := fun g : GenericDevice => 0 < g.numQubits) (fun g e g' hg h => ?_) (by decide) hg
      exact genericField_pos hg (settle_ok h)

theorem linkField_ends {l l' : LinkConfig} {field : String} {v : List Char}
    (h : linkField l field v = some (some l')) : l'.stack1 = l.stack1 ∧ l'.stack2 = l.stack2 := by
  unfold linkField at h
  split at h
  case h_13 => exact nomatch h
  all_goals
    obtain ⟨x, -, rfl⟩ := Option.map_eq_some_iff.1 (Option.some.inj h)
    exact ⟨rfl, rfl⟩

/-- A link that is accepted joins the two stacks of its key, which are known and not the same. -/
theorem link_ok {known : String → Bool} {p : (String × String) × List Entry} {l : LinkConfig}
    (h : link known p = .ok l) :
    l.stack1 = p.1.1 ∧ l.stack2 = p.1.2 ∧ known p.1.1 = true ∧ known p.1.2 = true ∧ p.1.1 ≠ p.1.2 := by
  obtain ⟨⟨a, b⟩, es⟩ := p
  obtain ⟨l₁, h₁, h⟩ := bind_ok h
  obtain ⟨ha, hb⟩ : l₁.stack1 = a ∧ l₁.stack2 = b := by
    refine foldlM_ok (P := fun l : LinkConfig => l.stack1 = a ∧ l.stack2 = b) (fun l e l' hl h => ?_) ⟨rfl, rfl⟩ h₁
    obtain ⟨h₁, h₂⟩ := linkField_ends (settle_ok h)
    exact ⟨h₁.trans hl.1, h₂.trans hl.2⟩
  split at h
  · exact nomatch h
  · next hknown =>
    split at h
    · exact nomatch h
    · next hne =>
      split at h
      · exact nomatch h
      · cases h
        have hboth : known a = true ∧ known b = true := by simpa using hknown
        exact ⟨ha, hb, hboth.1, hboth.2, hne⟩

/-- What is known of an accepted description: its stacks are those that the text speaks of, and it is sound. -/
theorem complete_ok {d : Draft} {c : NetworkConfig} (hd : (d.nodes.map Prod.fst).Nodup) (h : d.complete = .ok c) :
    c.names = d.nodes.map Prod.fst ∧ c.Sound := by
  obtain ⟨nodes, hnodes, h⟩ := bind_ok h
  split at h
  · exact nomatch h
  · obtain ⟨links, hlinks, h⟩ := bind_ok h
    obtain ⟨classicalLinks, -, h⟩ := bind_ok h
    cases h
    have hnames : nodes.map (·.name) = d.nodes.map Prod.fst := map_of_mapM_ok (fun p s h => (stack_ok h).1) hnodes
    have hknown {name : String} (h : nodes.any (·.name = name) = true) : name ∈ nodes.map (·.name) := by
      obtain ⟨s, hs, hname⟩ := List.any_eq_true.1 h
      exact List.mem_map.2 ⟨s, hs, of_decide_eq_true hname⟩
    refine ⟨hnames, ?_, fun s hs => ?_, fun l hl => ?_⟩
    · rwa [← hnames] at hd
    · obtain ⟨p, -, hp⟩ := exists_of_mapM_ok hnodes hs
      exact (stack_ok hp).2
    · obtain ⟨p, -, hp⟩ := exists_of_mapM_ok hlinks hl
      obtain ⟨h₁, h₂, hk₁, hk₂, hne⟩ := link_ok hp
      rw [h₁, h₂]
      exact ⟨hknown hk₁, hknown hk₂, hne⟩

end ConfigText

/-- The stacks of an accepted description are those that its text speaks of, in order of first appearance, and the
description is sound. -/
theorem NetworkConfig.parse_ok {text : String} {c : NetworkConfig} (h : parse text = .ok c) :
    c.names = ConfigText.mentioned text ∧ c.Sound := by
  obtain ⟨d, hd, hc⟩ := bind_ok h
  obtain ⟨hmentioned, hnodup⟩ := ConfigText.draft_nodes hd
  obtain ⟨hnames, hsound⟩ := ConfigText.complete_ok (hmentioned ▸ hnodup) hc
  exact ⟨hnames.trans hmentioned, hsound⟩

/-! ### Errors

Lines are refused for what they are as they are read; the values of stacks and links are looked at when all lines have been
read, stack by stack and link by link. -/

/-- The line that an error names. The others are about a stack, a link or the description as a whole. -/
def ConfigError.line? : ConfigError → Option Nat
  | noAssignment l | unknownKey _ l | invalidValue _ _ l | unknownDevice _ l | unknownGenericKey _ l | unknownNVKey _ l
  | unknownLinkKey _ l | unknownClassicalKey _ l | invalidLinkValue _ _ l | invalidClassicalValue _ _ l => some l
  | tooManyCommQubits _ | noStacks | linkToUnknownStack _ _ | linkToItself _ _ | linkNeverSucceeds _ _
  | classicalToUnknownStack _ _ | classicalBoth _ _ | classicalNeither _ _ | unreadable _ => none

namespace ConfigText

/-! Whether a value is allowed does not depend on those before it. -/

theorem failure?_settle_congr {α β : Type} {s : Setting α} {s' : Setting β} (h : s.map Option.isSome = s'.map Option.isSome)
    (unknown invalid : ConfigError) : failure? (settle s unknown invalid) = failure? (settle s' unknown invalid) := by
  rcases s with _ | _ | a <;> rcases s' with _ | _ | a' <;> first | rfl | simp at h

theorem globalField_allows (c c' : NetworkConfig) (key : String) (v : List Char) :
    (globalField c key v).map Option.isSome = (globalField c' key v).map Option.isSome := by
  unfold globalField
  split <;> simp

theorem genericField_allows (g g' : GenericDevice) (field : String) (v : List Char) :
    (genericField g field v).map Option.isSome = (genericField g' field v).map Option.isSome := by
  unfold genericField
  split <;> simp

theorem nvField_allows (d d' : NVDevice) (field : String) (v : List Char) :
    (nvField d field v).map Option.isSome = (nvField d' field v).map Option.isSome := by
  have hperfect : (perfectField d v).isSome = (perfectField d' v).isSome := by
    simp only [perfectField]
    split
    · rfl
    · split <;> rfl
  unfold nvField
  split <;> simp [hperfect]

theorem linkField_allows (l l' : LinkConfig) (field : String) (v : List Char) :
    (linkField l field v).map Option.isSome = (linkField l' field v).map Option.isSome := by
  unfold linkField
  split <;> simp

theorem classicalField_allows (c c' : ClassicalLinkConfig) (field : String) (v : List Char) :
    (classicalField c field v).map Option.isSome = (classicalField c' field v).map Option.isSome := by
  unfold classicalField
  split <;> simp

/-- What a numbered line is refused for, whatever stands above it. -/
def lineError? (p : Nat × List Char) : Option ConfigError := failure? (addLine ⟨.standard, [], [], []⟩ p.1 p.2)

theorem failure?_addGlobal (d d' : Draft) (n : Nat) (key : String) (v : List Char) :
    failure? (addGlobal d n key v) = failure? (addGlobal d' n key v) := by
  have hsettle := failure?_settle_congr (globalField_allows d.config d'.config key v) (.unknownKey key n)
    (.invalidValue (String.ofList v) key n)
  simp only [addGlobal]
  revert hsettle
  cases settle (globalField d.config key v) (.unknownKey key n) (.invalidValue (String.ofList v) key n) <;>
    cases settle (globalField d'.config key v) (.unknownKey key n) (.invalidValue (String.ofList v) key n) <;>
    exact id

theorem failure?_addLine (d : Draft) (p : Nat × List Char) : failure? (addLine d p.1 p.2) = lineError? p := by
  simp only [lineError?, addLine]
  split
  · rfl
  · split
    · rfl
    · simp only [addAssignment]
      split
      · exact failure?_addGlobal ..
      · unfold addStackField
        split
        · split <;> rfl
        · rfl
      all_goals rfl

/-- An error about a line names the line. -/
theorem line?_of_lineError? {p : Nat × List Char} {e : ConfigError} (h : lineError? p = some e) : e.line? = some p.1 := by
  have hsettle {α : Type} (s : Setting α) (key : String) (v : List Char) :
      Refuses (fun e => e.line? = some p.1) (settle s (.unknownKey key p.1) (.invalidValue (String.ofList v) key p.1)) := by
    rcases s with _ | _ | a
    · exact .error rfl
    · exact .error rfl
    · exact .ok a
  have hline : Refuses (fun e => e.line? = some p.1) (addLine ⟨.standard, [], [], []⟩ p.1 p.2) := by
    simp only [addLine]
    split
    · exact .ok _
    · split
      · exact .error rfl
      · simp only [addAssignment]
        split
        · exact .bind (hsettle _ _ _) fun c => .ok _
        · unfold addStackField
          split
          · split
            · exact .ok _
            · exact .ok _
            · exact .error rfl
          · exact .ok _
        · exact .ok _
        · exact .ok _
        · exact .error rfl
  exact hline e (failure?_eq_some.1 h)

/-- The first line that is refused decides whether lines can be read. -/
theorem failure?_draft (cs : List Char) : failure? (draft cs) = (numberedLines cs).findSome? lineError? :=
  failure?_foldlM failure?_addLine _ _

/-- The first value of a stack that its device does not allow. -/
def StackLines.error? (s : StackLines) : Option ConfigError :=
  s.entries.findSome? fun e => if s.nv then failure? (nvEntry .standard e) else failure? (genericEntry .standard e)

def linkError? (es : List Entry) : Option ConfigError := es.findSome? fun e => failure? (linkEntry (.standard "" "") e)

def classicalError? (es : List Entry) : Option ConfigError :=
  es.findSome? fun e => failure? (classicalEntry (.standard "" "") e)

/-- The first value that is not allowed: those of stacks come first, then those of links and of classical links. -/
def Draft.error? (d : Draft) : Option ConfigError :=
  (d.nodes.findSome? fun p => p.2.error?).or <|
    (d.links.findSome? fun p => linkError? p.2).or <| d.classicalLinks.findSome? fun p => classicalError? p.2

/-- A failure that names a line is that of a value. -/
structure Blames (failure value : Option ConfigError) : Prop where
  none : failure = none → value = none
  some : ∀ e n, failure = some e → e.line? = some n → value = some e

namespace Blames

theorem refl (x : Option ConfigError) : Blames x x := ⟨id, fun _ _ h _ => h⟩

/-- A failure that is about no line. -/
theorem of_line? {e : ConfigError} (h : e.line? = Option.none) (value : Option ConfigError) : Blames (.some e) value :=
  ⟨nofun, fun e' n he hn => by
    cases he
    exact nomatch h.symm.trans hn⟩

theorem findSome? {α : Type} {f g : α → Option ConfigError} (h : ∀ a, Blames (f a) (g a)) (l : List α) :
    Blames (l.findSome? f) (l.findSome? g) := by
  induction l with
  | nil => exact refl _
  | cons a l ih =>
    rw [List.findSome?_cons, List.findSome?_cons]
    have ha := h a
    cases hf : f a with
    | none =>
      rw [ha.none hf]
      exact ih
    | some e => exact ⟨nofun, fun e' n he hn => by rw [ha.some e' n (hf.trans he) hn]⟩

theorem bind {α β : Type} {x : Except ConfigError α} {f : α → Except ConfigError β} {value value' : Option ConfigError}
    (hx : Blames (failure? x) value) (hf : ∀ a, Blames (failure? (f a)) value') :
    Blames (failure? (x >>= f)) (value.or value') := by
  cases x with
  | error e => exact ⟨nofun, fun e' n he hn => by rw [hx.some e' n he hn]; rfl⟩
  | ok a =>
    rw [hx.none rfl]
    exact hf a

end Blames

theorem blames_stack (p : String × StackLines) : Blames (failure? (stack p)) p.2.error? := by
  unfold stack StackLines.error?
  rw [← Option.or_none (o := List.findSome? _ _)]
  split
  · refine .bind ?_ fun d => .refl _
    rw [failure?_foldlM fun d e => failure?_settle_congr (nvField_allows d .standard e.field e.value) _ _]
    exact .refl _
  · refine .bind ?_ fun g => ?_
    · rw [failure?_foldlM fun g e => failure?_settle_congr (genericField_allows g .standard e.field e.value) _ _]
      exact .refl _
    · split
      · exact .of_line? rfl _
      · exact .refl _

theorem blames_link (known : String → Bool) (p : (String × String) × List Entry) :
    Blames (failure? (link known p)) (linkError? p.2) := by
  unfold link linkError?
  rw [← Option.or_none (o := List.findSome? _ _)]
  refine .bind ?_ fun l => ?_
  · rw [failure?_foldlM fun l e => failure?_settle_congr (linkField_allows l (.standard "" "") e.field e.value) _ _]
    exact .refl _
  · split
    · exact .of_line? rfl _
    · split
      · exact .of_line? rfl _
      · split
        · exact .of_line? rfl _
        · exact .refl _

theorem blames_classicalLink (known : String → Bool) (p : (String × String) × List Entry) :
    Blames (failure? (classicalLink known p)) (classicalError? p.2) := by
  unfold classicalLink classicalError?
  rw [← Option.or_none (o := List.findSome? _ _)]
  refine .bind ?_ fun c => ?_
  · rw [failure?_foldlM fun c e =>
      failure?_settle_congr (classicalField_allows c (.standard "" "") e.field e.value) _ _]
    exact .refl _
  · split
    · exact .of_line? rfl _
    · split
      · exact .of_line? rfl _
      · exact .of_line? rfl _
      · exact .refl _

/-- Values are looked at in order. -/
theorem blames_complete (d : Draft) : Blames (failure? d.complete) d.error? := by
  unfold Draft.complete Draft.error?
  refine .bind ?_ fun nodes => ?_
  · rw [failure?_mapM]
    exact .findSome? blames_stack _
  · split
    · exact .of_line? rfl _
    · refine .bind ?_ fun links => ?_
      · rw [failure?_mapM]
        exact .findSome? (blames_link _) _
      · rw [← Option.or_none (o := List.findSome? _ _)]
        refine .bind ?_ fun classicalLinks => .refl _
        rw [failure?_mapM]
        exact .findSome? (blames_classicalLink _) _

/-! The values of one stack or link stand in the order of their lines. -/

/-- Values in the order of their lines, which are above line `n`. -/
structure Ascends (n : Nat) (es : List Entry) : Prop where
  sorted : es.Pairwise fun e e' => e.line < e'.line
  above : ∀ e ∈ es, e.line < n

theorem Ascends.nil (n : Nat) : Ascends n [] := ⟨.nil, List.forall_mem_nil _⟩

theorem Ascends.succ {n : Nat} {es : List Entry} (h : Ascends n es) : Ascends (n + 1) es :=
  ⟨h.sorted, fun e he => Nat.lt_succ_of_lt (h.above e he)⟩

theorem Ascends.concat {n : Nat} {es : List Entry} (h : Ascends n es) (field : String) (value : List Char) :
    Ascends (n + 1) (es ++ [⟨field, value, n⟩]) where
  sorted := List.pairwise_append.2 ⟨h.sorted, List.pairwise_singleton _ _, fun e he e' he' =>
    List.mem_singleton.1 he' ▸ h.above e he⟩
  above e he := by
    rcases List.mem_append.1 he with he | he
    · exact Nat.lt_succ_of_lt (h.above e he)
    · rw [List.mem_singleton.1 he]
      exact Nat.lt_succ_self n

theorem forall_amend {κ α : Type} [DecidableEq κ] {P Q : α → Prop} {k : κ} {initial : α} {f : α → α} (hnew : P initial)
    (hkeep : ∀ a, P a → Q a) (hf : ∀ a, P a → Q (f a)) {l : List (κ × α)} (h : ∀ p ∈ l, P p.2) :
    ∀ p ∈ amend k initial f l, Q p.2 := by
  induction l with
  | nil => exact List.forall_mem_cons.2 ⟨hf _ hnew, List.forall_mem_nil _⟩
  | cons e l ih =>
    obtain ⟨he, hl⟩ := List.forall_mem_cons.1 h
    rw [amend]
    split
    · exact List.forall_mem_cons.2 ⟨hf _ he, fun p hp => hkeep _ (hl p hp)⟩
    · exact List.forall_mem_cons.2 ⟨hkeep _ he, ih hl⟩

structure Draft.Ascends (d : Draft) (n : Nat) : Prop where
  nodes : ∀ p ∈ d.nodes, ConfigText.Ascends n p.2.entries
  links : ∀ p ∈ d.links, ConfigText.Ascends n p.2
  classicalLinks : ∀ p ∈ d.classicalLinks, ConfigText.Ascends n p.2

theorem Draft.Ascends.succ {d : Draft} {n : Nat} (h : d.Ascends n) : d.Ascends (n + 1) :=
  ⟨fun p hp => (h.nodes p hp).succ, fun p hp => (h.links p hp).succ, fun p hp => (h.classicalLinks p hp).succ⟩

theorem addLine_ascends {d d' : Draft} {n : Nat} {raw : List Char} (hd : d.Ascends n) (h : addLine d n raw = .ok d') :
    d'.Ascends (n + 1) := by
  have hnodes {name : String} {f : StackLines → StackLines}
      (hf : ∀ s : StackLines, ConfigText.Ascends n s.entries → ConfigText.Ascends (n + 1) (f s).entries) :
      ({ d with nodes := amend name ⟨false, []⟩ f d.nodes } : Draft).Ascends (n + 1) :=
    ⟨forall_amend (Q := fun s : StackLines => ConfigText.Ascends (n + 1) s.entries) (.nil n) (fun _ hs => hs.succ) hf
      hd.nodes, hd.succ.links, hd.succ.classicalLinks⟩
  obtain ⟨-, rfl⟩ | ⟨key, value, -, h⟩ := addLine_ok h
  · exact hd.succ
  · unfold addAssignment at h
    split at h
    · obtain ⟨c, -, h⟩ := bind_ok h
      cases h
      exact ⟨hd.succ.nodes, hd.succ.links, hd.succ.classicalLinks⟩
    · unfold addStackField at h
      split at h
      · split at h
        · cases h
          exact hnodes fun _ hs => hs.succ
        · cases h
          exact hnodes fun _ hs => hs.succ
        · exact nomatch h
      · cases h
        exact hnodes fun _ hs => hs.concat _ _
    · cases h
      exact ⟨hd.succ.nodes, forall_amend (.nil n) (fun _ hes => hes.succ) (fun _ hes => hes.concat _ _) hd.links,
        hd.succ.classicalLinks⟩
    · cases h
      exact ⟨hd.succ.nodes, hd.succ.links,
        forall_amend (.nil n) (fun _ hes => hes.succ) (fun _ hes => hes.concat _ _) hd.classicalLinks⟩
    · exact nomatch h

private theorem foldlM_ascends {ls : List (List Char)} {n : Nat} {d d' : Draft} (hd : d.Ascends n)
    (h : ((ls.zipIdx n).map fun p => (p.2, p.1)).foldlM (fun d p => addLine d p.1 p.2) d = .ok d') :
    d'.Ascends (n + ls.length) := by
  induction ls generalizing n d with
  | nil =>
    cases h
    exact hd
  | cons raw ls ih =>
    rw [List.zipIdx_cons, List.map_cons, List.foldlM_cons] at h
    obtain ⟨d₁, h₁, h⟩ := bind_ok h
    rw [List.length_cons, Nat.add_comm ls.length, ← Nat.add_assoc]
    exact ih (addLine_ascends hd h₁) h

theorem draft_ascends {text : String} {d : Draft} (h : draft text.toList = .ok d) :
    d.Ascends (1 + (lines text.toList).length) :=
  foldlM_ascends ⟨List.forall_mem_nil _, List.forall_mem_nil _, List.forall_mem_nil _⟩ h

end ConfigText

namespace NetworkConfig

open ConfigText

/-- An error that names a line is that of the first line that is refused as it is read: one that assigns nothing, has an
unknown key, or gives a global key or a device a value that it cannot have. If there is none, it is that of the first value
that is not allowed: stacks come first, then links, then classical links, each in order of first appearance and with its
values in order of their lines. -/
theorem parse_error_of_line {text : String} {e : ConfigError} {n : Nat} (h : parse text = .error e)
    (hn : e.line? = some n) :
    (∃ above raw below, numberedLines text.toList = above ++ (n, raw) :: below ∧ lineError? (n, raw) = some e ∧
        ∀ p ∈ above, lineError? p = none) ∨
      (∀ p ∈ numberedLines text.toList, lineError? p = none) ∧ ∃ d, draft text.toList = .ok d ∧ d.error? = some e ∧
        d.Ascends (1 + (lines text.toList).length) := by
  have hread := failure?_draft text.toList
  unfold parse at h
  cases hd : draft text.toList with
  | error e' =>
    rw [hd] at h hread
    cases h
    obtain ⟨above, p, below, hlines, hp, habove⟩ := List.findSome?_eq_some_iff.1 hread.symm
    obtain rfl : p.1 = n := Option.some.inj ((line?_of_lineError? hp).symm.trans hn)
    exact .inl ⟨above, p.2, below, hlines, hp, habove⟩
  | ok d =>
    rw [hd] at h hread
    refine .inr ⟨List.findSome?_eq_none_iff.1 hread.symm, d, rfl, ?_, draft_ascends hd⟩
    exact (blames_complete d).some e n (failure?_eq_some.2 h) hn

/-- A value that is wrong is found after an unknown key below it. -/
example : failure? (parse "stack.a.num_qubits=0\nfoo=1\n") = some (.unknownKey "foo" 2) ∧
    failure? (parse "stack.a.num_qubits=0\nseed=1\n") = some (.invalidValue "0" "num_qubits" 1) := by
  decide +kernel

end NetworkConfig

end QuantumNode
