import Mathlib.Data.List.Basic
import Mathlib.Data.List.Induction
import QuantumNode.Proofs.Config.Parser

/-! How the lines of a description may be mixed: what is said about a stack or a link depends on the order of its own
lines, not on the lines about others between them. -/
namespace QuantumNode

open Text

namespace ConfigText

/-! ### What lines are about -/

/-- What is left of a line without its comment and the blanks around. -/
def content (raw : List Char) : List Char := trim (before '#' raw)

/-- The lines of a description that say something. -/
def contents (text : String) : List (List Char) := ((lines text.toList).map content).filter (!·.isEmpty)

/-- What a line is about: the kind of a stack's device, or something else of a stack, of a link or of a classical link.
Global keys have one subject together with the lines whose key is none. -/
inductive Subject where
  | general
  | device (name : String)
  | stack (name : String)
  | link (ends : String × String)
  | classicalLink (ends : String × String)
  deriving DecidableEq

namespace Subject

def ofKey : List String → Subject
  | ["stack", name, field] => if field = "qdevice" then device name else stack name
  | ["link", a, b, _] => link (a, b)
  | ["clink", a, b, _] => classicalLink (a, b)
  | _ => general

/-- The subject of a line of which the content is given. -/
def ofContent (line : List Char) : Subject :=
  match cutAt '=' line with
  | some (key, _) => ofKey ((splitAt '.' (trim key)).map String.ofList)
  | none => general

def stack? : Subject → Option String
  | device name => some name
  | stack name => some name
  | _ => none

def link? : Subject → Option (String × String)
  | link ends => some ends
  | _ => none

def classicalLink? : Subject → Option (String × String)
  | classicalLink ends => some ends
  | _ => none

/-- The subjects of one kind, in order of first appearance. -/
def inOrder {κ : Type} [DecidableEq κ] (name? : Subject → Option κ) (subjects : List Subject) : List κ :=
  (subjects.filterMap name?).eraseDups

end Subject

/-- The subjects of one kind that a description speaks of, in order of first appearance. -/
def named {κ : Type} [DecidableEq κ] (name? : Subject → Option κ) (text : String) : List κ :=
  Subject.inOrder name? ((contents text).map Subject.ofContent)

/-- The lines about one subject. -/
def linesAbout (s : Subject) (text : String) : List (List Char) :=
  (contents text).filter fun line => Subject.ofContent line = s

theorem linesAbout_eq_nil {s : Subject} {text : String} (h : s ∉ (contents text).map Subject.ofContent) :
    linesAbout s text = [] := by
  refine List.filter_eq_nil_iff.2 fun line hline => ?_
  simpa using fun hs : Subject.ofContent line = s => h (hs ▸ List.mem_map_of_mem hline)

theorem stackOf?_eq (raw : List Char) : stackOf? raw = (Subject.ofContent (content raw)).stack? := by
  unfold stackOf? keyOf? Subject.ofContent content
  cases cutAt '=' (trim (before '#' raw)) with
  | none => rfl
  | some p =>
    simp only [Option.map_some]
    generalize (splitAt '.' (trim p.1)).map String.ofList = key
    unfold Subject.ofKey
    split
    · next name field h =>
      cases h
      by_cases hfield : field = "qdevice"
      · simp [hfield, Subject.stack?]
      · simp [hfield, Subject.stack?]
    · next hne =>
      split
      · exact absurd rfl (hne _ _)
      all_goals rfl

/-- The stacks named are those that a description mentions. -/
theorem named_stack (text : String) : named Subject.stack? text = mentioned text := by
  unfold named Subject.inOrder mentioned contents
  congr 1
  rw [List.filterMap_map, List.filterMap_filter, List.filterMap_map]
  refine List.filterMap_congr fun raw _ => ?_
  rw [Function.comp_apply, stackOf?_eq]
  by_cases h : content raw = []
  · rw [h]
    rfl
  · simp [h]

/-! ### Without line numbers

Lines are numbered for the errors alone. -/

def Entry.unnumbered (e : Entry) : Entry := { e with line := 0 }

def StackLines.unnumbered (s : StackLines) : StackLines := { s with entries := s.entries.map Entry.unnumbered }

def Draft.unnumbered (d : Draft) : Draft where
  config := d.config
  nodes := d.nodes.map fun p => (p.1, p.2.unnumbered)
  links := d.links.map fun p => (p.1, p.2.map Entry.unnumbered)
  classicalLinks := d.classicalLinks.map fun p => (p.1, p.2.map Entry.unnumbered)

/-- The draft after one more line of which the content is given. -/
def said (d : Draft) (line : List Char) : Option Draft :=
  match cutAt '=' line with
  | none => none
  | some (key, value) => (addAssignment d 0 (trim key) (trim value)).toOption

theorem map_amend {κ α β : Type} [DecidableEq κ] (k : κ) {initial : α} {f : α → α} {g : α → β} {f' : β → β}
    (hf : ∀ a, g (f a) = f' (g a)) (l : List (κ × α)) :
    (amend k initial f l).map (fun p => (p.1, g p.2)) = amend k (g initial) f' (l.map fun p => (p.1, g p.2)) := by
  induction l with
  | nil => simp [amend, hf]
  | cons e l ih =>
    by_cases h : e.1 = k
    · simp [amend, h, hf]
    · simp [amend, h, ih]

theorem addGlobal_unnumbered (d : Draft) (n : Nat) (key : String) (v : List Char) :
    (addGlobal d n key v).toOption.map Draft.unnumbered = (addGlobal d.unnumbered 0 key v).toOption := by
  unfold addGlobal
  rw [show d.unnumbered.config = d.config from rfl]
  rcases globalField d.config key v with _ | _ | c <;> rfl

/-- What is said about a stack is the same without line numbers, if the new remark is. -/
theorem amend_nodes_unnumbered {d : Draft} {name : String} {f f' : StackLines → StackLines}
    (hf : ∀ s, (f s).unnumbered = f' s.unnumbered) :
    ({ d with nodes := amend name ⟨false, []⟩ f d.nodes } : Draft).unnumbered =
      { d.unnumbered with nodes := amend name ⟨false, []⟩ f' d.unnumbered.nodes } := by
  simp only [Draft.unnumbered, map_amend name hf]
  rfl

theorem addStackField_unnumbered (d : Draft) (n : Nat) (name field : String) (v : List Char) :
    (addStackField d n name field v).toOption.map Draft.unnumbered =
      (addStackField d.unnumbered 0 name field v).toOption := by
  unfold addStackField
  split
  · split
    · exact congrArg some (amend_nodes_unnumbered fun _ => rfl)
    · exact congrArg some (amend_nodes_unnumbered fun _ => rfl)
    · rfl
  · refine congrArg some (amend_nodes_unnumbered fun s => ?_)
    simp [StackLines.unnumbered, Entry.unnumbered]

theorem amend_entries_unnumbered (ends : String × String) (field : String) (value : List Char) (n : Nat)
    (l : List ((String × String) × List Entry)) :
    (amend ends [] (· ++ [⟨field, value, n⟩]) l).map (fun p => (p.1, p.2.map Entry.unnumbered)) =
      amend ends [] (· ++ [⟨field, value, 0⟩]) (l.map fun p => (p.1, p.2.map Entry.unnumbered)) :=
  map_amend ends (fun _ => by simp [Entry.unnumbered]) l

theorem addAssignment_unnumbered (d : Draft) (n : Nat) (key value : List Char) :
    (addAssignment d n key value).toOption.map Draft.unnumbered =
      (addAssignment d.unnumbered 0 key value).toOption := by
  unfold addAssignment
  simp only []
  split
  · exact addGlobal_unnumbered ..
  · exact addStackField_unnumbered ..
  · simp only [Except.toOption, Option.map_some, Draft.unnumbered, amend_entries_unnumbered]
  · simp only [Except.toOption, Option.map_some, Draft.unnumbered, amend_entries_unnumbered]
  · rfl

theorem addLine_unnumbered (d : Draft) (n : Nat) (raw : List Char) :
    (addLine d n raw).toOption.map Draft.unnumbered =
      if (content raw).isEmpty then some d.unnumbered else said d.unnumbered (content raw) := by
  simp only [addLine, said]
  rw [show trim (before '#' raw) = content raw from rfl]
  split
  · rfl
  · cases cutAt '=' (content raw) with
    | none => rfl
    | some p => exact addAssignment_unnumbered ..

/-- A draft without its line numbers is what the contents of the lines make of the empty draft. -/
theorem draft_unnumbered (text : String) :
    (draft text.toList).toOption.map Draft.unnumbered = (contents text).foldlM said ⟨.standard, [], [], []⟩ := by
  unfold draft numberedLines contents
  rw [map_toOption_foldlM (h := fun d p => if (content p.2).isEmpty then some d else said d (content p.2))
    fun d p => addLine_unnumbered d p.1 p.2, List.foldlM_filter, List.foldlM_map]
  conv_rhs => rw [← List.zipIdx_map_fst 1 (lines text.toList)]
  rw [List.foldlM_map, List.foldlM_map]
  congr 1
  funext d p
  cases h : (content p.1).isEmpty <;> simp

theorem settle_toOption {α : Type} (s : Setting α) (unknown invalid : ConfigError) :
    (settle s unknown invalid).toOption = s.join := by
  rcases s with _ | _ | a <;> rfl

/-- Entries are taken over alike without their numbers. -/
theorem foldlM_unnumbered {σ : Type} {f : σ → Entry → Except ConfigError σ}
    (hf : ∀ s e, (f s e).toOption = (f s e.unnumbered).toOption) (l : List Entry) (s : σ) :
    (l.foldlM f s).toOption = ((l.map Entry.unnumbered).foldlM f s).toOption := by
  rw [List.foldlM_map, toOption_foldlM, toOption_foldlM]
  simp only [← hf]

theorem stack_unnumbered (p : String × StackLines) :
    (stack p).toOption = (stack (p.1, p.2.unnumbered)).toOption := by
  have hgeneric := foldlM_unnumbered (f := genericEntry)
    (fun g e => by simp only [genericEntry, settle_toOption]; rfl) p.2.entries .standard
  have hnv := foldlM_unnumbered (f := nvEntry)
    (fun d e => by simp only [nvEntry, settle_toOption]; rfl) p.2.entries .standard
  unfold stack
  rw [show p.2.unnumbered.nv = p.2.nv from rfl, show p.2.unnumbered.entries = p.2.entries.map Entry.unnumbered from rfl]
  split
  · rw [toOption_bind, toOption_bind, hnv]
  · rw [toOption_bind, toOption_bind, hgeneric]

theorem link_unnumbered (known : String → Bool) (p : (String × String) × List Entry) :
    (link known p).toOption = (link known (p.1, p.2.map Entry.unnumbered)).toOption := by
  unfold link
  rw [toOption_bind, toOption_bind, foldlM_unnumbered]
  intro l e
  simp only [linkEntry, settle_toOption]
  rfl

theorem classicalLink_unnumbered (known : String → Bool) (p : (String × String) × List Entry) :
    (classicalLink known p).toOption = (classicalLink known (p.1, p.2.map Entry.unnumbered)).toOption := by
  unfold classicalLink
  rw [toOption_bind, toOption_bind, foldlM_unnumbered]
  intro l e
  simp only [classicalEntry, settle_toOption]
  rfl

theorem complete_unnumbered (d : Draft) : d.complete.toOption = d.unnumbered.complete.toOption := by
  have hnodes : (d.nodes.mapM stack).toOption = (d.unnumbered.nodes.mapM stack).toOption := by
    simp only [Draft.unnumbered, List.mapM_map, toOption_mapM, Function.comp_def, ← stack_unnumbered]
  have hlinks (known : String → Bool) :
      (d.links.mapM (link known)).toOption = (d.unnumbered.links.mapM (link known)).toOption := by
    simp only [Draft.unnumbered, List.mapM_map, toOption_mapM, Function.comp_def, ← link_unnumbered]
  have hclassical (known : String → Bool) :
      (d.classicalLinks.mapM (classicalLink known)).toOption =
        (d.unnumbered.classicalLinks.mapM (classicalLink known)).toOption := by
    simp only [Draft.unnumbered, List.mapM_map, toOption_mapM, Function.comp_def, ← classicalLink_unnumbered]
  unfold Draft.complete
  rw [toOption_bind, toOption_bind, hnodes]
  refine Option.bind_congr fun nodes _ => ?_
  split
  · rfl
  · simp only [toOption_bind, hlinks, hclassical]
    rfl

/-- A description is read from the contents of its lines. -/
theorem parse_toOption (text : String) :
    (NetworkConfig.parse text).toOption =
      ((contents text).foldlM said ⟨.standard, [], [], []⟩).bind fun d => d.complete.toOption := by
  rw [NetworkConfig.parse, toOption_bind, ← draft_unnumbered, Option.bind_map]
  exact Option.bind_congr fun d _ => complete_unnumbered d

/-! ### Remarks

An accepted line does the same to every draft. -/

/-- What a line says, as a change of what its subject has. -/
inductive Remark where
  | setting (change : NetworkConfig → NetworkConfig)
  | device (name : String) (nv : Bool)
  | stack (name : String) (entry : Entry)
  | link (ends : String × String) (entry : Entry)
  | classicalLink (ends : String × String) (entry : Entry)

namespace Remark

def subject : Remark → Subject
  | setting _ => .general
  | device name _ => .device name
  | stack name _ => .stack name
  | link ends _ => .link ends
  | classicalLink ends _ => .classicalLink ends

/-- The draft after a remark. -/
def on (d : Draft) : Remark → Draft
  | setting f => { d with config := f d.config }
  | device name nv => { d with nodes := amend name ⟨false, []⟩ (fun s => { s with nv := nv }) d.nodes }
  | stack name e => { d with nodes := amend name ⟨false, []⟩ (fun s => { s with entries := s.entries ++ [e] }) d.nodes }
  | link ends e => { d with links := amend ends [] (· ++ [e]) d.links }
  | classicalLink ends e => { d with classicalLinks := amend ends [] (· ++ [e]) d.classicalLinks }

def setting? : Remark → Option (NetworkConfig → NetworkConfig)
  | setting f => some f
  | _ => none

def stack? : Remark → Option (String × (StackLines → StackLines))
  | device name nv => some (name, fun s => { s with nv := nv })
  | stack name e => some (name, fun s => { s with entries := s.entries ++ [e] })
  | _ => none

/-- The kind of device that a remark gives a stack. -/
def nv? : Remark → Option Bool
  | device _ nv => some nv
  | _ => none

/-- What a remark says of a stack apart from the kind of its device. -/
def entry? : Remark → Option Entry
  | stack _ e => some e
  | _ => none

def link? : Remark → Option ((String × String) × (List Entry → List Entry))
  | link ends e => some (ends, (· ++ [e]))
  | _ => none

def classicalLink? : Remark → Option ((String × String) × (List Entry → List Entry))
  | classicalLink ends e => some (ends, (· ++ [e]))
  | _ => none

end Remark

/-- Whether a global value is allowed does not depend on the values settled before. -/
theorem exists_setting (key : String) (v : List Char) :
    ∃ f : Option (NetworkConfig → NetworkConfig), ∀ c, (globalField c key v).join = f.map fun f => f c := by
  refine ⟨(globalField .standard key v).join.map fun _ c => (globalField c key v).join.getD c, fun c => ?_⟩
  unfold globalField
  split
  · cases nat64? v <;> rfl
  · cases LogLevel.parse? v <;> rfl
  · cases time? v <;> rfl
  · cases time? v <;> rfl
  · rfl

/-- A line is either no part of any description or a remark about its subject. -/
theorem exists_remark (line : List Char) :
    ∃ r : Option Remark, (∀ d, said d line = r.map fun r => r.on d) ∧
      ∀ x, r = some x → x.subject = Subject.ofContent line := by
  unfold said Subject.ofContent
  cases cutAt '=' line with
  | none => exact ⟨none, fun _ => rfl, nofun⟩
  | some p =>
    obtain ⟨key, value⟩ := p
    simp only [addAssignment]
    generalize (splitAt '.' (trim key)).map String.ofList = parts
    split
    · obtain ⟨f, hf⟩ := exists_setting (String.ofList (trim key)) (trim value)
      refine ⟨f.map .setting, fun d => ?_, fun x hx => ?_⟩
      · rw [addGlobal, toOption_bind, settle_toOption, hf]
        cases f <;> rfl
      · obtain ⟨f, -, rfl⟩ := Option.map_eq_some_iff.1 hx
        simp [Remark.subject, Subject.ofKey]
    · next name field =>
      by_cases hfield : field = "qdevice"
      · simp only [addStackField, Subject.ofKey, if_pos hfield]
        split
        · exact ⟨some (.device name false), fun _ => rfl, fun _ hx => Option.some.inj hx ▸ rfl⟩
        · exact ⟨some (.device name true), fun _ => rfl, fun _ hx => Option.some.inj hx ▸ rfl⟩
        · exact ⟨none, fun _ => rfl, nofun⟩
      · simp only [addStackField, Subject.ofKey, if_neg hfield]
        exact ⟨some (.stack name ⟨field, trim value, 0⟩), fun _ => rfl, fun _ hx => Option.some.inj hx ▸ rfl⟩
    · next a b field =>
      exact ⟨some (.link (a, b) ⟨field, trim value, 0⟩), fun _ => rfl, fun _ hx => Option.some.inj hx ▸ rfl⟩
    · next a b field =>
      exact ⟨some (.classicalLink (a, b) ⟨field, trim value, 0⟩), fun _ => rfl, fun _ hx => Option.some.inj hx ▸ rfl⟩
    · exact ⟨none, fun _ => rfl, nofun⟩

/-- Lines of which none is refused have the effect of their remarks. -/
theorem foldlM_said {remark : List Char → Option Remark}
    (hsaid : ∀ line d, said d line = (remark line).map fun r => r.on d) (ls : List (List Char)) (d : Draft) :
    ls.foldlM said d =
      if ls.all fun line => (remark line).isSome then some ((ls.filterMap remark).foldl Remark.on d) else none := by
  induction ls generalizing d with
  | nil => rfl
  | cons line ls ih =>
    rw [List.foldlM_cons, hsaid, List.all_cons, List.filterMap_cons]
    cases remark line with
    | none => rfl
    | some r => exact ih (r.on d)

/-! ### Subject by subject -/

section Changes

variable {κ α : Type} [DecidableEq κ]

/-- Changes made one after the other, each to what is said about its key. -/
def amendAll (initial : α) (rs : List (κ × (α → α))) : List (κ × α) :=
  rs.foldl (fun l r => amend r.1 initial r.2 l) []

/-- What the changes about one key make of it. -/
def changed (initial : α) (rs : List (κ × (α → α))) (k : κ) : α :=
  (rs.filter fun r => r.1 = k).foldl (fun a r => r.2 a) initial

theorem changed_concat_self (initial : α) (rs : List (κ × (α → α))) (k : κ) (f : α → α) :
    changed initial (rs ++ [(k, f)]) k = f (changed initial rs k) := by
  simp [changed]

theorem changed_concat_of_ne (initial : α) (rs : List (κ × (α → α))) {k k' : κ} (h : k ≠ k') (f : α → α) :
    changed initial (rs ++ [(k, f)]) k' = changed initial rs k' := by
  simp [changed, h]

theorem changed_of_not_mem (initial : α) {rs : List (κ × (α → α))} {k : κ} (h : k ∉ rs.map Prod.fst) :
    changed initial rs k = initial := by
  have hnone : rs.filter (fun r => r.1 = k) = [] := by
    refine List.filter_eq_nil_iff.2 fun r hr => ?_
    simpa using fun hk : r.1 = k => h (hk ▸ List.mem_map_of_mem hr)
  rw [changed, hnone, List.foldl_nil]

/-- Amending a key that is not there adds it, and leaves the others as they are. -/
theorem amend_map_of_not_mem {keys : List κ} {k : κ} (hk : k ∉ keys) (initial : α) (f : α → α) (g : κ → α) :
    amend k initial f (keys.map fun k' => (k', g k')) = (keys.map fun k' => (k', g k')) ++ [(k, f initial)] := by
  induction keys with
  | nil => rfl
  | cons k₁ keys ih =>
    obtain ⟨hne, hk⟩ := not_or.1 (mt List.mem_cons.2 hk)
    rw [List.map_cons, amend, if_neg (Ne.symm hne), ih hk]
    rfl

/-- Amending a key that is there once changes what it has. -/
theorem amend_map_of_mem {keys : List κ} (hkeys : keys.Nodup) {k : κ} (hk : k ∈ keys) (initial : α) (f : α → α)
    {g g' : κ → α} (hself : g' k = f (g k)) (hother : ∀ k', k ≠ k' → g' k' = g k') :
    amend k initial f (keys.map fun k' => (k', g k')) = keys.map fun k' => (k', g' k') := by
  induction keys with
  | nil => exact nomatch hk
  | cons k₁ keys ih =>
    obtain ⟨hnew, hkeys⟩ := List.nodup_cons.1 hkeys
    rw [List.map_cons, List.map_cons, amend]
    by_cases hfirst : k₁ = k
    · subst hfirst
      rw [if_pos rfl, hself]
      refine congrArg (_ :: ·) (List.map_congr_left fun k' hk' => ?_)
      rw [hother k' fun h => hnew (h ▸ hk')]
    · rw [if_neg hfirst, hother k₁ (Ne.symm hfirst)]
      exact congrArg (_ :: ·) (ih hkeys ((List.mem_cons.1 hk).resolve_left (Ne.symm hfirst)))

theorem nodup_eraseDups (l : List κ) : l.eraseDups.Nodup := by
  induction l using List.reverseRecOn with
  | nil => exact List.nodup_nil
  | append_singleton l k ih =>
    rw [eraseDups_concat]
    exact nodup_noted ih k

/-- Each key has, in order of first appearance, what the changes about it make of it. -/
theorem amendAll_eq (initial : α) (rs : List (κ × (α → α))) :
    amendAll initial rs = (rs.map Prod.fst).eraseDups.map fun k => (k, changed initial rs k) := by
  induction rs using List.reverseRecOn with
  | nil => rfl
  | append_singleton rs r ih =>
    obtain ⟨k, f⟩ := r
    have hfold : amendAll initial (rs ++ [(k, f)]) = amend k initial f (amendAll initial rs) := by
      simp [amendAll]
    have hother (k' : κ) (h : k ≠ k') := changed_concat_of_ne initial rs h f
    rw [hfold, ih, List.map_append, List.map_singleton, eraseDups_concat, noted]
    split
    · next hk =>
      exact amend_map_of_mem (nodup_eraseDups _) hk initial f (changed_concat_self initial rs k f) hother
    · next hk =>
      rw [amend_map_of_not_mem hk, List.map_append, List.map_singleton, changed_concat_self,
        changed_of_not_mem initial fun h => hk (List.mem_eraseDups.2 h)]
      congr 1
      refine List.map_congr_left fun k' hk' => ?_
      rw [hother k' fun h => hk (h ▸ hk')]

/-- Changes that name the keys in the same order, and make the same of each key, come to the same. -/
theorem amendAll_congr {initial : α} {rs rs' : List (κ × (α → α))}
    (horder : (rs.map Prod.fst).eraseDups = (rs'.map Prod.fst).eraseDups)
    (hkey : ∀ k, changed initial rs k = changed initial rs' k) : amendAll initial rs = amendAll initial rs' := by
  simp only [amendAll_eq, horder, hkey]

end Changes

/-- What remarks make of a draft, field by field. -/
theorem foldl_on (rs : List Remark) (d : Draft) :
    rs.foldl Remark.on d =
      { config := (rs.filterMap Remark.setting?).foldl (fun c f => f c) d.config
        nodes := (rs.filterMap Remark.stack?).foldl (fun l r => amend r.1 ⟨false, []⟩ r.2 l) d.nodes
        links := (rs.filterMap Remark.link?).foldl (fun l r => amend r.1 [] r.2 l) d.links
        classicalLinks :=
          (rs.filterMap Remark.classicalLink?).foldl (fun l r => amend r.1 [] r.2 l) d.classicalLinks } := by
  induction rs generalizing d with
  | nil => rfl
  | cons r rs ih =>
    rw [List.foldl_cons, ih]
    cases r <;> rfl

/-- Choosing before or after a map makes no difference, if the map keeps the mark that is chosen by. -/
theorem filter_filterMap_of_mark {α β : Type} {f : α → Option β} {p : α → Bool} {q : β → Bool}
    (h : ∀ a b, f a = some b → p a = q b) (l : List α) : (l.filterMap f).filter q = (l.filter p).filterMap f := by
  rw [List.filter_filterMap, List.filterMap_filter]
  refine List.filterMap_congr fun a _ => ?_
  cases hf : f a with
  | none => simp
  | some b => rw [h a b hf, Option.filter_some]

variable {rs rs' : List Remark}

/-- The keys of changes of one kind are those that the subjects name. -/
theorem inOrder_subject {κ α : Type} [DecidableEq κ] {change? : Remark → Option (κ × α)} {name? : Subject → Option κ}
    (hname : ∀ r, name? r.subject = (change? r).map Prod.fst) (rs : List Remark) :
    Subject.inOrder name? (rs.map Remark.subject) = ((rs.filterMap change?).map Prod.fst).eraseDups := by
  simp only [Subject.inOrder, List.filterMap_map, Function.comp_def, List.map_filterMap, hname]

/-- What is said of an entity with one subject depends on the remarks about that subject. -/
theorem changed_congr_of_subject {κ α : Type} [DecidableEq κ] {change? : Remark → Option (κ × (α → α))}
    {name? : Subject → Option κ} {subject : κ → Subject} (hname : ∀ r, name? r.subject = (change? r).map Prod.fst)
    (hsubject : ∀ s k, name? s = some k ↔ s = subject k) (initial : α)
    (hown : ∀ s, (rs.filter fun r => r.subject = s) = rs'.filter fun r => r.subject = s) (k : κ) :
    changed initial (rs.filterMap change?) k = changed initial (rs'.filterMap change?) k := by
  have hmark (r : Remark) (p : κ × (α → α)) (h : change? r = some p) :
      decide (r.subject = subject k) = decide (p.1 = k) := by
    rw [decide_eq_decide, ← hsubject, hname, h, Option.map_some, Option.some.injEq]
  rw [changed, changed, filter_filterMap_of_mark hmark, filter_filterMap_of_mark hmark, hown]

/-- A stack has the device that it was given last, and its entries in order, wherever the device was named. -/
theorem changed_stack (rs : List Remark) (name : String) :
    changed ⟨false, []⟩ (rs.filterMap Remark.stack?) name =
      ⟨((rs.filter fun r => r.subject = .device name).filterMap Remark.nv?).getLast?.getD false,
        (rs.filter fun r => r.subject = .stack name).filterMap Remark.entry?⟩ := by
  induction rs using List.reverseRecOn with
  | nil => rfl
  | append_singleton rs r ih =>
    rw [List.filterMap_append, List.filter_append, List.filter_append]
    cases r with
    | device name' nv =>
      by_cases h : name' = name
      · subst h
        simp [Remark.stack?, Remark.subject, Remark.nv?, changed_concat_self, ih]
      · simp [Remark.stack?, Remark.subject, changed_concat_of_ne _ _ h, ih, h]
    | stack name' e =>
      by_cases h : name' = name
      · subst h
        simp [Remark.stack?, Remark.subject, Remark.entry?, changed_concat_self, ih]
      · simp [Remark.stack?, Remark.subject, changed_concat_of_ne _ _ h, ih, h]
    | _ => simp [List.filterMap_cons, Remark.stack?, Remark.subject, ih]

/-- Remarks that are alike subject by subject, and name their subjects in one order, lead to the same draft. -/
theorem foldl_on_congr
    (hstacks : Subject.inOrder Subject.stack? (rs.map Remark.subject) =
      Subject.inOrder Subject.stack? (rs'.map Remark.subject))
    (hlinks : Subject.inOrder Subject.link? (rs.map Remark.subject) =
      Subject.inOrder Subject.link? (rs'.map Remark.subject))
    (hclassical : Subject.inOrder Subject.classicalLink? (rs.map Remark.subject) =
      Subject.inOrder Subject.classicalLink? (rs'.map Remark.subject))
    (hown : ∀ s, (rs.filter fun r => r.subject = s) = rs'.filter fun r => r.subject = s) (c : NetworkConfig) :
    rs.foldl Remark.on ⟨c, [], [], []⟩ = rs'.foldl Remark.on ⟨c, [], [], []⟩ := by
  have hgeneral (rs : List Remark) :
      rs.filterMap Remark.setting? = (rs.filter fun r => r.subject = .general).filterMap Remark.setting? := by
    rw [List.filterMap_filter]
    refine List.filterMap_congr fun r _ => ?_
    cases r <;> rfl
  rw [foldl_on, foldl_on, Draft.mk.injEq]
  refine ⟨?_, ?_, ?_, ?_⟩
  · rw [hgeneral, hown, ← hgeneral]
  · have hname (r : Remark) : r.subject.stack? = r.stack?.map Prod.fst := by cases r <;> rfl
    rw [inOrder_subject hname, inOrder_subject hname] at hstacks
    exact amendAll_congr hstacks fun name => by rw [changed_stack, changed_stack, hown, hown]
  · have hname (r : Remark) : r.subject.link? = r.link?.map Prod.fst := by cases r <;> rfl
    rw [inOrder_subject hname, inOrder_subject hname] at hlinks
    have hsubject (s : Subject) (ends : String × String) : s.link? = some ends ↔ s = .link ends := by
      cases s <;> simp [Subject.link?]
    exact amendAll_congr hlinks (changed_congr_of_subject hname hsubject [] hown)
  · have hname (r : Remark) : r.subject.classicalLink? = r.classicalLink?.map Prod.fst := by cases r <;> rfl
    rw [inOrder_subject hname, inOrder_subject hname] at hclassical
    have hsubject (s : Subject) (ends : String × String) : s.classicalLink? = some ends ↔ s = .classicalLink ends := by
      cases s <;> simp [Subject.classicalLink?]
    exact amendAll_congr hclassical (changed_congr_of_subject hname hsubject [] hown)

end ConfigText

namespace NetworkConfig

open ConfigText

/-- Descriptions that name their stacks, links and classical links in the same order, and say the same about each of
them and in general, are accepted alike and mean the same: it does not matter how the lines are mixed, where comments
and empty lines stand, or where among the lines of a stack its device is named. -/
theorem interleaving_keeps_description {text text' : String}
    (hstacks : mentioned text = mentioned text')
    (hlinks : named Subject.link? text = named Subject.link? text')
    (hclassical : named Subject.classicalLink? text = named Subject.classicalLink? text')
    (hown : ∀ s, linesAbout s text = linesAbout s text') :
    (parse text).toOption = (parse text').toOption := by
  choose remark hsaid hsubject using exists_remark
  have hmem (text : String) (line : List Char) : line ∈ contents text ↔ line ∈ linesAbout (.ofContent line) text := by
    simp [linesAbout]
  have hall : ((contents text).all fun line => (remark line).isSome) =
      (contents text').all fun line => (remark line).isSome := by
    rw [Bool.eq_iff_iff, List.all_eq_true, List.all_eq_true]
    simp only [hmem, hown]
  rw [parse_toOption, parse_toOption, foldlM_said hsaid, foldlM_said hsaid, ← hall]
  split
  · next haccepted =>
    have hsubjects (text : String) (h : (contents text).all (fun line => (remark line).isSome) = true) :
        ((contents text).filterMap remark).map Remark.subject = (contents text).map Subject.ofContent := by
      rw [List.map_filterMap, ← List.filterMap_eq_map]
      refine List.filterMap_congr fun line hline => ?_
      obtain ⟨r, hr⟩ := Option.isSome_iff_exists.1 (List.all_eq_true.1 h line hline)
      rw [hr, Option.map_some, hsubject line r hr, Function.comp_apply]
    have hlines (s : Subject) (text : String) : ((contents text).filterMap remark).filter (fun r => r.subject = s) =
        (linesAbout s text).filterMap remark :=
      filter_filterMap_of_mark (fun line r hr => by rw [hsubject line r hr]) _
    congr 2
    rw [← named_stack, ← named_stack] at hstacks
    refine foldl_on_congr ?_ ?_ ?_ (fun s => ?_) _
    · rwa [hsubjects text haccepted, hsubjects text' (hall ▸ haccepted)]
    · rwa [hsubjects text haccepted, hsubjects text' (hall ▸ haccepted)]
    · rwa [hsubjects text haccepted, hsubjects text' (hall ▸ haccepted)]
    · rw [hlines, hlines, hown]
  · rfl

/-- Two stacks and what joins them, told stack by stack, and with the lines mixed and comments between them. -/
theorem interleaving_keeps_description_of_two_stacks :
    let text := "stack.a.num_qubits=3\nstack.a.init=5\nstack.b.qdevice=nv\nstack.b.measure=4\nlink.a.b.length=2\n" ++
      "link.a.b.typ=heralded\nclink.a.b.delay=9\nseed=7"
    let text' := "# two stacks\nstack.a.num_qubits=3\nlink.a.b.length=2 # far\nseed=7\n\nstack.b.measure=4\n" ++
      "stack.b.qdevice=nv\nclink.a.b.delay=9\nstack.a.init=5\nlink.a.b.typ=heralded\n"
    (mentioned text = mentioned text' ∧ named Subject.link? text = named Subject.link? text' ∧
      named Subject.classicalLink? text = named Subject.classicalLink? text' ∧
      ∀ s, linesAbout s text = linesAbout s text') ∧
    (parse text).toOption = (parse text').toOption := by
  intro text text'
  obtain ⟨⟨hstacks, hlinks, hclassical⟩, hnamed⟩ : (mentioned text = mentioned text' ∧
      named Subject.link? text = named Subject.link? text' ∧
      named Subject.classicalLink? text = named Subject.classicalLink? text') ∧
      ∀ s ∈ (contents text ++ contents text').map Subject.ofContent, linesAbout s text = linesAbout s text' := by
    decide +kernel
  have hown (s : Subject) : linesAbout s text = linesAbout s text' := by
    by_cases hs : s ∈ (contents text ++ contents text').map Subject.ofContent
    · exact hnamed s hs
    · rw [List.map_append, List.mem_append, not_or] at hs
      rw [linesAbout_eq_nil hs.1, linesAbout_eq_nil hs.2]
  exact ⟨⟨hstacks, hlinks, hclassical, hown⟩, interleaving_keeps_description hstacks hlinks hclassical hown⟩

end NetworkConfig

end QuantumNode
