import Mathlib.Data.List.Induction
import QuantumNode.CommandLine.Run
import QuantumNode.Proofs.Data.Except
import QuantumNode.Proofs.Data.SortedMap

/-! What a run goes by, of its flags and of the options files named among them. Of several values the last one counts,
and a flag counts before an option, but for the values that stand for an absent flag. -/
namespace QuantumNode.CommandLine

open Text

/-! ### What has been said last -/

/-- The last of the values that are there in a list. -/
def last {α β : Type} (value? : α → Option β) (l : List α) : Option β := (l.filterMap value?).getLast?

theorem last_append {α β : Type} (value? : α → Option β) (l l' : List α) :
    last value? (l ++ l') = (last value? l').or (last value? l) := by
  rw [last, List.filterMap_append, List.getLast?_append, last, last]

def textOf (key : String) (e : String × String) : Option String := if e.1 = key then some e.2 else none

def readNumber (v : String) : Option Nat := (number v).toOption

def numberOf (key : String) (e : String × String) : Option Nat := (textOf key e).bind readNumber

/-- The script that a flag gives a node. -/
def scriptOf (node : String) (e : String × String) : Option String := do
  let (name, path) ← cutAt '=' (← textOf "--program" e).toList
  if String.ofList name = node then some (String.ofList path) else none

/-! ### Flags -/

/-- A flag with its value; the name of an options file changes no flag. -/
def giveFlag (f : Flags) (i : String × String) : Except Report Flags := (flag? f i.1 i.2).getD (.ok f)

/-- What has become of flags by what has been said. -/
structure Flags.Told (said : List (String × String)) (f f' : Flags) : Prop where
  config : f'.config = (last (textOf "--config") said).getD f.config
  logLevel : f'.logLevel = (last (textOf "--log-level") said).getD f.logLevel
  logFile : f'.logFile = (last (textOf "--log-file") said).getD f.logFile
  out : f'.out = (last (textOf "--out") said).getD f.out
  times : f'.times = (last (numberOf "--times") said).getD f.times
  seed : f'.seed = (last (numberOf "--seed") said).or f.seed
  script node : f'.programs.get? node = (last (scriptOf node) said).or (f.programs.get? node)

namespace Flags.Told

variable {said more : List (String × String)} {f g f' : Flags}

theorem nil (f : Flags) : Told [] f f := ⟨rfl, rfl, rfl, rfl, rfl, rfl, fun _ => rfl⟩

theorem append (h : Told said f g) (h' : Told more g f') : Told (said ++ more) f f' where
  config := by rw [h'.config, h.config, last_append, Option.getD_or]
  logLevel := by rw [h'.logLevel, h.logLevel, last_append, Option.getD_or]
  logFile := by rw [h'.logFile, h.logFile, last_append, Option.getD_or]
  out := by rw [h'.out, h.out, last_append, Option.getD_or]
  times := by rw [h'.times, h.times, last_append, Option.getD_or]
  seed := by rw [h'.seed, h.seed, last_append, Option.or_assoc]
  script node := by rw [h'.script, h.script, last_append, Option.or_assoc]

theorem of_addProgram {v : String} (h : addProgram f v = .ok f') : Told [("--program", v)] f f' := by
  cases hcut : cutAt '=' v.toList with
  | none =>
    simp only [addProgram, hcut] at h
    cases h
  | some entry =>
    simp only [addProgram, hcut] at h
    cases h
    refine ⟨rfl, rfl, rfl, rfl, rfl, rfl, fun node => ?_⟩
    by_cases hn : node = String.ofList entry.1
    · simp [last, scriptOf, textOf, hcut, hn]
    · rw [SortedMap.get?_insert_of_ne _ hn]
      simp [last, scriptOf, textOf, hcut, Ne.symm hn]

theorem of_giveFlag {i : String × String} (h : giveFlag f i = .ok f') : Told [i] f f' := by
  obtain ⟨name, v⟩ := i
  simp only [giveFlag, flag?] at h
  split at h
  case h_2 => exact of_addProgram h
  case h_3 | h_4 =>
    obtain ⟨k, hk, h⟩ := bind_ok (h : (number v >>= fun _ => _) = .ok f')
    cases h
    constructor <;> simp [last, textOf, numberOf, scriptOf, readNumber, toOption_eq_some.2 hk]
  case h_8 =>
    cases h
    constructor <;> simp_all [last, textOf, numberOf, scriptOf]
  all_goals
    cases h
    constructor <;> simp [last, textOf, numberOf, scriptOf]

end Flags.Told

theorem Flags.told_of_foldlM {said : List (String × String)} {f f' : Flags} (h : said.foldlM giveFlag f = .ok f') :
    Told said f f' := by
  induction said generalizing f with
  | nil =>
    cases h
    exact .nil _
  | cons i said ih =>
    rw [List.foldlM_cons] at h
    obtain ⟨g, hg, h⟩ := bind_ok h
    exact (Told.of_giveFlag hg).append (ih h)

/-! ### Options -/

theorem programOption?_eq_some {key node : String} : programOption? key = some node ↔ key = "program." ++ node := by
  unfold programOption?
  split
  · next h =>
    obtain ⟨r, hr⟩ := List.isPrefixOf_iff_prefix.1 h
    obtain rfl : key = "program." ++ String.ofList r :=
      String.toList_inj.1 (by rw [← hr, String.toList_append, String.toList_ofList (l := r)])
    have hdrop : ("program.".toList ++ r).drop 8 = r := rfl
    rw [← hr, hdrop, Option.some_inj, String.append_right_inj]
  · next h =>
    refine iff_of_false nofun fun hkey => h (List.isPrefixOf_iff_prefix.2 ⟨node.toList, ?_⟩)
    rw [hkey, String.toList_append]

theorem ne_program {key : String} (h : programOption? key = .none) (node : String) : key ≠ "program." ++ node :=
  fun hkey => nomatch h.symm.trans (programOption?_eq_some.2 hkey)

/-- A text, unless it is the one that stands for none. -/
def nonblank (v : String) : Option String := if v = "" then .none else some v

/-- A number of runs, unless it is the one that stands for none. -/
def several (n : Nat) : Option Nat := if n = 1 then .none else some n

theorem getD_nonblank (v : String) : (nonblank v).getD "" = v := by
  unfold nonblank
  split
  · next h => exact h.symm
  · rfl

theorem getD_several (n : Nat) : (several n).getD 1 = n := by
  unfold several
  split
  · next h => exact h.symm
  · rfl

theorem nonblank_getD (v? : Option String) : nonblank (v?.getD "") = v?.bind nonblank := by
  cases v? with
  | _ => rfl

theorem several_getD (n? : Option Nat) : several (n?.getD 1) = n?.bind several := by
  cases n? with
  | _ => rfl

/-- What has become of flags by options. -/
structure Flags.Filled (options : List (String × String)) (f f' : Flags) : Prop where
  config : nonblank f'.config = (nonblank f.config).or (options.findSome? fun e => (textOf "config" e).bind nonblank)
  logLevel : nonblank f'.logLevel =
    (nonblank f.logLevel).or (options.findSome? fun e => (textOf "log_level" e).bind nonblank)
  out : nonblank f'.out = (nonblank f.out).or (options.findSome? fun e => (textOf "out" e).bind nonblank)
  logFile : f'.logFile = f.logFile
  times : several f'.times = (several f.times).or
    (options.findSome? fun e => (textOf "times" e).bind fun v => (readNumber v).bind several)
  seed : f'.seed = f.seed.or (options.findSome? fun e => (textOf "seed" e).bind readNumber)
  script node : f'.programs.get? node = (f.programs.get? node).or (options.findSome? (textOf ("program." ++ node)))

namespace Flags.Filled

variable {options more : List (String × String)} {f g f' : Flags}

theorem nil (f : Flags) : Filled [] f f := by
  constructor <;> simp

theorem append (h : Filled options f g) (h' : Filled more g f') : Filled (options ++ more) f f' where
  config := by rw [h'.config, h.config, List.findSome?_append, Option.or_assoc]
  logLevel := by rw [h'.logLevel, h.logLevel, List.findSome?_append, Option.or_assoc]
  out := by rw [h'.out, h.out, List.findSome?_append, Option.or_assoc]
  logFile := h'.logFile.trans h.logFile
  times := by rw [h'.times, h.times, List.findSome?_append, Option.or_assoc]
  seed := by rw [h'.seed, h.seed, List.findSome?_append, Option.or_assoc]
  script node := by rw [h'.script, h.script, List.findSome?_append, Option.or_assoc]

/-- A script goes to a node that has none yet. -/
theorem get?_addProgramOption (f : Flags) (key v node : String) : (addProgramOption f key v).programs.get? node =
    (f.programs.get? node).or (textOf ("program." ++ node) (key, v)) := by
  unfold addProgramOption
  split
  · next node' hkey =>
    obtain rfl := programOption?_eq_some.1 hkey
    by_cases hn : node = node'
    · subst hn
      cases hget : f.programs.get? node with
      | none => simp [SortedMap.contains, hget, textOf]
      | some path => simp [SortedMap.contains, hget]
    · have hother : textOf ("program." ++ node) ("program." ++ node', v) = .none :=
        if_neg fun h => hn ((String.append_right_inj _).1 h).symm
      rw [hother, Option.or_none]
      split
      · rfl
      · exact SortedMap.get?_insert_of_ne _ hn v
  · next hkey =>
    have hother : textOf ("program." ++ node) (key, v) = .none := if_neg (ne_program hkey node)
    rw [hother, Option.or_none]

theorem addProgramOption_eq (f : Flags) (key v : String) :
    addProgramOption f key v = { f with programs := (addProgramOption f key v).programs } := by
  unfold addProgramOption
  split
  · split
    · rfl
    · rfl
  · rfl

theorem of_addOption {key v : String} (h : addOption f key v = .ok f') : Filled [(key, v)] f f' := by
  have hconfig : programOption? "config" = .none := rfl
  have htimes : programOption? "times" = .none := rfl
  have hseed : programOption? "seed" = .none := rfl
  have hlevel : programOption? "log_level" = .none := rfl
  have hout : programOption? "out" = .none := rfl
  unfold addOption at h
  split at h
  case h_1 | h_4 | h_5 =>
    cases h
    split
    · constructor <;> simp_all [textOf, nonblank, ne_program]
    · constructor <;> simp_all [textOf, nonblank, ne_program]
  case h_2 =>
    split at h
    · next hone =>
      obtain ⟨k, hk, h⟩ := bind_ok (h : (number v >>= fun _ => _) = .ok f')
      cases h
      constructor <;>
        simp [textOf, several, readNumber, ne_program htimes, hone, toOption_eq_some.2 hk]
    · cases h
      constructor <;> simp_all [textOf, several, ne_program]
  case h_3 =>
    split at h
    · next hnone =>
      obtain ⟨k, hk, h⟩ := bind_ok (h : (number v >>= fun _ => _) = .ok f')
      cases h
      constructor <;>
        simp [textOf, readNumber, ne_program hseed, Option.isNone_iff_eq_none.1 hnone, toOption_eq_some.2 hk]
    · next hsome =>
      cases h
      obtain ⟨k, hk⟩ := Option.ne_none_iff_exists'.1 (mt Option.isNone_iff_eq_none.2 hsome)
      constructor <;> simp [textOf, ne_program hseed, hk]
  case h_6 =>
    cases h
    rw [addProgramOption_eq]
    constructor <;> simp_all [textOf, get?_addProgramOption]

end Flags.Filled

theorem Flags.filled_of_foldlM {options : List (String × String)} {f f' : Flags}
    (h : options.foldlM (fun f (k, v) => addOption f k v) f = .ok f') : Filled options f f' := by
  induction options generalizing f with
  | nil =>
    cases h
    exact .nil _
  | cons e options ih =>
    rw [List.foldlM_cons] at h
    obtain ⟨g, hg, h⟩ := bind_ok h
    exact (Filled.of_addOption hg).append (ih h)

/-- The options of some entries, of which the last counts for each key. -/
theorem get?_ofList (l : List (String × String)) (key : String) :
    (SortedMap.ofList l).get? key = last (textOf key) l := by
  induction l using List.reverseRecOn with
  | nil => rfl
  | append_singleton l e ih =>
    rw [last_append, ← ih, SortedMap.ofList, List.foldl_append, List.foldl_cons, List.foldl_nil,
      ← SortedMap.ofList]
    by_cases hk : key = e.1
    · simp [last, textOf, hk]
    · rw [SortedMap.get?_insert_of_ne _ hk]
      simp [last, textOf, Ne.symm hk]

/-- Entries of a map have different keys, so that one of them at most has a given key. -/
theorem findSome?_ofList {β : Type} (l : List (String × String)) (key : String) (value? : String → Option β) :
    (SortedMap.ofList l).entries.findSome? (fun e => (textOf key e).bind value?) =
      (last (textOf key) l).bind value? := by
  have hsorted := SortedMap.pairwise_foldl_insert (l := l) (m := .empty) .nil
  rw [← get?_ofList, SortedMap.get?]
  rw [← SortedMap.ofList] at hsorted
  generalize (SortedMap.ofList l).entries = entries at hsorted
  induction entries with
  | nil => rfl
  | cons e entries ih =>
    obtain ⟨he, hsorted⟩ := List.pairwise_cons.1 hsorted
    rw [List.findSome?_cons, ih hsorted, SortedMap.find, textOf]
    by_cases hk : key = e.1
    · have hnone : SortedMap.find key entries = .none := by
        refine Option.eq_none_iff_forall_not_mem.2 fun v hv => ?_
        have hmem : (key, v) ∈ entries := SortedMap.mem_entries_of_get? (m := ⟨entries⟩) hv
        exact Std.lt_irrefl (hk ▸ he _ hmem)
      rw [if_pos hk.symm, if_pos hk, hnone]
      cases hv : value? e.2 with
      | none => simp [hv]
      | some b => simp [hv]
    · rw [if_neg (Ne.symm hk), if_neg hk]
      rfl

/-! ### Arguments -/

/-- Flags as they are written, each before its value. -/
def arguments (items : List (String × String)) : List String := items.flatMap fun i => [i.1, i.2]

section Reading

variable {μ : Type → Type} [Monad μ] [LawfulMonad μ]

def readOptions (files : FileAccess μ) (path : String) : ExceptT Report μ String := do
  match ← files.read path with
  | some text => return text
  | .none => throw (.complaint 2 s!"cannot open {path}")

/-- The texts of the options files that are named among the flags. -/
def readAllOptions (files : FileAccess μ) (items : List (String × String)) : ExceptT Report μ (List String) :=
  (items.filterMap (textOf "--options")).mapM (readOptions files)

/-- Entries are put in after those that are there. -/
def Settings.add (s : Settings) (entries : List (String × String)) : Settings :=
  { s with options := entries.foldl (fun o e => o.insert e.1 e.2) s.options }

theorem addOptions_eq (files : FileAccess μ) (s : Settings) (path : String) :
    addOptions files s path = (fun text => s.add (optionsOf text)) <$> readOptions files path := by
  rw [addOptions, readOptions, map_bind]
  congr 1
  funext text
  cases text with
  | none =>
    refine ExceptT.ext ?_
    simp
  | some text =>
    rw [map_pure]
    rfl

omit [LawfulMonad μ] in
theorem readFlags_cons (files : FileAccess μ) {name : String} (h : takesValue name = true) (v : String)
    (rest : List String) (s : Settings) :
    readFlags files (name :: v :: rest) s = setFlag files s name v >>= readFlags files rest := by
  rw [readFlags, if_pos h]

/-- Whether a name is that of a flag does not depend on what has been given. -/
theorem isSome_flag? (f g : Flags) (name v w : String) : (flag? f name v).isSome = (flag? g name w).isSome := by
  unfold flag?
  split
  all_goals rfl

theorem eq_options_of_flag?_eq_none {f : Flags} {name v : String} (h : flag? f name v = .none)
    (ht : takesValue name = true) : name = "--options" := by
  have hnone : (flag? .none name "").isSome = false := by rw [isSome_flag? _ f _ _ v, h, Option.isSome_none]
  simpa [takesValue, hnone] using ht

theorem readFlags_arguments (files : FileAccess μ) {items : List (String × String)}
    (hitems : ∀ i ∈ items, takesValue i.1 = true) {s : Settings} {given : Flags}
    (hgiven : items.foldlM giveFlag s.flags = .ok given) :
    readFlags files (arguments items) s =
      (fun texts => { s with flags := given }.add (texts.flatMap optionsOf)) <$> readAllOptions files items := by
  induction items generalizing s with
  | nil =>
    cases hgiven
    rw [readAllOptions, List.filterMap_nil, List.mapM_nil, map_pure]
    rfl
  | cons i items ih =>
    obtain ⟨name, v⟩ := i
    obtain ⟨hname, hrest⟩ : takesValue name = true ∧ ∀ i ∈ items, takesValue i.1 = true :=
      List.forall_mem_cons.1 hitems
    rw [List.foldlM_cons] at hgiven
    obtain ⟨g, hg, hgiven⟩ := bind_ok hgiven
    rw [arguments, List.flatMap_cons, ← arguments]
    change readFlags files (name :: v :: arguments items) s = _
    rw [readFlags_cons files hname]
    cases hflag : flag? s.flags name v with
    | some r =>
      obtain rfl : r = .ok g := by simpa [giveFlag, hflag] using hg
      have hset : setFlag files s name v = pure { s with flags := g } := by simp [setFlag, hflag]; rfl
      have hne : textOf "--options" (name, v) = .none := if_neg fun h : name = "--options" => by
        rw [h] at hflag
        exact nomatch hflag
      rw [hset, pure_bind, ih hrest hgiven, readAllOptions, readAllOptions, List.filterMap_cons_none hne]
    | none =>
      obtain rfl := eq_options_of_flag?_eq_none hflag hname
      obtain rfl : s.flags = g := by simpa [giveFlag, hflag] using hg
      have hset : setFlag files s "--options" v = addOptions files s v := rfl
      have hpath : textOf "--options" ("--options", v) = some v := if_pos rfl
      rw [hset, addOptions_eq, bind_map_left, readAllOptions, List.filterMap_cons_some hpath, List.mapM_cons, map_bind]
      congr 1
      funext text
      rw [ih hrest (s := s.add (optionsOf text)) hgiven, readAllOptions, map_bind]
      simp [Settings.add, List.foldl_append]

end Reading

/-! ### Which of them counts -/

/-- A number is to be read from an option, and cannot be. -/
def Unreadable (options : List (String × String)) : Prop :=
  ∃ e ∈ options, (e.1 = "times" ∨ e.1 = "seed") ∧ readNumber e.2 = .none

theorem number_refuses {options : List (String × String)} {key v : String} (hmem : (key, v) ∈ options)
    (hkey : key = "times" ∨ key = "seed") (set : Nat → Flags) :
    Refuses (fun _ => Unreadable options) ((number v).map set) := by
  intro r hr
  refine ⟨_, hmem, hkey, ?_⟩
  cases hv : number v with
  | error _ =>
    rw [readNumber, hv]
    rfl
  | ok _ =>
    rw [hv] at hr
    exact nomatch hr

theorem resolve_refuses (s : Settings) : Refuses (fun _ => Unreadable s.options.entries) s.resolve := by
  refine .foldlM (fun f ⟨key, v⟩ hmem => ?_) s.flags
  simp only [addOption]
  split
  case h_2 =>
    split
    · exact number_refuses hmem (.inl rfl) _
    · exact .ok f
  case h_3 =>
    split
    · exact number_refuses hmem (.inr rfl) _
    · exact .ok f
  all_goals exact .ok _

/-- Options of which the numbers can be read are accepted. -/
theorem exists_resolve (given : Flags) {options : List (String × String)} (h : ¬ Unreadable options) :
    ∃ f, Settings.resolve ⟨given, .ofList options⟩ = .ok f := by
  cases hs : Settings.resolve ⟨given, .ofList options⟩ with
  | ok f => exact ⟨f, rfl⟩
  | error r =>
    obtain ⟨e, he, hunread⟩ := resolve_refuses _ r hs
    exact absurd ⟨e, SortedMap.mem_of_mem_ofList he, hunread⟩ h

/-- What a run goes by that has been given flags and options. -/
structure Flags.GoesBy (said options : List (String × String)) (f : Flags) : Prop where
  config : f.config =
    (((last (textOf "--config") said).bind nonblank).or ((last (textOf "config") options).bind nonblank)).getD ""
  logLevel : f.logLevel =
    (((last (textOf "--log-level") said).bind nonblank).or ((last (textOf "log_level") options).bind nonblank)).getD ""
  out : f.out = (((last (textOf "--out") said).bind nonblank).or ((last (textOf "out") options).bind nonblank)).getD ""
  logFile : f.logFile = (last (textOf "--log-file") said).getD ""
  times : f.times = (((last (numberOf "--times") said).bind several).or
    ((last (textOf "times") options).bind fun v => (readNumber v).bind several)).getD 1
  seed : f.seed = (last (numberOf "--seed") said).or ((last (textOf "seed") options).bind readNumber)
  script node : f.programs.get? node = (last (scriptOf node) said).or (last (textOf ("program." ++ node)) options)

theorem goesBy_of_resolve {said options : List (String × String)} {given f : Flags}
    (hgiven : said.foldlM giveFlag .none = .ok given) (h : Settings.resolve ⟨given, .ofList options⟩ = .ok f) :
    f.GoesBy said options := by
  have htold := Flags.told_of_foldlM hgiven
  have hfilled := Flags.filled_of_foldlM h
  exact {
    config := by
      rw [← getD_nonblank f.config, hfilled.config, htold.config, findSome?_ofList]
      exact congrArg (fun c => (Option.or c _).getD "") (nonblank_getD _)
    logLevel := by
      rw [← getD_nonblank f.logLevel, hfilled.logLevel, htold.logLevel, findSome?_ofList]
      exact congrArg (fun c => (Option.or c _).getD "") (nonblank_getD _)
    out := by
      rw [← getD_nonblank f.out, hfilled.out, htold.out, findSome?_ofList]
      exact congrArg (fun c => (Option.or c _).getD "") (nonblank_getD _)
    logFile := hfilled.logFile.trans htold.logFile
    times := by
      rw [← getD_several f.times, hfilled.times, htold.times, findSome?_ofList]
      exact congrArg (fun c => (Option.or c _).getD 1) (several_getD _)
    seed := by
      rw [hfilled.seed, htold.seed, findSome?_ofList]
      exact congrArg (Option.or · _) Option.or_none
    script node := by
      have hoption := findSome?_ofList options ("program." ++ node) some
      simp only [Option.bind_fun_some] at hoption
      rw [hfilled.script, htold.script, hoption]
      exact congrArg (Option.or · _) Option.or_none }

/-- A run goes by the last value of each flag, and by the options of all files together where a flag has not been given:
of one key the last. A flag that has been given an empty text, or a single run, is taken for one that has not, so that
an option may still stand in for it. -/
theorem flags_win_unless_they_read_as_absent {μ : Type → Type} [Monad μ] [LawfulMonad μ] (files : FileAccess μ)
    {said : List (String × String)} (hsaid : ∀ i ∈ said, takesValue i.1 = true) {given : Flags}
    (hgiven : said.foldlM giveFlag .none = .ok given) :
    readFlags files (arguments said) .none =
      (fun texts => ⟨given, .ofList (texts.flatMap optionsOf)⟩) <$> readAllOptions files said ∧
    ∀ options : List (String × String),
      (¬ Unreadable options → ∃ f, Settings.resolve ⟨given, .ofList options⟩ = .ok f) ∧
      ∀ f, Settings.resolve ⟨given, .ofList options⟩ = .ok f → f.GoesBy said options :=
  ⟨readFlags_arguments files hsaid hgiven, fun _ => ⟨exists_resolve given, fun _ => goesBy_of_resolve hgiven⟩⟩

example : ∃ given f, [("--times", "1")].foldlM giveFlag .none = .ok given ∧
    Settings.resolve ⟨given, .ofList [("times", "3")]⟩ = .ok f ∧ f.times = 3 := ⟨_, _, rfl, rfl, rfl⟩

theorem foldlM_giveFlag_filter (said : List (String × String)) (f : Flags) :
    (said.filter (·.1 ≠ "--options")).foldlM giveFlag f = said.foldlM giveFlag f := by
  induction said generalizing f with
  | nil => rfl
  | cons i said ih =>
    by_cases hi : i.1 = "--options"
    · have hsame : giveFlag f i = .ok f := by
        rw [giveFlag, hi]
        rfl
      rw [List.filter_cons_of_neg (by simpa using hi), List.foldlM_cons, hsame, ih]
      rfl
    · rw [List.filter_cons_of_pos (by simpa using hi), List.foldlM_cons, List.foldlM_cons]
      exact bind_congr ih

/-- It does not matter where among the flags the options files are named, as long as they are in the same order. -/
theorem place_of_options_does_not_matter {μ : Type → Type} [Monad μ] [LawfulMonad μ] (files : FileAccess μ)
    {said said' : List (String × String)} (hsaid : ∀ i ∈ said, takesValue i.1 = true) {given : Flags}
    (hgiven : said.foldlM giveFlag .none = .ok given)
    (hflags : said'.filter (·.1 ≠ "--options") = said.filter (·.1 ≠ "--options"))
    (hfiles : said'.filterMap (textOf "--options") = said.filterMap (textOf "--options")) (fuel : Nat) :
    runPrograms files (arguments said') fuel = runPrograms files (arguments said) fuel := by
  have hsaid' : ∀ i ∈ said', takesValue i.1 = true := fun i hi => by
    by_cases hname : i.1 = "--options"
    · rw [hname]
      rfl
    · have hmem : i ∈ said'.filter (·.1 ≠ "--options") := List.mem_filter.2 ⟨hi, by simpa using hname⟩
      rw [hflags] at hmem
      exact hsaid i (List.mem_filter.1 hmem).1
  have hgiven' : said'.foldlM giveFlag .none = .ok given := by
    rw [← foldlM_giveFlag_filter, hflags, foldlM_giveFlag_filter, hgiven]
  rw [runPrograms, runPrograms, readFlags_arguments files hsaid hgiven, readFlags_arguments files hsaid' hgiven',
    readAllOptions, hfiles, ← readAllOptions]

end QuantumNode.CommandLine
