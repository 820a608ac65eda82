import QuantumNode.Proofs.Data.Except
import QuantumNode.Proofs.Subroutine.Operand
import QuantumNode.Proofs.Text.Words

/-! What a line of a subroutine's text says. It is told by the words before the line's comment, and by the comment's
own words where there are none; the way in which a line is cut and trimmed while it is read comes to the same. -/
namespace QuantumNode

open Text

namespace Text

variable {p : Char → Bool} {d : Char}

theorem dropWhile_append_stop (hd : p d = false) (a c : List Char) :
    (a ++ d :: c).dropWhile p = a.dropWhile p ++ d :: c := by
  rw [List.dropWhile_append]
  split
  · next h => rw [List.isEmpty_iff.1 h, List.dropWhile_cons_of_neg (by simp [hd]), List.nil_append]
  · rfl

/-- The blanks around two parts of a text with something between them are those before the first part and those behind
the second. -/
theorem trim_append_stop (hd : isBlank d = false) (a c : List Char) :
    ∃ b, AllBlank b ∧ ∃ c', c = c' ++ b ∧ trim (a ++ d :: c) = a.dropWhile isBlank ++ d :: c' := by
  refine ⟨(c.reverse.takeWhile isBlank).reverse, ?_, (c.reverse.dropWhile isBlank).reverse, ?_, ?_⟩
  · exact fun e he => List.mem_takeWhile_imp (List.mem_reverse.1 he)
  · rw [← List.reverse_append, List.takeWhile_append_dropWhile, List.reverse_reverse]
  · rw [trim, trimBy, dropWhile_append_stop hd, List.reverse_append, List.reverse_cons, List.append_assoc,
      List.singleton_append, dropWhile_append_stop hd, List.reverse_append, List.reverse_cons, List.reverse_reverse,
      List.append_assoc, List.singleton_append]

theorem words_dropWhile_blank (cs : List Char) : words (cs.dropWhile isBlank) = words cs := by
  have hwords := words_blanks (b := cs.takeWhile isBlank) (fun c hc => List.mem_takeWhile_imp hc) (cs.dropWhile isBlank)
  rw [List.takeWhile_append_dropWhile] at hwords
  exact hwords.symm

/-- The word that is read next is the first of a text's words, or empty. -/
theorem nextWord_fst (cs : List Char) : (nextWord cs).1 = (words cs).headD [] := by
  by_cases h : (nextWord cs).1 = []
  · rw [h, words_eq_nil h, List.headD_nil]
  · rw [words_eq_cons h, List.headD_cons]

theorem words_nextWord_snd (cs : List Char) : words (nextWord cs).2 = (words cs).tail := by
  by_cases h : (nextWord cs).1 = []
  · have hnext := words_nextWord cs
    rw [h, List.nil_append, words_eq_nil h] at hnext
    rw [hnext, words_eq_nil h, List.tail_nil]
  · rw [words_eq_cons h, List.tail_cons]

end Text

/-- What a line of code is written as. -/
structure Wording where
  mnemonic : List Char
  words : List (List Char)
  deriving DecidableEq, Repr

/-- What a line says. -/
inductive SourceLine where
  /-- Nothing: the line is blank, or a comment. -/
  | note
  | appId (value : List Char)
  | version (value : List Char)
  | label (name : List Char)
  /-- A colon stands behind several words. -/
  | broken
  | code (c : Wording)
  deriving DecidableEq, Repr

namespace SourceLine

/-- What the words before a comment say. -/
def ofWords : List (List Char) → SourceLine
  | [] => .note
  | w :: ws =>
    if (ws.getLastD w).getLast? = some ':' then
      if ws = [] then .label w.dropLast else .broken
    else .code ⟨w, ws⟩

/-- What the words of a comment say that has a line for itself. -/
def ofComment (ws : List (List Char)) : SourceLine :=
  if ws.headD [] = "APPID".toList then .appId (ws.tail.headD [])
  else if ws.headD [] = "NETQASM".toList then .version (ws.tail.headD [])
  else .note

def read (raw : List Char) : SourceLine :=
  match cutAt '#' raw with
  | some (front, comment) => if words front = [] then ofComment (words comment) else ofWords (words front)
  | none => ofWords (words raw)

/-- The application that a header names, in 32 bits. -/
def appId? : SourceLine → Option Int
  | appId value => (int64? value).map Word.signed32
  | _ => none

def version? : SourceLine → Option String
  | version value => some (String.ofList value)
  | _ => none

def label? : SourceLine → Option (List Char)
  | label name => some name
  | _ => none

def code? : SourceLine → Option Wording
  | code c => some c
  | _ => none

/-- Lines that are in order by themselves. -/
def isSound : SourceLine → Bool
  | appId value => (int64? value).isSome
  | label name => Subroutine.Layout.isLabelName name
  | broken => false
  | note | version _ | code _ => true

theorem label?_eq_some {line : SourceLine} {name : List Char} : line.label? = some name ↔ line = .label name := by
  cases line <;> simp [label?]

theorem code?_eq_some {line : SourceLine} {c : Wording} : line.code? = some c ↔ line = .code c := by
  cases line <;> simp [code?]

theorem read_of_not_mem {raw : List Char} (h : '#' ∉ raw) : read raw = ofWords (words raw) := by
  simp [read, cutAt, h]

theorem read_append_comment {front : List Char} (h : '#' ∉ front) (comment : List Char) :
    read (front ++ '#' :: comment) =
      if words front = [] then ofComment (words comment) else ofWords (words front) := by
  rw [read, cutAt_append h]

/-- A line has a comment, or none. -/
theorem exists_front (raw : List Char) : '#' ∉ raw ∨ ∃ front comment, '#' ∉ front ∧ raw = front ++ '#' :: comment := by
  by_cases h : '#' ∈ raw
  · obtain ⟨front, comment, rfl, hfront⟩ := List.eq_append_cons_of_mem h
    exact .inr ⟨front, comment, hfront, rfl⟩
  · exact .inl h

end SourceLine

namespace Subroutine

open SourceLine

/-- The names of labels have no blanks in them. -/
theorem solid_of_isLabelName {name : List Char} (h : Layout.isLabelName name = true) :
    ∀ c ∈ name, isBlank c = false := fun c hc => isBlank_of_isWordChar (isWordChar_of_isLabelName h c hc)

/-- A name with a colon behind it is one word. -/
theorem isWord_label {name : List Char} (h : Layout.isLabelName name = true) : IsWord (name ++ [':']) := by
  refine ⟨by simp, fun c hc => ?_⟩
  obtain hc | hc := List.mem_append.1 hc
  · exact solid_of_isLabelName h c hc
  · rw [List.mem_singleton.1 hc]
    decide

theorem words_of_label {line : List Char} (h : line.getLast? = some ':')
    (hname : Layout.isLabelName line.dropLast = true) : words line = [line] := by
  obtain ⟨name, rfl⟩ := List.getLast?_eq_some_iff.1 h
  rw [List.dropLast_concat] at hname
  have hends : EndsWord [] := by simp [EndsWord]
  have hwords := words_append (isWord_label hname) hends
  rwa [List.append_nil] at hwords

/-- Reads a line without a comment and without blanks around it: a label, or words. -/
def addPlain (l : Layout) (n : Nat) (line : List Char) : Except SubroutineError Layout :=
  if line.getLast? = some ':' then l.addLabel n line.dropLast
  else
    match words line with
    | [] => .ok l
    | w :: ws => .ok { l with code := ⟨n, w, ws⟩ :: l.code }

section Cut

variable {l : Layout} {n : Nat} {raw : List Char}

theorem addLine_comment {body : List Char} (hb : trim raw = '#' :: body) : l.addLine n raw = l.header n body := by
  simp only [Layout.addLine, hb]

theorem addLine_plain (hc : (trim raw).head? ≠ some '#') :
    l.addLine n raw = addPlain l n (trim (before '#' (trim raw))) := by
  unfold Layout.addLine
  split
  · next hb => exact absurd (hb ▸ rfl) hc
  · rfl

end Cut

namespace Layout

/-- A layout with what a line says. -/
def add (l : Layout) (number : Nat) (line : SourceLine) : Layout where
  appId := line.appId?.getD l.appId
  version := line.version?.getD l.version
  labels := line.label?.toList.map (·, l.code.length) ++ l.labels
  code := line.code?.toList.map (fun c => ⟨number, c.mnemonic, c.words⟩) ++ l.code

/-- A line can be added if it is in order and defines no label that there is. -/
def take (l : Layout) (number : Nat) (line : SourceLine) : Option Layout :=
  if line.isSound ∧ ∀ name ∈ line.label?, l.label? name = none then some (l.add number line) else none

variable (l : Layout) (n : Nat)

theorem take_of_sound {line : SourceLine} (h : line.isSound = true) (hl : line.label? = none) :
    l.take n line = some (l.add n line) := if_pos ⟨h, by simp [hl]⟩

theorem take_of_not_sound {line : SourceLine} (h : line.isSound = false) : l.take n line = none :=
  if_neg fun hs => absurd hs.1 (by simp [h])

theorem header_toOption (body : List Char) : (l.header n body).toOption = l.take n (ofComment (words body)) := by
  simp only [header, nextWord_fst, words_nextWord_snd, ofComment]
  generalize (words body).tail.headD [] = value
  split
  · cases hid : int64? value with
    | none =>
      rw [take_of_not_sound l n (by simp [isSound, hid])]
      rfl
    | some id =>
      rw [take_of_sound l n (by simp [isSound, hid]) rfl]
      simp [add, SourceLine.appId?, hid, SourceLine.version?, SourceLine.label?, code?, Except.toOption]
  · split
    · rfl
    · rfl

theorem addLabel_toOption (name : List Char) : (l.addLabel n name).toOption = l.take n (.label name) := by
  unfold addLabel
  by_cases hname : isLabelName name = true
  · cases hl : l.label? name <;> simp [take, isSound, SourceLine.label?, hname, hl, Except.toOption]
    rfl
  · rw [take_of_not_sound l n (by simp [isSound, hname])]
    simp [hname, Except.toOption]

/-- A line without a comment, and without blanks around it, adds what its words say. -/
theorem addPlain_toOption {line : List Char} (h : Trimmed line) :
    (addPlain l n line).toOption = l.take n (ofWords (words line)) := by
  have hlast := getLast?_words h.last
  unfold addPlain
  cases hw : words line with
  | nil =>
    rw [h.eq_nil hw]
    rfl
  | cons w ws =>
    rw [hw, List.getLast?_cons, Option.bind_some, ← List.getLastD_eq_getLast?] at hlast
    rw [hlast, ofWords]
    by_cases hcolon : (ws.getLastD w).getLast? = some ':'
    · rw [if_pos hcolon, if_pos hcolon]
      split
      · next hws =>
        subst hws
        rw [h.eq_word hw, addLabel_toOption]
      · next hws =>
        -- Were the text before the colon a name, the line would be one word.
        have hname : ¬ isLabelName line.dropLast = true := by
          intro hname
          rw [hcolon] at hlast
          rw [words_of_label hlast hname, List.cons.injEq] at hw
          exact hws hw.2.symm
        rw [addLabel_toOption, take_of_not_sound l n (by simp [isSound, hname]), take_of_not_sound l n rfl]
    · rw [if_neg hcolon, if_neg hcolon]
      rfl

/-- Reading a line comes to taking what it says. -/
theorem addLine_toOption (raw : List Char) : (l.addLine n raw).toOption = l.take n (read raw) := by
  obtain hno | ⟨front, comment, hfront, rfl⟩ := exists_front raw
  · have hno' : '#' ∉ trim raw := fun hc => hno ((infix_trim raw).subset hc)
    have hplain : (trim raw).head? ≠ some '#' := fun hc => hno' (List.mem_of_head? hc)
    rw [addLine_plain hplain, before_eq_self hno', read_of_not_mem hno, ← words_trim raw, ← words_trim (trim raw)]
    exact addPlain_toOption l n (trimmed_trim _)
  · obtain ⟨b, hb, rest, rfl, htrim⟩ := trim_append_stop (d := '#') (by decide) front comment
    rw [read_append_comment hfront, words_append_blanks rest hb, ← words_dropWhile_blank front]
    cases hd : front.dropWhile isBlank with
    | nil =>
      rw [hd, List.nil_append] at htrim
      rw [addLine_comment htrim, header_toOption, if_pos (by rfl)]
    | cons c r =>
      have hc : isBlank c = false := by simpa [hd] using List.head?_dropWhile_not isBlank front
      have hmem : '#' ∉ c :: r := fun h => hfront ((List.dropWhile_suffix isBlank).subset (hd ▸ h))
      have hplain : (trim (front ++ '#' :: (rest ++ b))).head? ≠ some '#' := by
        rw [htrim, hd]
        rintro ⟨⟩
        exact hmem (List.mem_cons_self ..)
      have hbefore : before '#' (c :: r ++ '#' :: rest) = c :: r := by
        apply takeWhile_run
        · intro d hd
          simpa using ne_of_mem_of_not_mem hd hmem
        · simp
      have hne : words (c :: r) ≠ [] := by
        intro hnil
        exact absurd (words_eq_nil_iff.1 hnil c (List.mem_cons_self ..)) (by simp [hc])
      rw [addLine_plain hplain, htrim, hd, hbefore, if_neg hne, ← words_trim (c :: r)]
      exact addPlain_toOption l n (trimmed_trim _)

theorem addLine_eq_ok {l l' : Layout} {n : Nat} {raw : List Char} : l.addLine n raw = .ok l' ↔
    ((read raw).isSound = true ∧ ∀ name ∈ (read raw).label?, l.label? name = none) ∧ l' = l.add n (read raw) := by
  rw [← toOption_eq_some, addLine_toOption, take, Option.ite_none_right_eq_some, Option.some.injEq, eq_comm (a := l')]

end Layout

end Subroutine

end QuantumNode
