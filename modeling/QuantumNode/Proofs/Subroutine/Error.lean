import QuantumNode.Proofs.Data.Except
import QuantumNode.Proofs.Subroutine.Line

/-! Which error a text is rejected with. Headers and labels are looked at in all lines before the first instruction is
read, so that the error is the first one of its pass, and not always the first one of the text. Main statement: a text
is rejected for what is wrong with its first lines, unless a header or a label below them is at fault. -/
namespace QuantumNode

open Text

/-- Errors in headers and labels. -/
def SubroutineError.isEarly : SubroutineError → Bool
  | invalidAppId _ | invalidLabel _ _ | duplicateLabel _ _ => true
  | unknownInstruction _ _ | operandCount _ _ | invalidOperand _ _ _ | unknownTarget _ _ | signature _ => false

namespace Subroutine

/-! ### Errors name their line -/

theorem addLine_refuses (l : Layout) (n : Nat) (raw : List Char) :
    Refuses (fun e => e.isEarly = true ∧ e.line = n) (l.addLine n raw) := by
  unfold Layout.addLine
  split
  · unfold Layout.header
    dsimp only
    split
    · split
      · exact .ok _
      · exact .error ⟨rfl, rfl⟩
    · split
      · exact .ok _
      · exact .ok _
  · dsimp only
    split
    · unfold Layout.addLabel
      split
      · exact .error ⟨rfl, rfl⟩
      · split
        · exact .error ⟨rfl, rfl⟩
        · exact .ok _
    · split
      · exact .ok _
      · exact .ok _

theorem operand_refuses (l : Layout) (op : Opcode) (n : Nat) (kind : OperandKind) (w : List Char) :
    Refuses (fun e => e.isEarly = false ∧ e.line = n) (operand l op n kind w) := by
  unfold operand
  split
  · exact .ok _
  · split
    · exact .error ⟨rfl, rfl⟩
    · exact .error ⟨rfl, rfl⟩

theorem instruction_refuses (l : Layout) (c : CodeLine) :
    Refuses (fun e => e.isEarly = false ∧ e.line = c.number) (instruction l c) := by
  unfold instruction
  split
  · exact .error ⟨rfl, rfl⟩
  · split
    · exact .error ⟨rfl, rfl⟩
    · refine Refuses.bind (.mapM fun _ _ => operand_refuses l _ _ _ _) fun os => ?_
      split
      · exact .ok _
      · exact .error ⟨rfl, rfl⟩

namespace Layout

/-! ### Lines below others -/

/-- Labels keep their places, and lines of code are added to those that there are. -/
structure Extends (l l' : Layout) : Prop where
  label? : ∀ name k, l.label? name = some k → l'.label? name = some k
  code : l.code <:+ l'.code

namespace Extends

theorem refl (l : Layout) : Extends l l := ⟨fun _ _ h => h, List.suffix_rfl⟩

theorem trans {l l' l'' : Layout} (h : Extends l l') (h' : Extends l' l'') : Extends l l'' :=
  ⟨fun name k hk => h'.label? name k (h.label? name k hk), h.code.trans h'.code⟩

end Extends

variable {l l' : Layout}

theorem extends_of_addLine {n : Nat} {raw : List Char} (h : l.addLine n raw = .ok l') : Extends l l' := by
  obtain ⟨⟨-, hnew⟩, rfl⟩ := addLine_eq_ok.1 h
  refine ⟨fun name k hk => ?_, List.suffix_append _ _⟩
  cases hlabel : (SourceLine.read raw).label? with
  | none => simpa [add, Layout.label?, hlabel] using hk
  | some new =>
    have hne : name ≠ new := by
      rintro rfl
      exact absurd hk (by simp [hnew name hlabel])
    have hbeq : (name == new) = false := by simpa using hne
    simpa [add, Layout.label?, hlabel, List.lookup_cons, hbeq] using hk

theorem extends_of_foldlM {ps : List (Nat × List Char)} (h : ps.foldlM (fun l p => l.addLine p.1 p.2) l = .ok l') :
    Extends l l' :=
  foldlM_ok (P := Extends l) (fun _ _ _ hs hadd => hs.trans (extends_of_addLine hadd)) (.refl l) h

/-- Lines of code have the numbers of lines that have been read. -/
theorem number_mem {ps : List (Nat × List Char)} (h : ps.foldlM (fun l p => l.addLine p.1 p.2) start = .ok l)
    {c : CodeLine} (hc : c ∈ l.code) : c.number ∈ ps.map Prod.fst := by
  induction ps using List.reverseRecOn generalizing l with
  | nil =>
    cases h
    exact absurd hc List.not_mem_nil
  | append_singleton ps p ih =>
    simp only [List.foldlM_append, List.foldlM_cons, List.foldlM_nil, bind_pure] at h
    obtain ⟨l₁, h₁, h⟩ := bind_ok h
    obtain ⟨-, rfl⟩ := addLine_eq_ok.1 h
    rw [List.map_append, List.mem_append]
    obtain hc | hc := List.mem_append.1 hc
    · obtain ⟨w, -, rfl⟩ := List.mem_map.1 hc
      exact .inr (List.mem_singleton_self _)
    · exact .inl (ih h₁ hc)

end Layout

section MoreLabels

variable {l l' : Layout} (hl : l.Extends l')
include hl

/-- More labels are of no use to an operand that needs none of them. -/
theorem operand_of_extends {op : Opcode} {n : Nat} {kind : OperandKind} {w : List Char}
    (h : Refuses (fun e => ∀ target line, e ≠ .unknownTarget target line) (operand l op n kind w)) :
    operand l' op n kind w = operand l op n kind w := by
  cases kind with
  | target =>
    cases hw : int64? w with
    | some v => simp only [operand, operand?, target?, hw]
    | none =>
      cases hk : l.label? w with
      | some k => simp only [operand, operand?, target?, hw, hk, hl.label? w k hk]
      | none =>
        have herror : operand l op n .target w = .error (.unknownTarget (String.ofList w) n) := by
          simp only [operand, operand?, target?, hw, hk, Option.map_none, if_true]
        exact absurd rfl (h _ herror _ _)
  | register | immediate | value | entry | slice | address => rfl

theorem instruction_of_extends {c : CodeLine}
    (h : Refuses (fun e => ∀ target line, e ≠ .unknownTarget target line) (instruction l c)) :
    instruction l' c = instruction l c := by
  unfold instruction at h ⊢
  cases hop : Opcode.ofName? c.mnemonic with
  | none => rfl
  | some op =>
    simp only [hop] at h ⊢
    split at h
    · next hlength => rw [if_pos hlength, if_pos hlength]
    · next hlength =>
      rw [if_neg hlength, if_neg hlength, Refuses.mapM_congr (fun _ _ ha => operand_of_extends hl ha) h.left]

end MoreLabels

/-! ### Errors of texts -/

/-- The second pass. -/
def Layout.subroutine (l : Layout) : Except SubroutineError Subroutine := do
  return ⟨l.appId, l.version, ← l.code.reverse.mapM (instruction l)⟩

theorem parse_eq (text : String) : parse text = Layout.ofText text.toList >>= Layout.subroutine := rfl

theorem subroutine_eq_error {l : Layout} {e : SubroutineError} :
    l.subroutine = .error e ↔ l.code.reverse.mapM (instruction l) = .error e := by
  rw [Layout.subroutine]
  cases l.code.reverse.mapM (instruction l) with
  | error e' => exact ⟨fun h => congrArg _ (Except.error.inj h), fun h => congrArg _ (Except.error.inj h)⟩
  | ok is => exact ⟨nofun, nofun⟩

theorem subroutine_refuses (l : Layout) :
    Refuses (fun e => e.isEarly = false ∧ ∃ c ∈ l.code, e.line = c.number) l.subroutine := by
  refine .bind (.mapM fun c hc => ?_) fun is => .ok _
  exact (instruction_refuses l c).mono fun e he => ⟨he.1, c, List.mem_reverse.1 hc, he.2⟩

/-- Lines of code are at fault whatever is below them. -/
theorem subroutine_error_of_extends {l l' : Layout} (hl : l.Extends l') {e : SubroutineError}
    (h : l.subroutine = .error e) (htarget : ∀ target line, e ≠ .unknownTarget target line) :
    l'.subroutine = .error e := by
  rw [subroutine_eq_error] at h ⊢
  have hsame : l.code.reverse.mapM (instruction l') = l.code.reverse.mapM (instruction l) := by
    apply Refuses.mapM_congr fun c _ hc => instruction_of_extends hl hc
    rw [h]
    exact .error htarget
  obtain ⟨below, hbelow⟩ := hl.code
  rw [← hbelow, List.reverse_append, List.mapM_append, hsame, h]
  rfl

/-- A text that is rejected is so for one of its lines. -/
theorem line_of_parse_error {text : String} {e : SubroutineError} (h : parse text = .error e) :
    1 ≤ e.line ∧ e.line ≤ (lines text.toList).length := by
  have hmem : e.line ∈ (numberedLines text.toList).map Prod.fst := by
    have hlayout : Refuses (fun e => e.line ∈ (numberedLines text.toList).map Prod.fst)
        (Layout.ofText text.toList) := by
      refine Refuses.foldlM (fun l p hp => ?_) _
      exact (addLine_refuses l p.1 p.2).mono fun e he => he.2 ▸ List.mem_map_of_mem hp
    refine hlayout.bind_of (fun l hl => (subroutine_refuses l).mono fun e he => ?_) e h
    obtain ⟨-, c, hc, hline⟩ := he
    rw [hline]
    exact Layout.number_mem hl hc
  have hnumbers : (numberedLines text.toList).map Prod.fst = List.range' 1 (lines text.toList).length := by
    rw [numberedLines, List.map_map, ← List.zipIdx_map_snd 1 (lines text.toList)]
    rfl
  rw [hnumbers, List.mem_range'_1] at hmem
  omega

/-- Lines below others have greater numbers. -/
theorem numberedLines_of_prefix {p t : List Char} (h : lines p <+: lines t) :
    ∃ below, numberedLines t = numberedLines p ++ below ∧ ∀ q ∈ below, (lines p).length < q.1 := by
  obtain ⟨rest, hrest⟩ := h
  refine ⟨(rest.zipIdx ((lines p).length + 1)).map fun q => (q.2, q.1), ?_, fun q hq => ?_⟩
  · rw [numberedLines, ← hrest, List.zipIdx_append, List.map_append, Nat.add_comm 1, numberedLines]
  · obtain ⟨r, hr, rfl⟩ := List.mem_map.1 hq
    exact List.le_snd_of_mem_zipIdx hr

/-- What is wrong with a text's first lines is what the text is rejected for, if it is no branch to a label that may
stand below. Only headers and labels below may be reported in its place, where it is an instruction that is at fault. -/
theorem parse_error_of_first_lines {first text : String} {e : SubroutineError}
    (hlines : lines first.toList <+: lines text.toList) (h : parse first = .error e)
    (htarget : ∀ target line, e ≠ .unknownTarget target line) :
    parse text = .error e ∨
      e.isEarly = false ∧ ∃ e', parse text = .error e' ∧ e'.isEarly = true ∧ e.line < e'.line := by
  have hline := (line_of_parse_error h).2
  obtain ⟨below, hnumbered, hbelow⟩ := numberedLines_of_prefix hlines
  have hparse : parse text =
      Layout.ofText first.toList >>= below.foldlM (fun l p => l.addLine p.1 p.2) >>= Layout.subroutine := by
    rw [parse_eq, Layout.ofText, hnumbered, List.foldlM_append]
    rfl
  rw [parse_eq] at h
  cases hfirst : Layout.ofText first.toList with
  | error e₁ =>
    rw [hfirst] at h hparse
    exact .inl (hparse.trans h)
  | ok l =>
    rw [hfirst] at h hparse
    have hcode : l.subroutine = .error e := h
    have hrest : parse text = below.foldlM (fun l p => l.addLine p.1 p.2) l >>= Layout.subroutine := hparse
    cases hread : below.foldlM (fun l p => l.addLine p.1 p.2) l with
    | error e' =>
      have hrefuses : Refuses (fun e => e.isEarly = true ∧ (lines first.toList).length < e.line)
          (below.foldlM (fun l p => l.addLine p.1 p.2) l) := by
        refine Refuses.foldlM (fun l p hp => (addLine_refuses l p.1 p.2).mono fun e he => ⟨he.1, ?_⟩) l
        rw [he.2]
        exact hbelow p hp
      obtain ⟨hearly, hlater⟩ := hrefuses e' hread
      rw [hread] at hrest
      exact .inr ⟨(subroutine_refuses l e hcode).1, e', hrest, hearly, Nat.lt_of_le_of_lt hline hlater⟩
    | ok l' =>
      rw [hread] at hrest
      exact .inl (hrest.trans (subroutine_error_of_extends (Layout.extends_of_foldlM hread) hcode htarget))

/-- A label that is defined again hides that an instruction above it is unknown. -/
example : parse "set R0 1\nfrobnicate R0\n" = .error (.unknownInstruction "frobnicate" 2) ∧
    parse "set R0 1\nfrobnicate R0\nloop:\nloop:\n" = .error (.duplicateLabel "loop" 4) := by decide +kernel

end Subroutine

end QuantumNode
