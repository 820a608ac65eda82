import QuantumNode.Proofs.Execution.Safety
import QuantumNode.Proofs.Subroutine.Reading

/-! Labels in a subroutine's text. Main statement: a branch to a label leads to the first instruction below the label's
line, or to the end, and so no execution of a subroutine that branches to labels only ever branches out of it. -/
namespace QuantumNode

open Text

/-- Lines with instructions, and the line of one label. -/
def SourceLine.concerns (name : List Char) : SourceLine → Bool
  | .code _ => true
  | .label n => n = name
  | _ => false

/-- A branch has an operand for its target. -/
theorem Instruction.exists_target {i : Instruction} {target : Int} (h : i.target? = some target) :
    ∃ j : Nat, i.opcode.signature[j]? = some .target ∧ i.operands[j]? = some (.immediate target) := by
  cases i with
  | jump =>
    cases h
    exact ⟨0, rfl, rfl⟩
  | branchZero zero =>
    cases h
    exact ⟨1, by cases zero <;> rfl, rfl⟩
  | branch test =>
    cases h
    exact ⟨2, by cases test <;> rfl, rfl⟩
  | _ => exact nomatch h

namespace Source

variable {ls : Source} {name : List Char}

theorem code_filter_concerns : code (ls.filter (·.concerns name)) = code ls := by
  rw [code, List.filterMap_filter]
  congr 1
  funext l
  cases l <;> simp [SourceLine.concerns, SourceLine.code?]

/-- Where a label leads depends on its own line and on the instructions. -/
theorem place?_filter_concerns : place? (ls.filter (·.concerns name)) name = place? ls name := by
  induction ls with
  | nil => rfl
  | cons l ls ih =>
    by_cases hl : l.concerns name = true
    · rw [List.filter_cons_of_pos hl, place?, place?, ih]
    · have hne : l ≠ .label name := by
        rintro rfl
        simp [SourceLine.concerns] at hl
      have hcode : code [l] = [] := by
        cases l with
        | code => exact absurd rfl hl
        | note | appId | version | label | broken => rfl
      rw [List.filter_cons_of_neg hl, ih, place?, if_neg hne, hcode]
      cases place? ls name <;> rfl

/-- A label that is defined once stands in one line only. -/
theorem not_mem_of_distinct {above below : Source} (h : (names (above ++ .label name :: below)).Nodup) :
    SourceLine.label name ∉ above ∧ SourceLine.label name ∉ below := by
  have hnames : names (above ++ .label name :: below) = names above ++ name :: names below := by
    rw [names, List.filterMap_append]
    rfl
  rw [hnames, List.nodup_middle, List.nodup_cons, List.mem_append, not_or, mem_names, mem_names] at h
  exact h.1

end Source

namespace Wording.Reads

variable {place : List Char → Option Nat} {c : Wording} {i : Instruction} {j : Nat} {w : List Char}

/-- A word in the place of a target that is no number is a label, and the operand is where it leads. -/
theorem operand_of_target (h : c.Reads place i) (hw : c.target? j = some w) (hn : int64? w = none) :
    ∃ k, place w = some k ∧ i.operands[j]? = some (.immediate (Word.signed64 k)) := by
  obtain ⟨op, hop, hkind, hw⟩ := target?_eq_some.1 hw
  obtain rfl : i.opcode = op := Option.some.inj (h.opcode.symm.trans hop)
  have hzip : (i.opcode.signature.zip c.words)[j]? = some (.target, w) := by
    rw [List.getElem?_zip_eq_some]
    exact ⟨hkind, hw⟩
  obtain ⟨o, ho, hread⟩ := exists_of_forall₂ h.operands hzip
  rw [operandAt?, hn, Option.none_or, Option.map_map] at hread
  obtain ⟨k, hk, rfl⟩ := Option.map_eq_some_iff.1 hread
  exact ⟨k, hk, ho⟩

end Wording.Reads

namespace Source.Denotes

variable {ls : Source} {s : Subroutine} {k j : Nat} {c : Wording} {i : Instruction} {w : List Char}

theorem length_code (h : ls.Denotes s) : ls.code.length = s.size := h.instructions.length_eq

/-- A branch to a label leads past the instructions above the label. -/
theorem operand_of_label (h : ls.Denotes s) (hsize : s.size < 2 ^ 63) (hr : c.Reads ls.place? i)
    (hw : c.target? j = some w) (hn : int64? w = none) :
    ∃ above below : Source, ls = above ++ .label w :: below ∧ above.code.length ≤ s.size ∧
      i.operands[j]? = some (.immediate above.code.length) := by
  obtain ⟨k, hk, hoperand⟩ := hr.operand_of_target hw hn
  obtain ⟨above, below, hls, rfl⟩ := exists_of_place? hk
  have hle : above.code.length ≤ s.size := by
    rw [← h.length_code, hls, code_append, List.length_append]
    exact Nat.le_add_right ..
  have hfits : Word.fitsSigned64 above.code.length = true := by
    simp only [Word.fitsSigned64, Bool.and_eq_true, decide_eq_true_eq]
    omega
  rw [Word.signed64_of_fits hfits] at hoperand
  exact ⟨above, below, hls, hle, hoperand⟩

/-- Where all targets are labels no instruction branches out of the subroutine. -/
theorem not_strays (h : ls.Denotes s) (hsize : s.size < 2 ^ 63)
    (hlabels : ∀ c ∈ ls.code, ∀ j w, c.target? j = some w → int64? w = none) (hi : i ∈ s.instructions) (f : Fault) :
    ¬ i.Strays s.size f := by
  rintro ⟨target, htarget, hout, -⟩
  obtain ⟨j, hkind, hoperand⟩ := Instruction.exists_target htarget
  obtain ⟨k, hk⟩ := List.mem_iff_getElem?.1 hi
  obtain ⟨c, hc, hr⟩ := exists_of_forall₂ h.instructions.flip hk
  have hj : j < c.words.length := by
    rw [hr.count]
    exact (List.getElem?_eq_some_iff.1 hkind).1
  have hw : c.target? j = some c.words[j] :=
    Wording.target?_eq_some.2 ⟨_, hr.opcode, hkind, List.getElem?_eq_getElem hj⟩
  have hn := hlabels c (List.mem_of_getElem? hc) j _ hw
  obtain ⟨above, below, -, hle, hlabel⟩ := h.operand_of_label hsize hr hw hn
  rw [hlabel] at hoperand
  cases hoperand
  omega

end Source.Denotes

namespace Subroutine

open Execution Work

/-- In a text that is accepted the `k`-th line with an instruction is read as the `k`-th instruction. A branch target in
it that is no number names one line with a label, wherever that stands, and becomes the number of instructions above
that line: the index of the first instruction below, or the size. Lines other than the instructions and that line have
no part in it. A subroutine all of whose targets are labels has no execution that branches out of it. Places are kept in
64 bits, so subroutines are to be no larger than that. -/
theorem labels_lead_to_the_instruction_below {text : String} {s : Subroutine} (h : parse text = .ok s)
    (hsize : s.size < 2 ^ 63) :
    let ls := Source.ofText text
    ls.code.length = s.size ∧
    (∀ (k : Nat) (c : Wording), ls.code[k]? = some c → ∃ i : Instruction, s.instructions[k]? = some i ∧
      Opcode.ofName? c.mnemonic = some i.opcode ∧
      ∀ j w, c.target? j = some w → int64? w = none → ∃ above below : Source, ls = above ++ .label w :: below ∧
        SourceLine.label w ∉ above ∧ SourceLine.label w ∉ below ∧
        i.operands[j]? = some (.immediate above.code.length) ∧ above.code.length ≤ s.size ∧
        ls.code[above.code.length]? = below.code.head? ∧
        ∀ text' s', parse text' = .ok s' → (Source.ofText text').filter (·.concerns w) = ls.filter (·.concerns w) →
          ∃ i' : Instruction, s'.instructions[k]? = some i' ∧ i'.opcode = i.opcode ∧ i'.operands[j]? = i.operands[j]?) ∧
    ((∀ c ∈ ls.code, ∀ j w, c.target? j = some w → int64? w = none) →
      ∀ (n m : Nat) (p : ProcessId) (e : Execution) (w : Working (Node n m) n m), Runs p s e w →
        ∀ f w', (step p e).exec w = (.error f, w') → ∀ target, f ≠ .branchOutOfRange target) := by
  intro ls
  have hd : ls.Denotes s := parse_eq_ok_iff.1 h
  refine ⟨hd.length_code, fun k c hc => ?_, fun hlabels n m p e w hr f w' hx target hf => ?_⟩
  · obtain ⟨i, hi, hreads⟩ := exists_of_forall₂ hd.instructions hc
    refine ⟨i, hi, hreads.opcode, fun j w hw hn => ?_⟩
    obtain ⟨above, below, hls, hle, hoperand⟩ := hd.operand_of_label hsize hreads hw hn
    obtain ⟨habove, hbelow⟩ := Source.not_mem_of_distinct (hls ▸ hd.distinct)
    refine ⟨above, below, hls, habove, hbelow, hoperand, hle, ?_, fun text' s' h' hsame => ?_⟩
    · rw [hls, Source.code_append, Source.code_label, List.getElem?_append_right (Nat.le_refl _), Nat.sub_self,
        List.head?_eq_getElem?]
    · have hd' := parse_eq_ok_iff.1 h'
      have hcode : (Source.ofText text').code = ls.code := by
        rw [← @Source.code_filter_concerns _ w, hsame, Source.code_filter_concerns]
      have hplace : (Source.ofText text').place? w = ls.place? w := by
        rw [← Source.place?_filter_concerns, hsame, Source.place?_filter_concerns]
      obtain ⟨i', hi', hreads'⟩ := exists_of_forall₂ hd'.instructions (hcode ▸ hc)
      obtain ⟨q, hq, hoperand₁⟩ := hreads.operand_of_target hw hn
      obtain ⟨q', hq', hoperand₂⟩ := hreads'.operand_of_target hw hn
      obtain rfl : q = q' := Option.some.inj (hq.symm.trans (hplace.symm.trans hq'))
      have hopcode : i'.opcode = i.opcode := Option.some.inj (hreads'.opcode.symm.trans hreads.opcode)
      exact ⟨i', hi', hopcode, hoperand₂.trans hoperand₁.symm⟩
  · have hsound := hr.sound (legible_of_parse h)
    obtain hexpected | ⟨i, hi, hs⟩ := step_raises p hsound.legible w f w' hx
    · rw [hf] at hexpected
      exact nomatch hexpected
    · rw [hsound.subroutine] at hi hs
      exact hd.not_strays hsize hlabels hi f hs

/-- Branches forward and back, past several labels, and to the end. -/
theorem labels_lead_to_the_instruction_below_and_to_the_end :
    let text := "# APPID 3\nloop: # again\n\nbez R0 end\nmeas Q0 R0\nstep:\nnext:\nJMP loop\nbnz R0 next\nend:"
    let s : Subroutine := ⟨3, "1.0", [.branchZero true ⟨.R, 0⟩ 4, .measure ⟨.Q, 0⟩ ⟨.R, 0⟩, .jump 0,
      .branchZero false ⟨.R, 0⟩ 2]⟩
    parse text = .ok s ∧ s.size < 2 ^ 63 ∧
      (∃ above below : Source, Source.ofText text = above ++ .label "end".toList :: below ∧
        above.code.length = s.size ∧ below.code.head? = none) ∧
      (∀ c ∈ (Source.ofText text).code, ∀ j w, c.target? j = some w → int64? w = none) ∧
      ∀ (n m : Nat) (p : ProcessId) (e : Execution) (w : Working (Node n m) n m), Runs p s e w →
        ∀ f w', (step p e).exec w = (.error f, w') → ∀ target, f ≠ .branchOutOfRange target := by
  intro text s
  have h : parse text = .ok s := by decide +kernel
  have hsize : s.size < 2 ^ 63 := by decide
  have hwords : ∀ c ∈ (Source.ofText text).code, ∀ w ∈ c.words, int64? w = none := by decide +kernel
  have hlabels : ∀ c ∈ (Source.ofText text).code, ∀ j w, c.target? j = some w → int64? w = none := by
    intro c hc j w hw
    obtain ⟨op, -, -, hw⟩ := Wording.target?_eq_some.1 hw
    exact hwords c hc w (List.mem_of_getElem? hw)
  obtain ⟨-, operands, executions⟩ := labels_lead_to_the_instruction_below h hsize
  refine ⟨h, hsize, ?_, hlabels, executions hlabels⟩
  have hc : (Source.ofText text).code[0]? = some ⟨"bez".toList, ["R0".toList, "end".toList]⟩ := by decide +kernel
  obtain ⟨i, hi, -, hi'⟩ := operands 0 _ hc
  obtain rfl : .branchZero true ⟨.R, 0⟩ 4 = i := Option.some.inj hi
  obtain ⟨above, below, hls, -, -, hoperand, -, hbelow, -⟩ :=
    hi' 1 "end".toList (by decide +kernel) (by decide +kernel)
  have hlength : (4 : Int) = above.code.length := by simpa [Instruction.operands] using hoperand
  refine ⟨above, below, hls, by exact_mod_cast hlength.symm, ?_⟩
  rw [← hbelow, List.getElem?_eq_none_iff, (parse_eq_ok_iff.1 h).length_code]
  exact Nat.le_of_eq (by exact_mod_cast hlength)

end Subroutine

end QuantumNode
