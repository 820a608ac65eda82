import QuantumNode.Proofs.Data.Except
import QuantumNode.Proofs.Subroutine.Operand

/-! Subroutines as texts. Main statement: what was written is read back, and every text that is read stands for
a subroutine that can be written. -/
namespace QuantumNode

open Text

theorem Opcode.ofName?_name (op : Opcode) : ofName? op.name.toList = some op := by cases op <;> rfl

theorem Opcode.isToken_name (op : Opcode) : IsToken op.name.toList := by
  cases op <;> exact isToken_of_all (by decide) (by decide)

namespace Subroutine

/-- Subroutines that have a text: the version is one word or nothing, and every instruction is legible. -/
structure Legible (s : Subroutine) : Prop where
  appId : Word.fitsSigned32 s.appId = true
  version : ∀ c ∈ s.version.toList, isBlank c = false
  instructions : ∀ i ∈ s.instructions, i.Legible

/-! ### Instructions -/

theorem operand_eq_ok {l : Layout} {op : Opcode} {n : Nat} {k : OperandKind} {cs : List Char} {o : Operand} :
    operand l op n k cs = .ok o ↔ operand? l cs k = some o := by
  unfold operand
  split
  · next ho => rw [ho, Except.ok.injEq, Option.some.injEq]
  · next ho =>
    rw [ho]
    split <;> exact iff_of_false nofun nofun

private theorem mapM_operand_text (l : Layout) (op : Opcode) (n : Nat) {ks : List OperandKind} {os : List Operand}
    (hk : OperandKind.admitAll ks os = true) (h : ∀ o ∈ os, o.Legible) :
    (ks.zip (os.map (·.text.toList))).mapM (fun (kind, cs) => operand l op n kind cs) = .ok os := by
  induction ks generalizing os with
  | nil =>
    cases os with
    | nil => rfl
    | cons o os => exact nomatch hk
  | cons k ks ih =>
    cases os with
    | nil => exact nomatch hk
    | cons o os =>
      obtain ⟨hk, hks⟩ := Bool.and_eq_true_iff.1 hk
      rw [List.map_cons, List.zip_cons_cons, List.mapM_cons, ih hks fun p hp => h p (List.mem_cons_of_mem _ hp)]
      simp only [operand_eq_ok.2 (operand?_text l hk (h o (List.mem_cons_self ..)))]
      rfl

/-- Operands that are read from words are legible and of the kinds that were asked for. -/
theorem mapM_operand_ok {l : Layout} {op : Opcode} {n : Nat} {ks : List OperandKind}
    {ws : List (List Char)} {os : List Operand} (hl : ws.length = ks.length)
    (h : (ks.zip ws).mapM (fun (kind, cs) => operand l op n kind cs) = .ok os) :
    OperandKind.admitAll ks os = true ∧ ∀ o ∈ os, o.Legible := by
  induction ks generalizing ws os with
  | nil =>
    cases h
    exact ⟨rfl, nofun⟩
  | cons k ks ih =>
    obtain ⟨w, ws, rfl⟩ := List.exists_cons_of_length_eq_add_one hl
    rw [List.zip_cons_cons, List.mapM_cons] at h
    obtain ⟨o, ho, h⟩ := bind_ok h
    obtain ⟨os, hos, h⟩ := bind_ok h
    cases h
    obtain ⟨hk, hok⟩ := legible_of_operand? (operand_eq_ok.1 ho)
    obtain ⟨hks, hos⟩ := ih (by simpa using hl) hos
    exact ⟨Bool.and_eq_true_iff.2 ⟨hk, hks⟩, List.forall_mem_cons.2 ⟨hok, hos⟩⟩

/-- The line that an instruction is read from, if it stands at a line number. -/
def codeLine (n : Nat) (i : Instruction) : CodeLine :=
  ⟨n, i.opcode.name.toList, i.operands.map (·.text.toList)⟩

theorem instruction_eq_ok {l : Layout} {c : CodeLine} {i : Instruction} :
    instruction l c = .ok i ↔ ∃ op os, Opcode.ofName? c.mnemonic = some op ∧ c.words.length = op.signature.length ∧
      (op.signature.zip c.words).mapM (fun (kind, cs) => operand l op c.number kind cs) = .ok os ∧
      Instruction.ofOperands? op os = some i := by
  constructor
  · intro h
    unfold instruction at h
    split at h
    · exact nomatch h
    · next op hop =>
      split at h
      · exact nomatch h
      · next hlength =>
        obtain ⟨os, hos, h⟩ := bind_ok h
        split at h
        · next j hj =>
          cases h
          exact ⟨op, os, hop, not_not.1 hlength, hos, hj⟩
        · exact nomatch h
  · rintro ⟨op, os, hop, hlength, hos, hi⟩
    simp only [instruction, hop, if_neg (not_not.2 hlength), bind, Except.bind, hos, hi]

theorem instruction_codeLine (l : Layout) (n : Nat) {i : Instruction} (h : i.Legible) :
    instruction l (codeLine n i) = .ok i := by
  have hk := i.admitAll_operands
  have hlength : (codeLine n i).words.length = i.opcode.signature.length := by
    rw [codeLine, List.length_map, OperandKind.length_of_admitAll hk]
  exact instruction_eq_ok.2 ⟨i.opcode, i.operands, Opcode.ofName?_name _, hlength,
    mapM_operand_text l i.opcode n hk h, Instruction.ofOperands?_operands i⟩

/-- The operands of an instruction that is read are those that its line was read as. -/
theorem legible_of_instruction {l : Layout} {c : CodeLine} {i : Instruction} (h : instruction l c = .ok i) :
    i.Legible := by
  obtain ⟨op, os, -, hlength, hos, hi⟩ := instruction_eq_ok.1 h
  obtain ⟨hk, hlegible⟩ := mapM_operand_ok hlength hos
  obtain ⟨j, hj, -, rfl⟩ := Instruction.ofOperands?_of_admitAll hk
  rw [hj] at hi
  cases hi
  exact hlegible

/-! ### Lines -/

private theorem getLast?_spaced (w : List Char) {ws : List (List Char)} (h : ∀ v ∈ ws, v ≠ []) :
    ∃ v ∈ w :: ws, (spaced w ws).getLast? = v.getLast? := by
  induction ws generalizing w with
  | nil => exact ⟨w, List.mem_cons_self .., by simp [spaced]⟩
  | cons v ws ih =>
    obtain ⟨u, hu, hl⟩ := ih v fun x hx => h x (List.mem_cons_of_mem _ hx)
    have hne : spaced v ws ≠ [] := by simp [spaced, h v (List.mem_cons_self ..)]
    refine ⟨u, List.mem_cons_of_mem _ hu, ?_⟩
    calc (spaced w (v :: ws)).getLast? = ((w ++ [' ']) ++ spaced v ws).getLast? := by simp [spaced]
      _ = (spaced v ws).getLast? := getLast?_append_of_ne_nil _ hne
      _ = u.getLast? := hl

/-- A line of tokens is a line of code with these words. -/
theorem addLine_spaced (l : Layout) (n : Nat) {w : List Char} {ws : List (List Char)} (hw : IsToken w)
    (hs : ∀ v ∈ ws, IsToken v) : l.addLine n (spaced w ws) = .ok { l with code := ⟨n, w, ws⟩ :: l.code } := by
  have hall : ∀ v ∈ w :: ws, IsToken v := List.forall_mem_cons.2 ⟨hw, hs⟩
  obtain ⟨u, hu, hlast⟩ := getLast?_spaced w fun v hv => (hs v hv).ne_nil
  have htrim : trim (spaced w ws) = spaced w ws := by
    refine trim_eq_self ?_ fun c hc => ?_
    · intro c hc
      obtain ⟨d, v, rfl⟩ := List.exists_cons_of_ne_nil hw.ne_nil
      obtain rfl : d = c := by simpa [spaced] using hc
      exact hw.solid d (List.mem_cons_self ..)
    · rw [hlast] at hc
      exact (hall u hu).solid c (List.mem_of_getLast? hc)
  have hno : '#' ∉ spaced w ws := by
    simp only [spaced, List.mem_append, List.mem_flatMap, List.mem_cons, not_or, not_exists, not_and]
    exact ⟨hw.no_comment, fun v hv => ⟨by decide, (hs v hv).no_comment⟩⟩
  unfold Layout.addLine
  rw [htrim]
  split
  · next body he => exact absurd (he ▸ List.mem_cons_self ..) hno
  · rw [before_eq_self hno, htrim, if_neg (hlast ▸ (hall u hu).no_label),
      words_spaced hw.toIsWord fun v hv => (hs v hv).toIsWord]

theorem toList_text_instruction (i : Instruction) :
    i.text.toList = spaced i.opcode.name.toList (i.operands.map (·.text.toList)) := by
  have hfold (os : List Operand) (line : String) :
      (os.foldl (fun line o => line ++ " " ++ o.text) line).toList =
        spaced line.toList (os.map (·.text.toList)) := by
    induction os generalizing line with
    | nil => simp [spaced]
    | cons o os ih => simp [ih, spaced]
  exact hfold _ _

theorem addLine_text (l : Layout) (n : Nat) (i : Instruction) :
    l.addLine n i.text.toList = .ok { l with code := codeLine n i :: l.code } := by
  rw [toList_text_instruction]
  refine addLine_spaced l n i.opcode.isToken_name fun v hv => ?_
  obtain ⟨o, -, rfl⟩ := List.mem_map.1 hv
  exact o.isToken_text

/-- What stands behind a header's key once the ends of its line are cut: nothing has no space before it. -/
private def headerRest (value : List Char) : List Char := if value = [] then [] else ' ' :: value

private theorem nextWord_headerRest {value : List Char} (hv : ∀ c ∈ value, isBlank c = false) :
    (nextWord (headerRest value)).1 = value := by
  by_cases h : value = []
  · rw [headerRest, if_pos h, h]
    rfl
  · have hw : nextWord (' ' :: (value ++ [])) = (value, []) := nextWord_append ⟨h, hv⟩ nofun
    rw [List.append_nil] at hw
    rw [headerRest, if_neg h, hw]

/-- The line of a header has one word as its key, and one word or nothing as its value. -/
private theorem addLine_header (l : Layout) (n : Nat) {key value : List Char} (hk : IsWord key)
    (hv : ∀ c ∈ value, isBlank c = false) :
    l.addLine n (['#', ' '] ++ key ++ [' '] ++ value) = l.header n (' ' :: (key ++ headerRest value)) := by
  have htrim : trim (['#', ' '] ++ key ++ [' '] ++ value) = '#' :: ' ' :: (key ++ headerRest value) := by
    by_cases h : value = []
    · rw [headerRest, if_pos h, h, List.append_nil, List.append_nil]
      calc trim (['#', ' '] ++ key ++ [' ']) = trim (['#', ' '] ++ key) := trim_concat_blank rfl rfl
        _ = '#' :: ' ' :: key := trim_append_word rfl hk
    · rw [headerRest, if_neg h]
      calc trim (['#', ' '] ++ key ++ [' '] ++ value) = ['#', ' '] ++ key ++ [' '] ++ value :=
            trim_append_word rfl ⟨h, hv⟩
        _ = '#' :: ' ' :: (key ++ ' ' :: value) := by simp
  simp only [Layout.addLine, htrim]

private theorem nextWord_header {key value : List Char} (hk : IsWord key) :
    nextWord (' ' :: (key ++ headerRest value)) = (key, headerRest value) := by
  refine nextWord_append hk ?_
  unfold headerRest
  split <;> simp [EndsWord, isBlank]

theorem addLine_version (l : Layout) (n : Nat) {version : List Char} (hv : ∀ c ∈ version, isBlank c = false) :
    l.addLine n ("# NETQASM ".toList ++ version) = .ok { l with version := String.ofList version } := by
  have hk : IsWord "NETQASM".toList := (isToken_of_all (by decide) (by decide)).toIsWord
  calc l.addLine n ("# NETQASM ".toList ++ version) = l.header n (' ' :: ("NETQASM".toList ++ headerRest version)) :=
        addLine_header l n hk hv
    _ = _ := by
      simp only [Layout.header, nextWord_header hk, nextWord_headerRest hv]
      rw [if_neg (by decide), if_true]

theorem addLine_appId (l : Layout) (n : Nat) {appId : Int} (h : Word.fitsSigned32 appId = true) :
    l.addLine n ("# APPID ".toList ++ (toString appId).toList) = .ok { l with appId := appId } := by
  have hk : IsWord "APPID".toList := (isToken_of_all (by decide) (by decide)).toIsWord
  have hv : ∀ c ∈ (toString appId).toList, isBlank c = false := (Operand.isToken_text (.immediate appId)).solid
  calc l.addLine n ("# APPID ".toList ++ (toString appId).toList) =
        l.header n (' ' :: ("APPID".toList ++ headerRest (toString appId).toList)) := addLine_header l n hk hv
    _ = _ := by
      simp only [Layout.header, nextWord_header hk, nextWord_headerRest hv]
      rw [if_true, int64?_toString (Word.fitsSigned64_of_fitsSigned32 h)]
      simp only [Word.signed32_of_fits h]

/-! ### Texts -/

/-- The lines of a subroutine's text. -/
def writtenLines (s : Subroutine) : List (List Char) :=
  ("# NETQASM ".toList ++ s.version.toList) :: ("# APPID ".toList ++ (toString s.appId).toList) ::
    s.instructions.map (·.text.toList)

theorem toList_text_eq (s : Subroutine) : s.text.toList = s.writtenLines.flatMap (· ++ ['\n']) := by
  have hfold (is : List Instruction) (text : String) :
      (is.foldl (fun text i => text ++ i.text ++ "\n") text).toList =
        text.toList ++ (is.map (·.text.toList)).flatMap (· ++ ['\n']) := by
    induction is generalizing text with
    | nil => simp
    | cons i is ih => simp [ih]
  rw [text, hfold]
  simp [writtenLines]

theorem lines_text {s : Subroutine} (h : s.Legible) : lines s.text.toList = s.writtenLines := by
  rw [toList_text_eq]
  refine lines_flatMap (List.forall_mem_cons.2 ⟨?_, List.forall_mem_cons.2 ⟨?_, ?_⟩⟩)
  · exact List.not_mem_append (by decide) (newline_not_mem_of_solid h.version)
  · exact List.not_mem_append (by decide) (newline_not_mem_of_solid (Operand.isToken_text (.immediate s.appId)).solid)
  · intro line hline
    obtain ⟨i, -, rfl⟩ := List.mem_map.1 hline
    rw [toList_text_instruction]
    refine newline_not_mem_spaced i.opcode.isToken_name.toIsWord fun w hw => ?_
    obtain ⟨o, -, rfl⟩ := List.mem_map.1 hw
    exact o.isToken_text.toIsWord

private theorem foldlM_addLine_text (l : Layout) (n : Nat) (is : List Instruction) :
    (((is.map (·.text.toList)).zipIdx n).map fun p => (p.2, p.1)).foldlM (fun l p => l.addLine p.1 p.2) l =
      .ok { l with code := ((is.zipIdx n).map fun p => codeLine p.2 p.1).reverse ++ l.code } := by
  induction is generalizing l n with
  | nil => rfl
  | cons i is ih =>
    rw [List.map_cons, List.zipIdx_cons, List.map_cons, List.foldlM_cons, addLine_text]
    exact (ih _ _).trans (by simp)

/-- A text read back has the headers and the instructions that it was written from, on the lines after the
headers. -/
theorem ofText_text {s : Subroutine} (h : s.Legible) : Layout.ofText s.text.toList =
    .ok ⟨s.appId, s.version, [], ((s.instructions.zipIdx 3).map fun p => codeLine p.2 p.1).reverse⟩ := by
  rw [Layout.ofText, numberedLines, lines_text h, writtenLines, List.zipIdx_cons, List.zipIdx_cons, List.map_cons,
    List.map_cons, List.foldlM_cons, addLine_version _ _ h.version]
  simp only [bind, Except.bind, List.foldlM_cons, addLine_appId _ _ h.appId]
  rw [foldlM_addLine_text]
  simp [Layout.start]

theorem parse_text {s : Subroutine} (h : s.Legible) : parse s.text = .ok s := by
  have hcode (l : Layout) : ((s.instructions.zipIdx 3).map fun p => codeLine p.2 p.1).mapM (instruction l) =
      .ok s.instructions := by
    rw [mapM_eq_ok_iff, List.map_map]
    calc _ = (s.instructions.zipIdx 3).map fun p => Except.ok p.1 :=
          List.map_congr_left fun p hp =>
            instruction_codeLine l p.2 (h.instructions p.1 (List.fst_mem_of_mem_zipIdx hp))
      _ = ((s.instructions.zipIdx 3).map Prod.fst).map .ok := by rw [List.map_map]; rfl
      _ = s.instructions.map .ok := by rw [List.zipIdx_map_fst]
  rw [parse, parseChars, ofText_text h]
  simp only [bind, Except.bind, List.reverse_reverse, hcode]
  rfl

/-! ### What was read -/

/-- Headers that can be written down. -/
def Layout.Legible (l : Layout) : Prop :=
  Word.fitsSigned32 l.appId = true ∧ ∀ c ∈ l.version.toList, isBlank c = false

theorem legible_of_header {l l' : Layout} {n : Nat} {body : List Char} (hl : l.Legible)
    (h : l.header n body = .ok l') : l'.Legible := by
  unfold Layout.header at h
  simp only at h
  split at h
  · split at h
    · next id _ =>
      cases h
      exact ⟨Word.fitsSigned32_signed32 id, hl.2⟩
    · exact nomatch h
  · split at h
    · cases h
      refine ⟨hl.1, fun c hc => ?_⟩
      rw [String.toList_ofList] at hc
      exact solid_of_mem_nextWord hc
    · cases h
      exact hl

theorem legible_of_addLine {l l' : Layout} {n : Nat} {raw : List Char} (hl : l.Legible)
    (h : l.addLine n raw = .ok l') : l'.Legible := by
  unfold Layout.addLine at h
  split at h
  · exact legible_of_header hl h
  · simp only at h
    split at h
    · unfold Layout.addLabel at h
      split at h
      · exact nomatch h
      · split at h
        · exact nomatch h
        · cases h
          exact hl
    · split at h <;> cases h <;> exact hl

theorem legible_of_parse {text : String} {s : Subroutine} (h : parse text = .ok s) : s.Legible := by
  obtain ⟨l, hl, h⟩ := bind_ok h
  obtain ⟨is, his, h⟩ := bind_ok h
  cases h
  have hstart : Layout.start.Legible := ⟨by decide, (isToken_of_all (by decide) (by decide)).solid⟩
  obtain ⟨ha, hv⟩ : l.Legible := foldlM_ok (P := Layout.Legible) (fun _ _ _ => legible_of_addLine) hstart hl
  refine ⟨ha, hv, fun i hi => ?_⟩
  have hm : Except.ok i ∈ l.code.reverse.map (instruction l) := by
    rw [mapM_eq_ok_iff.1 his]
    exact List.mem_map_of_mem hi
  obtain ⟨c, -, hc⟩ := List.mem_map.1 hm
  exact legible_of_instruction hc

/-- Instructions are an opcode with operands of the kinds that it takes, and subroutines survive their text: what is
legible is read back from what it is written as, and so is all that any text is read as. -/
theorem subroutines_survive_their_text :
    (∀ (op : Opcode) (os : List Operand), OperandKind.admitAll op.signature os = true →
      ∃! i : Instruction, i.opcode = op ∧ i.operands = os) ∧
    (∀ s : Subroutine, s.Legible → parse s.text = .ok s) ∧
    ∀ (text : String) (s : Subroutine), parse text = .ok s → parse s.text = .ok s := by
  refine ⟨fun op os h => ?_, fun s => parse_text, fun text s h => parse_text (legible_of_parse h)⟩
  obtain ⟨i, -, rfl, rfl⟩ := Instruction.ofOperands?_of_admitAll h
  refine ⟨i, ⟨rfl, rfl⟩, fun j hj => ?_⟩
  have hi := i.ofOperands?_operands
  rw [← hj.1, ← hj.2, j.ofOperands?_operands] at hi
  exact Option.some.inj hi

theorem subroutines_survive_their_text_with_labels :
    let text := "#NETQASM 0.9 beta # draft\n\tSET R0 -9223372036854775808 # lowest\n again:\n# APPID 4294967299\n" ++
      "Store R00 @007[M15]\nwait_all @9223372036854775807[R1:-3]\nBEQ C2 4 again"
    let s : Subroutine := ⟨3, "0.9", [.set ⟨.R, 0⟩ (-9223372036854775808), .store ⟨.R, 0⟩ ⟨7, .register ⟨.M, 15⟩⟩,
      .waitAll ⟨9223372036854775807, .register ⟨.R, 1⟩, .literal (-3)⟩,
      .branch .equal (.register ⟨.C, 2⟩) (.literal 4) 1]⟩
    let os : List Operand := [.register ⟨.M, 15⟩, .entry ⟨0, .register ⟨.C, 0⟩⟩]
    (OperandKind.admitAll Opcode.load.signature os = true ∧
      ∃! i : Instruction, i.opcode = .load ∧ i.operands = os) ∧
    (s.Legible ∧ parse s.text = .ok s) ∧ (parse text = .ok s ∧ s.text ≠ text ∧ parse s.text = .ok s) := by
  intro text s os
  obtain ⟨instructions, legible, read⟩ := subroutines_survive_their_text
  have hk : OperandKind.admitAll Opcode.load.signature os = true := by decide
  have h : parse text = .ok s := by decide +kernel
  have hs : s.Legible := legible_of_parse h
  exact ⟨⟨hk, instructions .load os hk⟩, ⟨hs, legible s hs⟩, h, by decide +kernel, read text s h⟩

end Subroutine

end QuantumNode
