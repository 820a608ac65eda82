import QuantumNode.Proofs.Program.Placement
import QuantumNode.Proofs.Subroutine.Line
import QuantumNode.Proofs.Subroutine.RoundTrip

/-! Scripts at run time. Main statement: what passed the check of its script, with zeros in the places of the names,
is read with the ids of an application and of the nodes in these places as well. -/
namespace QuantumNode.Script

open Text Subroutine

/-- What is read of a line: the value of a header that sets the application's id, and otherwise what stands before
the comment. -/
def readable (raw : List Char) : List Char :=
  match trim raw with
  | '#' :: body => if (nextWord body).1 = "APPID".toList then (nextWord (nextWord body).2).1 else []
  | line => before '#' line

/-- Where a subroutine's text is read, its names stand apart. -/
def NamesApart (body : List Char) : Prop := ∀ l ∈ lines body, Apart (readable l)

instance (body : List Char) : Decidable (NamesApart body) :=
  List.decidableBAll (fun l => Apart (readable l)) (lines body)

def fillLine (f : String → List Char) (c : CodeLine) : CodeLine := ⟨c.number, fill f c.mnemonic, c.words.map (fill f)⟩

/-- Layouts of one text, with other numbers in the places of its names. -/
structure Alike (f g : String → List Char) (l m : Layout) : Prop where
  labels : m.labels = l.labels
  names : ∀ p ∈ l.labels, Layout.isLabelName p.1 = true
  code : ∃ cs : List CodeLine, (∀ c ∈ cs, ∀ w ∈ c.words, Apart w) ∧ l.code = cs.map (fillLine f) ∧
    m.code = cs.map (fillLine g)

theorem alike_start (f g : String → List Char) : Alike f g .start .start := ⟨rfl, nofun, [], nofun, rfl, rfl⟩

section Lines

variable {f g : String → List Char} (hf : Numbers f) (hg : Numbers g) {l l' m : Layout} (h : Alike f g l m) {n : Nat}

/-! ### Lines -/

theorem readable_plain {raw : List Char} (hc : (trim raw).head? ≠ some '#') :
    readable raw = before '#' (trim raw) := by
  unfold readable
  split
  · next hb => exact absurd (hb ▸ rfl) hc
  · rfl

include hf hg h

theorem header_fill {body : List Char}
    (ha : (nextWord body).1 = "APPID".toList → Apart (nextWord (nextWord body).2).1)
    (hl : l.header n (fill f body) = .ok l') : ∃ m', m.header n (fill g body) = .ok m' ∧ Alike f g l' m' := by
  have appId {f : String → List Char} (hf : Numbers f) :=
    fill_eq_iff hf (w := (nextWord body).1) (t := "APPID".toList) (by decide) (by decide)
  have version {f : String → List Char} (hf : Numbers f) :=
    fill_eq_iff hf (w := (nextWord body).1) (t := "NETQASM".toList) (by decide) (by decide)
  simp only [Layout.header, nextWord_fill hf, appId hf, version hf] at hl
  simp only [Layout.header, nextWord_fill hg, appId hg, version hg]
  split at hl
  · next hkey =>
    rw [if_pos hkey]
    -- Ids may differ between the two layouts: nothing that is read later depends on them.
    split at hl
    · next v hv =>
      obtain ⟨u, hu⟩ := int64?_fill hf hg (ha hkey) hv
      cases hl
      rw [hu]
      exact ⟨_, rfl, h.labels, h.names, h.code⟩
    · cases hl
  · next hkey =>
    rw [if_neg hkey]
    split at hl
    · next hversion =>
      cases hl
      rw [if_pos hversion]
      exact ⟨_, rfl, h.labels, h.names, h.code⟩
    · next hversion =>
      cases hl
      rw [if_neg hversion]
      exact ⟨_, rfl, h⟩

omit hg in
theorem addLabel_fill {w : List Char} (ha : Apart w) (hl : l.addLabel n (fill f w) = .ok l') :
    ∃ m', m.addLabel n (fill g w) = .ok m' ∧ Alike f g l' m' := by
  unfold Layout.addLabel at hl
  split at hl
  · exact nomatch hl
  · next hname =>
    have hname : Layout.isLabelName (fill f w) = true := by simpa using hname
    have hm := not_mem_of_label hf ha hname
    rw [fill_of_not_mem hm] at hname hl ⊢
    split at hl
    · exact nomatch hl
    · next hnew =>
      cases hl
      have hsame : m.label? w = l.label? w := by rw [Layout.label?, h.labels, Layout.label?]
      obtain ⟨cs, hapart, hlcode, hmcode⟩ := h.code
      refine ⟨_, by rw [Layout.addLabel, hname, hsame, if_neg (by decide), if_neg hnew], ?_⟩
      refine ⟨?_, ?_, cs, hapart, hlcode, hmcode⟩
      · simp only [h.labels, hlcode, hmcode, List.length_map]
      · exact List.forall_mem_cons.2 ⟨hname, h.names⟩

theorem addPlain_fill {line : List Char} (ha : Apart line) (hl : addPlain l n (fill f line) = .ok l') :
    ∃ m', addPlain m n (fill g line) = .ok m' ∧ Alike f g l' m' := by
  have hcolon : Separates ':' := by decide
  unfold addPlain at hl ⊢
  by_cases ht : line.getLast? = some ':'
  · rw [if_pos ((getLast?_fill hf hcolon).2 ht)] at hl
    rw [if_pos ((getLast?_fill hg hcolon).2 ht)]
    obtain ⟨w, rfl⟩ := List.getLast?_eq_some_iff.1 ht
    have hdrop (f : String → List Char) : (fill f (w ++ [':'])).dropLast = fill f w := by
      rw [fill_append (hcolon.endsName []), fill_cons hcolon.2]
      exact List.dropLast_concat
    rw [hdrop] at hl ⊢
    exact addLabel_fill hf h (ha.of_part (List.prefix_append ..).isInfix) hl
  · rw [if_neg (mt (getLast?_fill hf hcolon).1 ht), words_fill hf] at hl
    rw [if_neg (mt (getLast?_fill hg hcolon).1 ht), words_fill hg]
    cases hw : words line with
    | nil =>
      rw [hw] at hl
      cases hl
      exact ⟨m, rfl, h⟩
    | cons w ws =>
      rw [hw] at hl
      cases hl
      obtain ⟨cs, hapart, hlcode, hmcode⟩ := h.code
      have hwords : ∀ v ∈ ws, Apart v := fun v hv =>
        ha.of_part (infix_of_mem_words (hw ▸ List.mem_cons_of_mem _ hv))
      refine ⟨_, rfl, h.labels, h.names, ⟨n, w, ws⟩ :: cs, List.forall_mem_cons.2 ⟨hwords, hapart⟩, ?_, ?_⟩
      · rw [List.map_cons, ← hlcode]
        rfl
      · rw [List.map_cons, ← hmcode]
        rfl

/-- A line with other numbers in the places of its names is the same kind of line. -/
theorem addLine_fill {raw : List Char} (ha : Apart (readable raw)) (hl : l.addLine n (fill f raw) = .ok l') :
    ∃ m', m.addLine n (fill g raw) = .ok m' ∧ Alike f g l' m' := by
  by_cases hc : (trim raw).head? = some '#'
  · obtain ⟨body, hb⟩ := List.head?_eq_some_iff.1 hc
    have hfill {f : String → List Char} (hf : Numbers f) : trim (fill f raw) = '#' :: fill f body := by
      rw [trim_fill hf, hb, fill_cons (by decide)]
    rw [addLine_comment (hfill hf)] at hl
    rw [addLine_comment (hfill hg)]
    refine header_fill hf hg h (fun hkey => ?_) hl
    simpa only [readable, hb, if_pos hkey] using ha
  · have hfill {f : String → List Char} (hf : Numbers f) : (trim (fill f raw)).head? ≠ some '#' ∧
        trim (before '#' (trim (fill f raw))) = fill f (trim (before '#' (trim raw))) := by
      rw [trim_fill hf, before_fill hf (by decide), trim_fill hf]
      exact ⟨mt (head?_fill hf (by decide)).1 hc, rfl⟩
    rw [addLine_plain (hfill hf).1, (hfill hf).2] at hl
    rw [addLine_plain (hfill hg).1, (hfill hg).2]
    rw [readable_plain hc] at ha
    exact addPlain_fill hf hg h (ha.of_part (infix_trim _)) hl

theorem foldlM_addLine_fill {ls : List (Nat × List Char)} (ha : ∀ p ∈ ls, Apart (readable p.2))
    (hl : (ls.map (Prod.map id (fill f))).foldlM (fun l p => l.addLine p.1 p.2) l = .ok l') :
    ∃ m', (ls.map (Prod.map id (fill g))).foldlM (fun l p => l.addLine p.1 p.2) m = .ok m' ∧ Alike f g l' m' := by
  induction ls generalizing l m with
  | nil =>
    cases hl
    exact ⟨m, rfl, h⟩
  | cons p ls ih =>
    rw [List.map_cons, List.foldlM_cons] at hl
    obtain ⟨l₁, h₁, hl⟩ := bind_ok hl
    obtain ⟨m₁, hm₁, h⟩ := addLine_fill hf hg h (ha p (List.mem_cons_self ..)) (n := p.1) h₁
    obtain ⟨m', hm', h⟩ := ih h (fun q hq => ha q (List.mem_cons_of_mem _ hq)) hl
    refine ⟨m', ?_, h⟩
    rw [List.map_cons, List.foldlM_cons, Prod.map, id, hm₁]
    exact hm'

omit h in
theorem ofText_fill {cs : List Char} (hs : NamesApart cs) (hl : Layout.ofText (fill f cs) = .ok l') :
    ∃ m', Layout.ofText (fill g cs) = .ok m' ∧ Alike f g l' m' := by
  have numbered {f : String → List Char} (hf : Numbers f) :
      numberedLines (fill f cs) = (numberedLines cs).map (Prod.map id (fill f)) := by
    rw [numberedLines, numberedLines, lines_fill hf, List.zipIdx_map, List.map_map, List.map_map]
    rfl
  rw [Layout.ofText, numbered hf] at hl
  rw [Layout.ofText, numbered hg]
  refine foldlM_addLine_fill hf hg (alike_start f g) (fun p hp => ?_) hl
  obtain ⟨q, hq, rfl⟩ := List.mem_map.1 hp
  exact hs q.1 (List.fst_mem_of_mem_zipIdx hq)

/-! ### Instructions -/

omit h hg in
/-- There is no name in a mnemonic. -/
theorem not_mem_of_ofName? {w : List Char} {op : Opcode} (ho : Opcode.ofName? (fill f w) = some op) : '$' ∉ w := by
  intro hm
  obtain ⟨c, hc, hd⟩ := exists_digit hf hm
  have hname : op.name.toList = lower (fill f w) := by simpa using List.find?_some ho
  have hmem : c ∈ op.name.toList := by
    rw [hname, ← lowerChar_of_isDigit hd]
    exact List.mem_map_of_mem hc
  have hnone : op.name.toList.any Char.isDigit = false := by cases op <;> decide
  exact absurd (List.any_eq_true.2 ⟨c, hmem, hd⟩) (by simp [hnone])

theorem mapM_operand_fill {op : Opcode} {ks : List OperandKind} {ws : List (List Char)} (ha : ∀ w ∈ ws, Apart w)
    {os : List Operand}
    (ho : (ks.zip (ws.map (fill f))).mapM (fun (kind, cs) => operand l op n kind cs) = .ok os) :
    ∃ os', (ks.zip (ws.map (fill g))).mapM (fun (kind, cs) => operand m op n kind cs) = .ok os' := by
  refine exists_mapM_ok fun p hp => ?_
  rw [List.zip_map_right, List.mem_map] at hp
  obtain ⟨⟨k, w⟩, hkw, rfl⟩ := hp
  have hmem : (k, fill f w) ∈ ks.zip (ws.map (fill f)) := by
    rw [List.zip_map_right]
    exact List.mem_map_of_mem hkw
  obtain ⟨o, ho⟩ := ok_of_mapM_ok ho hmem
  obtain ⟨o', ho'⟩ := operand?_fill hf hg (ha w (List.of_mem_zip hkw).2) h.labels h.names (operand_eq_ok.1 ho)
  exact ⟨o', operand_eq_ok.2 ho'⟩

/-- The instruction of a line has the same opcode, whatever the numbers. -/
theorem instruction_fill {c : CodeLine} (ha : ∀ w ∈ c.words, Apart w) {i : Instruction}
    (hi : instruction l (fillLine f c) = .ok i) :
    ∃ j, instruction m (fillLine g c) = .ok j ∧ j.opcode = i.opcode := by
  obtain ⟨op, os, hop, hlength, hos, hi⟩ := instruction_eq_ok.1 hi
  obtain ⟨os', hos'⟩ := mapM_operand_fill hf hg h ha hos
  have hm : '$' ∉ c.mnemonic := not_mem_of_ofName? hf hop
  have hop' : Opcode.ofName? (fillLine g c).mnemonic = some op := by
    rw [← hop, fillLine, fillLine, fill_of_not_mem hm, fill_of_not_mem hm]
  have hlength' : (fillLine g c).words.length = op.signature.length := by
    rw [← hlength, fillLine, fillLine, List.length_map, List.length_map]
  obtain ⟨i', hi', hopcode, -⟩ := Instruction.ofOperands?_of_admitAll (mapM_operand_ok hlength hos).1
  obtain ⟨j, hj, hjopcode, -⟩ := Instruction.ofOperands?_of_admitAll (mapM_operand_ok hlength' hos').1
  obtain rfl : i' = i := Option.some.inj (hi'.symm.trans hi)
  exact ⟨j, instruction_eq_ok.2 ⟨op, os', hop', hlength', hos', hj⟩, hjopcode.trans hopcode.symm⟩

theorem mapM_instruction_fill {cs : List CodeLine} (ha : ∀ c ∈ cs, ∀ w ∈ c.words, Apart w) {is : List Instruction}
    (hi : (cs.map (fillLine f)).mapM (instruction l) = .ok is) :
    ∃ js, (cs.map (fillLine g)).mapM (instruction m) = .ok js ∧ js.map (·.opcode) = is.map (·.opcode) := by
  induction cs generalizing is with
  | nil =>
    cases hi
    exact ⟨[], rfl, rfl⟩
  | cons c cs ih =>
    rw [List.map_cons, List.mapM_cons] at hi
    obtain ⟨i, h₁, hi⟩ := bind_ok hi
    obtain ⟨is, h₂, hi⟩ := bind_ok hi
    cases hi
    obtain ⟨j, hj, hij⟩ := instruction_fill hf hg h (ha c (List.mem_cons_self ..)) h₁
    obtain ⟨js, hjs, hopcodes⟩ := ih (fun d hd => ha d (List.mem_cons_of_mem _ hd)) h₂
    refine ⟨j :: js, ?_, by rw [List.map_cons, List.map_cons, hij, hopcodes]⟩
    rw [List.map_cons, List.mapM_cons, hj, hjs]
    rfl

omit h in
/-- Texts with names that stand apart are read as instructions with the same opcodes, whatever the numbers in the
places of the names. -/
theorem parseChars_fill {cs : List Char} (hs : NamesApart cs) {s : Subroutine} (hp : parseChars (fill f cs) = .ok s) :
    ∃ t, parseChars (fill g cs) = .ok t ∧ t.instructions.map (·.opcode) = s.instructions.map (·.opcode) := by
  obtain ⟨l, hl, hp⟩ := bind_ok hp
  obtain ⟨is, his, hp⟩ := bind_ok hp
  cases hp
  obtain ⟨m, hm, h⟩ := ofText_fill hf hg hs hl
  obtain ⟨ls, hapart, hlcode, hmcode⟩ := h.code
  rw [hlcode, ← List.map_reverse] at his
  obtain ⟨js, hjs, hopcodes⟩ :=
    mapM_instruction_fill hf hg h (fun c hc => hapart c (List.mem_reverse.1 hc)) his
  rw [List.map_reverse, ← hmcode] at hjs
  refine ⟨⟨m.appId, m.version, js⟩, ?_, hopcodes⟩
  simp only [parseChars, hm, hjs, bind, Except.bind]
  rfl

end Lines

/-! ### Scripts -/

/-- Zeros pass for numbers. -/
theorem numbers_zero : Numbers fun _ => ['0'] := ⟨fun _ => by decide, fun _ => by decide⟩

theorem zeroed_eq (text : String) : zeroed text = String.ofList (fill (fun _ => ['0']) text.toList) := by
  rw [← String.toList_inj, zeroed, String.toList_join, List.flatMap_map, String.toList_ofList, fill]
  refine List.flatMap_congr fun p _ => ?_
  cases p <;> simp [Piece.chars]

theorem substitute_ok {lookup : String → Except Fault String} {f : String → List Char} {text : String}
    (h : ∀ word, .name word ∈ pieces none text.toList → lookup word = .ok (String.ofList (f word))) :
    substitute lookup text = .ok (String.ofList (fill f text.toList)) := by
  have hp : (pieces none text.toList).mapM (Piece.expand lookup) =
      .ok ((pieces none text.toList).map fun p => String.ofList (p.chars f)) := by
    rw [mapM_eq_ok_iff, List.map_map]
    refine List.map_congr_left fun p hp => ?_
    cases p with
    | literal c => rfl
    | name word => exact h word hp
  simp only [substitute, hp, bind, Except.bind]
  refine congrArg Except.ok ?_
  rw [← String.toList_inj, String.toList_join, List.flatMap_map, String.toList_ofList, fill]
  simp only [String.toList_ofList]

/-- The names in a subroutine's text. -/
def names (body : String) : List String :=
  (pieces none body.toList).filterMap fun
    | .literal _ => none
    | .name word => some word

theorem mem_names {body word : String} : word ∈ names body ↔ .name word ∈ pieces none body.toList := by
  rw [names, List.mem_filterMap]
  constructor
  · rintro ⟨p, hp, hw⟩
    cases p with
    | literal => exact nomatch hw
    | name =>
      cases hw
      exact hp
  · exact fun h => ⟨_, h, rfl⟩

/-- What stands for the names of a script: the application's id and those of the nodes. -/
def numeral (app : Int) (node : String → Option Nat) (word : String) : List Char :=
  if word = "app" then (toString app).toList else (toString ((node word).getD 0)).toList

section Ids

variable {app : Int} {node : String → Option Nat}

theorem numbers_numeral (happ : 0 ≤ app) (hfit : Word.fitsSigned64 app = true)
    (hnode : ∀ word id, node word = some id → Word.fitsSigned64 id = true) : Numbers (numeral app node) := by
  have digits (word : String) : ∃ n : Nat, numeral app node word = Nat.toDigits 10 n ∧ Word.fitsSigned64 n = true := by
    unfold numeral
    split
    · refine ⟨app.toNat, ?_, ?_⟩
      · rw [toList_toString_int, if_pos happ]
      · rwa [Int.toNat_of_nonneg happ]
    · refine ⟨(node word).getD 0, by simp [Nat.repr_eq_ofList_toDigits], ?_⟩
      cases hn : node word with
      | none => rfl
      | some id => exact hnode word id hn
  refine ⟨fun word => ?_, fun word => ?_⟩
  · obtain ⟨n, hn, -⟩ := digits word
    rw [hn, allDigits_toDigits]
  · obtain ⟨n, hn, hfit⟩ := digits word
    rwa [hn, natOfDigits_toDigits]

theorem instantiate_ok {program body : String}
    (hknown : ∀ word ∈ names body, word = "app" ∨ (node word).isSome = true) :
    instantiate program app node body = .ok (String.ofList (fill (numeral app node) body.toList)) := by
  refine substitute_ok fun word hw => ?_
  unfold numeral
  split
  · rw [String.ofList_toList]
  · next hne =>
    obtain ⟨id, hid⟩ := Option.isSome_iff_exists.1 ((hknown word (mem_names.2 hw)).resolve_left hne)
    rw [hid, Option.getD_some, String.ofList_toList]

end Ids

theorem parse_zeroed {text : String} {script : Script} (h : parse text = .ok script) {body : String}
    (hb : body ∈ script.subroutines) : ∃ s, Subroutine.parse (zeroed body) = .ok s := by
  obtain ⟨d, -, h⟩ := bind_ok h
  dsimp only at h
  split at h
  · exact nomatch h
  · obtain ⟨u, hu, h⟩ := bind_ok h
    cases h
    rw [← List.zipIdx_map_fst 0 (d.bodies.reverse.map bodyText)] at hb
    obtain ⟨p, hp, rfl⟩ := List.mem_map.1 hb
    have hcheck : check p.2 p.1 = .ok () := ok_of_forIn_ok hu p hp
    unfold check at hcheck
    split at hcheck
    · next s hs => exact ⟨s, hs⟩
    · exact nomatch hcheck

/-- What passed the check of its script is read at run time, as instructions with the same opcodes: for every
application and for all nodes, as long as the names in it are known and stand apart where the text is read. Ids fit
into 64 bits. -/
theorem checked_scripts_are_read {text : String} {script : Script} (h : parse text = .ok script) {app : Int}
    (happ : 0 ≤ app) (hfit : Word.fitsSigned64 app = true) {node : String → Option Nat}
    (hnode : ∀ word id, node word = some id → Word.fitsSigned64 id = true)
    (hknown : ∀ body ∈ script.subroutines, ∀ word ∈ names body, word = "app" ∨ (node word).isSome = true)
    (hapart : ∀ body ∈ script.subroutines, NamesApart body.toList) :
    ∀ body ∈ script.subroutines, ∃ filled s z, instantiate script.info.name app node body = .ok filled ∧
      Subroutine.parse filled = .ok s ∧ Subroutine.parse (zeroed body) = .ok z ∧
      s.instructions.map (·.opcode) = z.instructions.map (·.opcode) := by
  intro body hb
  obtain ⟨z, hz⟩ := parse_zeroed h hb
  have hz' := hz
  rw [zeroed_eq, Subroutine.parse, String.toList_ofList] at hz'
  obtain ⟨s, hs, hopcodes⟩ := parseChars_fill numbers_zero (numbers_numeral happ hfit hnode) (hapart body hb) hz'
  refine ⟨_, s, z, instantiate_ok (hknown body hb), ?_, hz, hopcodes⟩
  rw [Subroutine.parse, String.toList_ofList, hs]

/-- Two ids in the places where a text can have numbers: a header, an immediate, a comment, an address, an index and
the end of a range. -/
theorem checked_scripts_are_read_everywhere :
    let body := "# APPID $app\nset R0 -$bob # R$bob$app\narray 9 @$app\nloop: # $bob\nstore R0 @$app[$bob]\n" ++
      "wait_all @$app[0:$bob]\njmp loop\n"
    let node (word : String) : Option Nat := if word = "bob" then some 7 else none
    let script : Script := ⟨⟨"script", [], [], 1⟩, [body]⟩
    parse (".subroutine\n" ++ body) = .ok script ∧ ∀ body ∈ script.subroutines, ∃ filled s z,
      instantiate script.info.name 20 node body = .ok filled ∧
      Subroutine.parse filled = .ok s ∧ Subroutine.parse (zeroed body) = .ok z ∧
      s.instructions.map (·.opcode) = z.instructions.map (·.opcode) := by
  intro body node script
  have h : parse (".subroutine\n" ++ body) = .ok script := by decide +kernel
  refine ⟨h, checked_scripts_are_read h (by decide) (by decide) (fun word id hid => ?_) ?_ ?_⟩
  · obtain ⟨-, hid⟩ := Option.ite_none_right_eq_some.1 hid
    cases hid
    decide
  · decide +kernel
  · decide +kernel

/-- A register named by an application's id passes the check as `R0` and is refused for the application with id 16. -/
theorem register_named_by_app_is_refused :
    let script : Script := ⟨⟨"script", [], [], 1⟩, ["set R$app 1\n"]⟩
    parse ".subroutine\nset R$app 1\n" = .ok script ∧
      (∀ body ∈ script.subroutines, ∀ word ∈ names body, word = "app") ∧
      instantiate script.info.name 16 (fun _ => none) "set R$app 1\n" = .ok "set R16 1\n" ∧
      Subroutine.parse "set R16 1\n" = .error (.invalidOperand "R16" .set 1) := by
  decide +kernel

end QuantumNode.Script
