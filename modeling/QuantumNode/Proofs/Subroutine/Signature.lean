import QuantumNode.Subroutine.Parser

/-! Operands and the kinds of an opcode's signature: instructions are the same thing as an opcode with operands
of the kinds that it takes. -/
namespace QuantumNode

namespace OperandKind

/-- Whether an operand is of a kind. A branch target is kept as an immediate. -/
def admits : OperandKind → Operand → Bool
  | register, o => o.register?.isSome
  | immediate, o | target, o => o.immediate?.isSome
  | value, o => o.value?.isSome
  | entry, o => o.element?.isSome
  | slice, o => o.slice?.isSome
  | address, o => o.address?.isSome

/-- Whether operands are as many as the kinds, and each is of its kind. -/
def admitAll : List OperandKind → List Operand → Bool
  | k :: ks, o :: os => k.admits o && admitAll ks os
  | [], [] => true
  | _, _ => false

variable {o : Operand} {os : List Operand}

private theorem admitAll_nil : admitAll [] os = true ↔ os = [] := by
  cases os <;> simp [admitAll]

private theorem admitAll_cons {k : OperandKind} {ks : List OperandKind} :
    admitAll (k :: ks) os = true ↔ ∃ o os', k.admits o = true ∧ admitAll ks os' = true ∧ os = o :: os' := by
  cases os <;> simp [admitAll]

theorem length_of_admitAll {ks : List OperandKind} (h : admitAll ks os = true) : os.length = ks.length := by
  fun_induction admitAll ks os with
  | case1 k ks o os ih => rw [List.length_cons, List.length_cons, ih (Bool.and_eq_true_iff.1 h).2]
  | case2 => rfl
  | case3 => exact nomatch h

theorem admits_register : admits register o = true ↔ ∃ r, o = .register r := by
  cases o <;> simp [admits, Operand.register?]

theorem admits_immediate : admits immediate o = true ↔ ∃ v, o = .immediate v := by
  cases o <;> simp [admits, Operand.immediate?]

theorem admits_target : admits target o = true ↔ ∃ v, o = .immediate v := admits_immediate

theorem admits_address : admits address o = true ↔ ∃ a, o = .address a := by
  cases o <;> simp [admits, Operand.address?]

theorem admits_entry : admits entry o = true ↔ ∃ e, o = .entry e := by
  cases o <;> simp [admits, Operand.element?]

theorem admits_slice : admits slice o = true ↔ ∃ s, o = .slice s := by
  cases o <;> simp [admits, Operand.slice?]

theorem admits_value : admits value o = true ↔ ∃ v : Value, o = v.operand := by
  constructor
  · intro h
    cases o with
    | immediate v => exact ⟨.literal v, rfl⟩
    | register r => exact ⟨.register r, rfl⟩
    | address | entry | slice => exact nomatch h
  · rintro ⟨v, rfl⟩
    cases v <;> rfl

end OperandKind

open OperandKind

namespace Instruction

/-- An instruction's operands are of the kinds that its opcode takes. -/
theorem admitAll_operands (i : Instruction) : admitAll i.opcode.signature i.operands = true := by
  have hv (v : Value) : admits value v.operand = true := admits_value.2 ⟨v, rfl⟩
  cases i with
  | branchZero zero => cases zero <;> rfl
  | branch test => cases test <;> simp [opcode, operands, Comparison.opcode, Opcode.signature, admitAll, hv] <;> rfl
  | arithmetic op => cases op <;> simp [opcode, operands, Opcode.signature, admitAll, hv] <;> rfl
  | modular op => cases op <;> simp [opcode, operands, Opcode.signature, admitAll, hv] <;> rfl
  | gate g => cases g <;> rfl
  | rotate axis => cases axis <;> rfl
  | pairGate g => cases g <;> rfl
  | directed axis => cases axis <;> rfl
  | array => simp [opcode, operands, Opcode.signature, admitAll, hv]; rfl
  | createPairs | receivePairs => simp [opcode, operands, Opcode.signature, admitAll, hv]
  | _ => rfl

/-- Operands of the right kinds always make an instruction, which has the opcode and the operands that it was
made of. -/
theorem ofOperands?_of_admitAll {op : Opcode} {os : List Operand} (h : admitAll op.signature os = true) :
    ∃ i, ofOperands? op os = some i ∧ i.opcode = op ∧ i.operands = os := by
  cases op <;> simp only [Opcode.signature, admitAll_cons, admitAll_nil, exists_eq_left, exists_and_left,
    admits_register, admits_immediate, admits_target, admits_value, admits_entry, admits_slice, admits_address] at h
  case qalloc | qfree | init | x | y | z | h | s | k | t | retReg =>
    obtain ⟨_, ⟨r, rfl⟩, rfl⟩ := h
    exact ⟨_, rfl, rfl, rfl⟩
  case set | bez | bnz =>
    obtain ⟨_, ⟨r, rfl⟩, _, ⟨_, ⟨v, rfl⟩, rfl⟩, rfl⟩ := h
    exact ⟨_, rfl, rfl, rfl⟩
  case store | load =>
    obtain ⟨_, ⟨r, rfl⟩, _, ⟨_, ⟨e, rfl⟩, rfl⟩, rfl⟩ := h
    exact ⟨_, rfl, rfl, rfl⟩
  case undef | waitAll | jmp | retArr =>
    obtain ⟨_, ⟨e, rfl⟩, rfl⟩ := h
    exact ⟨_, rfl, rfl, rfl⟩
  case lea | cnot | cphase | meas | breakpoint =>
    obtain ⟨_, ⟨a, rfl⟩, _, ⟨_, ⟨b, rfl⟩, rfl⟩, rfl⟩ := h
    exact ⟨_, rfl, rfl, rfl⟩
  case array =>
    obtain ⟨_, ⟨v, rfl⟩, _, ⟨_, ⟨a, rfl⟩, rfl⟩, rfl⟩ := h
    cases v <;> exact ⟨_, rfl, rfl, rfl⟩
  case rotX | rotY | rotZ =>
    obtain ⟨_, ⟨r, rfl⟩, _, ⟨_, ⟨n, rfl⟩, _, ⟨_, ⟨d, rfl⟩, rfl⟩, rfl⟩, rfl⟩ := h
    exact ⟨_, rfl, rfl, rfl⟩
  case crotX | crotY =>
    obtain ⟨_, ⟨c, rfl⟩, _, ⟨_, ⟨t, rfl⟩, _, ⟨_, ⟨n, rfl⟩, _, ⟨_, ⟨d, rfl⟩, rfl⟩, rfl⟩, rfl⟩, rfl⟩ := h
    exact ⟨_, rfl, rfl, rfl⟩
  case beq | bne | blt | bge =>
    obtain ⟨_, ⟨a, rfl⟩, _, ⟨_, ⟨b, rfl⟩, _, ⟨_, ⟨t, rfl⟩, rfl⟩, rfl⟩, rfl⟩ := h
    cases a <;> cases b <;> exact ⟨_, rfl, rfl, rfl⟩
  case add | sub =>
    obtain ⟨_, ⟨r, rfl⟩, _, ⟨_, ⟨a, rfl⟩, _, ⟨_, ⟨b, rfl⟩, rfl⟩, rfl⟩, rfl⟩ := h
    cases a <;> cases b <;> exact ⟨_, rfl, rfl, rfl⟩
  case addm | subm =>
    obtain ⟨_, ⟨r, rfl⟩, _, ⟨_, ⟨a, rfl⟩, _, ⟨_, ⟨b, rfl⟩, _, ⟨_, ⟨m, rfl⟩, rfl⟩, rfl⟩, rfl⟩, rfl⟩ := h
    cases a <;> cases b <;> cases m <;> exact ⟨_, rfl, rfl, rfl⟩
  case recvEpr =>
    obtain ⟨_, ⟨a, rfl⟩, _, ⟨_, ⟨b, rfl⟩, _, ⟨_, ⟨c, rfl⟩, _, ⟨_, ⟨d, rfl⟩, rfl⟩, rfl⟩, rfl⟩, rfl⟩ := h
    exact ⟨_, ofOperands?_operands (.receivePairs a b c d), rfl, rfl⟩
  case createEpr =>
    obtain ⟨_, ⟨a, rfl⟩, _, ⟨_, ⟨b, rfl⟩, _, ⟨_, ⟨c, rfl⟩, _, ⟨_, ⟨d, rfl⟩, _, ⟨_, ⟨e, rfl⟩, rfl⟩, rfl⟩, rfl⟩,
      rfl⟩, rfl⟩ := h
    exact ⟨_, ofOperands?_operands (.createPairs a b c d e), rfl, rfl⟩

/-- Instructions are an opcode with operands of the kinds that it takes. -/
theorem exists_iff_admitAll {op : Opcode} {os : List Operand} :
    (∃ i : Instruction, i.opcode = op ∧ i.operands = os) ↔ admitAll op.signature os = true := by
  constructor
  · rintro ⟨i, rfl, rfl⟩
    exact admitAll_operands i
  · intro h
    obtain ⟨i, -, hi⟩ := ofOperands?_of_admitAll h
    exact ⟨i, hi⟩

end Instruction

end QuantumNode
