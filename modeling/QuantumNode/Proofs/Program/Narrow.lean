import Mathlib.Data.Int.ModEq
import QuantumNode.Proofs.Program.Request

/-! Application ids, ids of nodes and sockets, and least fidelities have 64 bits in a program and are kept in 32. What is
kept is the same number just if it fits; another one is taken for its residue, and nothing is said about it. -/
namespace QuantumNode

open Node Text Work Working

/-- What becomes of a number that is kept in 32 bits. -/
structure Word.Narrowed (v kept : Int) : Prop where
  fits : fitsSigned32 kept = true
  residue : kept ≡ v [ZMOD size32]
  same : kept = v ↔ fitsSigned32 v = true

theorem Word.narrowed_signed32 (v : Int) : Narrowed v (signed32 v) where
  fits := fitsSigned32_signed32 v
  residue := Int.bmod_emod
  same := by
    constructor
    · intro h
      rw [← h]
      exact fitsSigned32_signed32 v
    · exact signed32_of_fits

namespace Subroutine

/-- The number in a line that is a header with an application id. -/
def declaredId? (raw : List Char) : Option Int :=
  match trim raw with
  | '#' :: body => if (nextWord body).1 = "APPID".toList then int64? (nextWord (nextWord body).2).1 else none
  | _ => none

/-- The number in the last such line of a text, or else the id that a subroutine has by itself. -/
def declaredId (text : String) : Int :=
  (numberedLines text.toList).foldl (fun id p => (declaredId? p.2).getD id) 0

theorem appId_of_header {l l' : Layout} {number : Nat} {raw body : List Char} (hraw : trim raw = '#' :: body)
    (h : l.header number body = .ok l') : l'.appId = ((declaredId? raw).map Word.signed32).getD l.appId := by
  unfold Layout.header at h
  simp only [declaredId?, hraw]
  simp only at h
  split at h
  · rename_i hkey
    rw [if_pos hkey]
    split at h
    · rename_i hid
      cases h
      rw [hid]
      rfl
    · exact nomatch h
  · rename_i hkey
    rw [if_neg hkey]
    split at h
    · cases h
      rfl
    · cases h
      rfl

theorem appId_of_addLine {l l' : Layout} {number : Nat} {raw : List Char} (h : l.addLine number raw = .ok l') :
    l'.appId = ((declaredId? raw).map Word.signed32).getD l.appId := by
  unfold Layout.addLine at h
  split at h
  · rename_i hraw
    exact appId_of_header hraw h
  · rename_i hraw
    have hnone : declaredId? raw = none := by
      unfold declaredId?
      split
      · rename_i hbody
        exact absurd hbody (hraw _)
      · rfl
    rw [hnone]
    simp only at h
    split at h
    · unfold Layout.addLabel at h
      split at h
      · cases h
      · split at h
        · cases h
        · cases h
          rfl
    · split at h
      · cases h
        rfl
      · cases h
        rfl

/-- Narrowing the number of each header, or that of the last one, comes to the same. -/
theorem appId_of_parse {text : String} {s : Subroutine} (h : parse text = .ok s) :
    s.appId = Word.signed32 (declaredId text) := by
  obtain ⟨l, hl, h⟩ := bind_ok h
  obtain ⟨is, his, h⟩ := bind_ok h
  cases h
  have hstart : Layout.start.appId = Word.signed32 0 := by decide
  have hfold : l.appId =
      (numberedLines text.toList).foldl (fun id p => ((declaredId? p.2).map Word.signed32).getD id) (Word.signed32 0) := by
    rw [← hstart]
    exact foldl_of_foldlM_ok (g := Layout.appId) (fun _ _ _ => appId_of_addLine) hl
  change l.appId = Word.signed32 ((numberedLines text.toList).foldl (fun id p => (declaredId? p.2).getD id) 0)
  rw [hfold]
  refine List.foldl_hom Word.signed32 fun id p => ?_
  cases declaredId? p.2 with
  | none => rfl
  | some id => rfl

end Subroutine

variable {n m : Nat} {w : Working (Node n m) n m}

namespace Execution

/-- A request for pairs, from the numbers that the operands stand for. -/
theorem createPairs_narrows {app : Int} {remote socket qubits arguments results : Value} {mem : AppMemory} {a b c d e : Int}
    (hmem : w.part.apps.get? app = some mem) (ha : mem.resolve remote = .ok a) (hb : mem.resolve socket = .ok b)
    (hc : mem.resolve qubits = .ok c) (hd : mem.resolve arguments = .ok d) (he : mem.resolve results = .ok e) :
    (createPairs app remote socket qubits arguments results).exec w =
      (requestPairs ⟨.create, app, Word.signed32 a, Word.signed32 b, c, d, e⟩).exec w := by
  simp only [createPairs, exec_bind, exec_resolve_of_ok hmem ha, exec_resolve_of_ok hmem hb, exec_resolve_of_ok hmem hc,
    exec_resolve_of_ok hmem hd, exec_resolve_of_ok hmem he]

theorem receivePairs_narrows {app : Int} {remote socket qubits results : Value} {mem : AppMemory} {a b c e : Int}
    (hmem : w.part.apps.get? app = some mem) (ha : mem.resolve remote = .ok a) (hb : mem.resolve socket = .ok b)
    (hc : mem.resolve qubits = .ok c) (he : mem.resolve results = .ok e) :
    (receivePairs app remote socket qubits results).exec w =
      (requestPairs ⟨.receive, app, Word.signed32 a, Word.signed32 b, c, -1, e⟩).exec w := by
  simp only [receivePairs, exec_bind, exec_resolve_of_ok hmem ha, exec_resolve_of_ok hmem hb, exec_resolve_of_ok hmem hc,
    exec_resolve_of_ok hmem he]

end Execution

namespace Pairing

/-- The least fidelity of a task is the third entry of the array of arguments, or none. -/
theorem readArguments_narrows (r : EntanglementRequest) : Ends (readArguments r) w fun t _ =>
    ∃ mem v, w.part.apps.get? r.app = some mem ∧ argument mem r.argumentArray 2 = .ok v ∧
      Word.Narrowed (v.getD 0) t.wanted.minFidelity := by
  refine .bind <| (Execution.memory_ends _).mono fun mem w₁ ⟨hw, hmem⟩ => ?_
  subst hw
  refine .ofExcept fun _ _ => .ofExcept fun _ _ => ?_
  split
  · refine .bind fun _ w₂ _ => .ofExcept fun v hv => ?_
    refine .ofExcept fun _ _ => .ofExcept fun _ _ => .ofExcept fun _ _ => .ofExcept fun _ _ => .ofExcept fun _ _ => ?_
    exact .pure ⟨mem, v, hmem, hv, Word.narrowed_signed32 _⟩
  · exact .fail _

end Pairing

end QuantumNode
