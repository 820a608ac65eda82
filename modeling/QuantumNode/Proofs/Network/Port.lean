import QuantumNode.Network.Basic
import QuantumNode.Proofs.Entanglement.Link
import Mathlib.Data.List.Induction

/-! The ports of nodes: where the links of a network lead. -/
namespace QuantumNode

variable {m : Nat}

namespace Network

/-- A node's ports with one link more, if it ends there. -/
def addPort (links : Vector WiredLink m) (node : Nat) (ports : LinkPorts m) (l : Fin m) : LinkPorts m :=
  match (links.get l).link.endAt? node with
  | some e => { ports with links := ports.links.insert ((links.get l).link.nodeAt e.opposite) (l, e) }
  | none => ports

/-- A link lies between two nodes. -/
def Between (links : Vector WiredLink m) (a b : Nat) (l : Fin m) : Prop :=
  ∃ e, (links.get l).link.nodeAt e = a ∧ (links.get l).link.nodeAt e.opposite = b

theorem Between.symm {links : Vector WiredLink m} {a b : Nat} {l : Fin m} (h : Between links a b l) :
    Between links b a l := by
  obtain ⟨e, ha, hb⟩ := h
  exact ⟨e.opposite, hb, by rw [LinkEnd.opposite_opposite, ha]⟩

section

variable {links : Vector WiredLink m} (hl : ∀ l, (links.get l).link.leftNode ≠ (links.get l).link.rightNode)

include hl

theorem addPort_of_end {node : Nat} {l : Fin m} {e : LinkEnd} (h : (links.get l).link.nodeAt e = node)
    (ports : LinkPorts m) :
    (addPort links node ports l).links = ports.links.insert ((links.get l).link.nodeAt e.opposite) (l, e) := by
  unfold addPort
  rw [(Link.endAt?_eq_some (hl l)).2 h]

theorem addPort_of_ne {node : Nat} {l : Fin m} (h : ∀ e, (links.get l).link.nodeAt e ≠ node) (ports : LinkPorts m) :
    addPort links node ports l = ports := by
  unfold addPort
  cases he : (links.get l).link.endAt? node with
  | none => rfl
  | some e => exact absurd ((Link.endAt?_eq_some (hl l)).1 he) (h e)

theorem get?_addPort_of_end {a b : Nat} {l : Fin m} {e : LinkEnd} (ha : (links.get l).link.nodeAt e = a)
    (hb : (links.get l).link.nodeAt e.opposite = b) (ports : LinkPorts m) :
    (addPort links a ports l).links.get? b = some (l, e) := by
  rw [addPort_of_end hl ha, hb, SortedMap.get?_insert_self]

/-- A link that does not lie between two nodes changes neither's port to the other. -/
theorem get?_addPort_of_not {a b : Nat} {l : Fin m} (h : ¬ Between links a b l) (ports : LinkPorts m) :
    (addPort links a ports l).links.get? b = ports.links.get? b := by
  by_cases ha : ∃ e, (links.get l).link.nodeAt e = a
  · obtain ⟨e, he⟩ := ha
    rw [addPort_of_end hl he]
    exact SortedMap.get?_insert_of_ne _ (fun hb => h ⟨e, he, by omega⟩) _
  · rw [addPort_of_ne hl fun e he => ha ⟨e, he⟩]

/-- The ports of a node lead to the far ends of its links. -/
theorem portsOf_ends (node : Nat) {r : Int} {l : Fin m} {e : LinkEnd}
    (h : (portsOf links node).links.get? r = some (l, e)) :
    (links.get l).link.nodeAt e = node ∧ r = (links.get l).link.nodeAt e.opposite := by
  let Good (ports : LinkPorts m) : Prop := ∀ r l e, ports.links.get? r = some (l, e) →
    (links.get l).link.nodeAt e = node ∧ r = (links.get l).link.nodeAt e.opposite
  have hfold : ∀ (xs : List (Fin m)) (ports : LinkPorts m),
      Good ports → Good (xs.foldl (addPort links node) ports) := by
    intro xs
    induction xs with
    | nil => exact fun _ h => h
    | cons i xs ih =>
      intro ports hg
      refine ih _ ?_
      by_cases hi : ∃ e, (links.get i).link.nodeAt e = node
      · obtain ⟨e, he⟩ := hi
        intro r l o hr
        rw [addPort_of_end hl he] at hr
        by_cases hk : r = (links.get i).link.nodeAt e.opposite
        · subst hk
          rw [SortedMap.get?_insert_self] at hr
          cases hr
          exact ⟨he, rfl⟩
        · rw [SortedMap.get?_insert_of_ne _ hk] at hr
          exact hg r l o hr
      · rw [addPort_of_ne hl fun e he => hi ⟨e, he⟩]
        exact hg
  exact hfold (List.finRange m) .new (fun _ _ _ h => nomatch h) r l e h

/-- Two nodes agree on the link between them. -/
theorem portsOf_shared {a b : Nat} {l : Fin m} {e : LinkEnd} (h : (portsOf links a).links.get? b = some (l, e)) :
    (portsOf links b).links.get? a = some (l, e.opposite) := by
  let Agree (x y : LinkPorts m) : Prop := ∀ l e, x.links.get? b = some (l, e) → y.links.get? a = some (l, e.opposite)
  have hapart : ∀ l e, (links.get l).link.nodeAt e.opposite ≠ (links.get l).link.nodeAt e := fun l e => by
    cases e with
    | left => exact (hl l).symm
    | right => exact hl l
  have hfold : ∀ (xs : List (Fin m)) (x y : LinkPorts m), Agree x y →
      Agree (xs.foldl (addPort links a) x) (xs.foldl (addPort links b) y) := by
    intro xs
    induction xs with
    | nil => exact fun _ _ h => h
    | cons i xs ih =>
      intro x y hxy
      refine ih _ _ fun l o hr => ?_
      -- The link that is added lies between the two nodes, or counts at neither for the other.
      by_cases hi : Between links a b i
      · obtain ⟨e, hea, heb⟩ := hi
        rw [get?_addPort_of_end hl hea heb] at hr
        cases hr
        exact get?_addPort_of_end hl heb (by rw [LinkEnd.opposite_opposite, hea]) y
      · rw [get?_addPort_of_not hl hi] at hr
        rw [get?_addPort_of_not hl (mt Between.symm hi)]
        exact hxy l o hr
  exact hfold (List.finRange m) .new .new (fun _ _ h => nomatch h) l e h

/-- The port of a node to another one leads to the last link between them. -/
theorem portsOf_last {a b : Nat} {p : Fin m → Bool} (hp : ∀ l, p l = true ↔ Between links a b l) :
    ((portsOf links a).links.get? b).map Prod.fst = (List.finRange m).reverse.find? p := by
  have hfold (xs : List (Fin m)) :
      ((xs.foldl (addPort links a) .new).links.get? b).map Prod.fst = xs.reverse.find? p := by
    induction xs using List.reverseRecOn with
    | nil => rfl
    | append_singleton xs i ih =>
      rw [List.foldl_append, List.foldl_cons, List.foldl_nil, List.reverse_concat]
      by_cases hi : Between links a b i
      · obtain ⟨e, hea, heb⟩ := id hi
        rw [get?_addPort_of_end hl hea heb, List.find?_cons_of_pos ((hp i).2 hi)]
        rfl
      · rw [get?_addPort_of_not hl hi, List.find?_cons_of_neg (mt (hp i).1 hi), ih]
  exact hfold (List.finRange m)

end

end Network

end QuantumNode
