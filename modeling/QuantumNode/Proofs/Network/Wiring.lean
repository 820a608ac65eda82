import QuantumNode.Proofs.Network.Layout
import QuantumNode.Proofs.Network.Port

/-! Links in use. Several entries of a description may join the same two stacks, one in each direction: the entry that
comes last is the one that the network uses between their nodes. -/
namespace QuantumNode

namespace NetworkConfig

variable {c : NetworkConfig}

/-- An entry joins two stacks, in either direction. -/
def joins (c : NetworkConfig) (i j : Fin c.nodes.length) (l : Fin c.links.length) : Bool :=
  (c.links.get l).joins (c.nodes.get i).name (c.nodes.get j).name

theorem joins_comm (i j : Fin c.nodes.length) : c.joins i j = c.joins j i := by
  funext l
  simp only [joins, LinkConfig.joins, Bool.or_comm]

/-- What is looked up is the first entry. -/
theorem findLink_eq (i j : Fin c.nodes.length) : c.findLink (c.nodes.get i).name (c.nodes.get j).name =
    ((List.finRange c.links.length).find? (c.joins i j)).map c.links.get := by
  have hlinks : c.links = (List.finRange c.links.length).map c.links.get := (List.map_get_finRange _).symm
  calc c.findLink (c.nodes.get i).name (c.nodes.get j).name
      = ((List.finRange c.links.length).map c.links.get).find?
          (·.joins (c.nodes.get i).name (c.nodes.get j).name) := by rw [← hlinks]; rfl
    _ = _ := List.find?_map ..

theorem Sound.index_eq_iff (hc : c.Sound) {a : Nat} {name : String} (ha : c.names[a]? = some name)
    (i : Fin c.nodes.length) : a = i ↔ name = (c.nodes.get i).name := by
  obtain ⟨hlt, hname⟩ := List.getElem?_eq_some_iff.1 ha
  have hi : i.val < c.names.length := by simp [names]
  have hget : c.names[i.val] = (c.nodes.get i).name := by simp [names]
  rw [← hname, ← hget]
  exact hc.distinct.getElem_inj_iff.symm

end NetworkConfig

namespace Network.LaidOut

variable {c : NetworkConfig} {s : Network c.nodes.length c.links.length}

/-- A link lies between the nodes with the names that it joins. -/
theorem joins_iff_between (h : s.LaidOut) (hc : c.Sound) (i j : Fin c.nodes.length) (l : Fin c.links.length) :
    c.joins i j l = true ↔ Between s.links i j l := by
  obtain ⟨a, b, hw, -, ha, hb⟩ := h.links l
  have hnode (e : LinkEnd) : (s.links.get l).link.nodeAt e = (Link.new (c.links.get l) a b).nodeAt e :=
    congrArg (fun w : WiredLink => w.link.nodeAt e) hw
  simp only [NetworkConfig.joins, LinkConfig.joins, Bool.or_eq_true, Bool.and_eq_true, beq_iff_eq, Between, hnode,
    ← hc.index_eq_iff ha, ← hc.index_eq_iff hb]
  constructor
  · rintro (⟨hi, hj⟩ | ⟨hj, hi⟩)
    · exact ⟨.left, hi, hj⟩
    · exact ⟨.right, hi, hj⟩
  · rintro ⟨e, he⟩
    cases e with
    | left => exact .inl he
    | right => exact .inr he.symm

/-- Two nodes use the last link that joins them. -/
theorem linkBetween?_eq (h : s.LaidOut) (hc : c.Sound) {i j : Fin c.nodes.length} (hij : i ≠ j) :
    s.linkBetween? i j = (List.finRange c.links.length).reverse.find? (c.joins i j) := by
  have hapart (l : Fin c.links.length) : (s.links.get l).link.leftNode ≠ (s.links.get l).link.rightNode := by
    obtain ⟨a, b, hw, hab, -⟩ := h.links l
    have hlink : (s.links.get l).link = .new (c.links.get l) a b := congrArg WiredLink.link hw
    rw [hlink]
    exact hab
  rw [linkBetween?, h.ports, ← portsOf_last hapart (h.joins_iff_between hc i j)]
  cases (portsOf s.links i).links.get? j with
  | none => rfl
  | some p => rw [Option.filter_some, if_pos (decide_eq_true hij)]

theorem config_link (h : s.LaidOut) (l : Fin c.links.length) : (s.link l).config = c.links.get l := by
  obtain ⟨a, b, hw, -⟩ := h.links l
  rw [link, hw]
  rfl

end Network.LaidOut

namespace Network

/-- The link between two nodes of an accepted description is that of the last entry that joins their stacks, and both
nodes use it. Where only one entry joins them, this is the entry that the description looks up; where none does, there
is no link. -/
theorem last_entry_is_used {text : String} {c : NetworkConfig} (h : NetworkConfig.parse text = .ok c)
    (hq : c.qubits ≤ 24) {s : Network c.nodes.length c.links.length} (hs : build c = .ok s)
    {i j : Fin c.nodes.length} (hij : i ≠ j) :
    s.linkBetween? i j = (List.finRange c.links.length).reverse.find? (c.joins i j) ∧
    s.linkBetween? j i = s.linkBetween? i j ∧ (∀ l, (s.link l).config = c.links.get l) ∧
    (s.linkBetween? i j = none ↔ c.findLink (c.nodes.get i).name (c.nodes.get j).name = none) ∧
    ((∀ k l, c.joins i j k = true → c.joins i j l = true → k = l) →
      (s.linkBetween? i j).map (fun l => (s.link l).config) =
        c.findLink (c.nodes.get i).name (c.nodes.get j).name) := by
  have hsound := (NetworkConfig.parse_ok h).2
  obtain ⟨s', hs', hlaid⟩ := build_of_sound hsound hq
  obtain rfl : s' = s := Except.ok.inj (hs'.symm.trans hs)
  have hlast := hlaid.linkBetween?_eq hsound hij
  refine ⟨hlast, ?_, hlaid.config_link, ?_, fun hunique => ?_⟩
  · rw [hlast, hlaid.linkBetween?_eq hsound hij.symm, c.joins_comm]
  · rw [hlast, c.findLink_eq, Option.map_eq_none_iff, List.find?_eq_none, List.find?_eq_none]
    simp only [List.mem_reverse]
  · rw [hlast, c.findLink_eq, funext hlaid.config_link]
    refine congrArg (Option.map _) ?_
    cases hfirst : (List.finRange c.links.length).find? (c.joins i j) with
    | none =>
      rw [List.find?_eq_none] at hfirst ⊢
      simpa only [List.mem_reverse] using hfirst
    | some l =>
      have hl : c.joins i j l = true := List.find?_some hfirst
      cases hfind : (List.finRange c.links.length).reverse.find? (c.joins i j) with
      | none => exact absurd hl (List.find?_eq_none.1 hfind l (List.mem_reverse.2 (List.mem_finRange l)))
      | some k => rw [hunique k l (List.find?_some hfind) hl]

end Network

end QuantumNode
