import QuantumNode.Proofs.Node.Primitive

/-! What of a node's work touches the memories of applications or the dispatcher's books. Most of it does neither, so a
relation that looks at nothing else puts up with it. -/
namespace QuantumNode

open Node Work

variable {n m : Nat}

namespace Working

/-- The memories of applications and the dispatcher's books are left alone. -/
structure SameBooks (w w' : Working (Node n m) n m) : Prop where
  apps : w'.part.apps = w.part.apps
  dispatcher : w'.part.dispatcher = w.part.dispatcher

instance : Std.Refl (SameBooks : Working (Node n m) n m → Working (Node n m) n m → Prop) := ⟨fun _ => ⟨rfl, rfl⟩⟩

instance : IsTrans (Working (Node n m) n m) SameBooks :=
  ⟨fun _ _ _ h h' => ⟨h'.apps.trans h.apps, h'.dispatcher.trans h.dispatcher⟩⟩

/-- Relations that look at nothing but the memories of applications and the dispatcher's books. -/
class Bookish (R : Working (Node n m) n m → Working (Node n m) n m → Prop) : Prop extends IsTrans _ R where
  same {w w' : Working (Node n m) n m} (h : SameBooks w w') : R w w'

instance : Bookish (SameBooks : Working (Node n m) n m → Working (Node n m) n m → Prop) where
  same h := h

end Working

open Working

section SameBooks

theorem emit_sameBooks (e : Effect n m) : Within SameBooks (emit e : NodeWork n m Unit) := fun _ => ⟨rfl, rfl⟩

theorem wakeAll_sameBooks (ps : List ProcessId) : Within SameBooks (Work.wakeAll ps : NodeWork n m Unit) :=
  .forM (fun _ => emit_sameBooks _) ps

theorem submit_sameBooks (r : EntanglementRequest) : Within SameBooks (submit r : NodeWork n m Unit) :=
  .of_part fun w => by
    dsimp only
    split
    · exact Within.setPart_bind ⟨rfl, rfl⟩ (emit_sameBooks _)
    · exact ⟨rfl, rfl⟩

theorem notifyMemoryFreed_sameBooks : Within SameBooks (notifyMemoryFreed : NodeWork n m Unit) :=
  .of_part fun _ => Within.setPart_bind ⟨rfl, rfl⟩ (wakeAll_sameBooks _)

theorem notifyArrayWritten_sameBooks : Within SameBooks (notifyArrayWritten : NodeWork n m Unit) :=
  .of_part fun _ => Within.setPart_bind ⟨rfl, rfl⟩ (wakeAll_sameBooks _)

theorem notifyNews_sameBooks : Within SameBooks (notifyNews : NodeWork n m Unit) :=
  .of_part fun _ => Within.setPart_bind ⟨rfl, rfl⟩ (wakeAll_sameBooks _)

theorem removeApp_sameBooks (app : Int) : Within SameBooks (Pairing.removeApp app : NodeWork n m Unit) :=
  Within.bind (fun _ => ⟨rfl, rfl⟩) fun _ => notifyNews_sameBooks

end SameBooks

variable {R : Working (Node n m) n m → Working (Node n m) n m → Prop} [Bookish R]

instance : Bland R where
  refl w := Bookish.same (Std.Refl.refl w)
  emit _ _ _ := Bookish.same ⟨rfl, rfl⟩
  part _ _ h := Bookish.same ⟨h.apps, h.dispatcher⟩
  quantum _ _ := Bookish.same ⟨rfl, rfl⟩

instance (p : ProcessId) : Drowsy p R where
  sleep _ _ := Bookish.same ⟨rfl, rfl⟩
  write _ := Bookish.same ⟨rfl, rfl⟩
  text _ := Bookish.same ⟨rfl, rfl⟩

instance (p : ProcessId) : Standing p R where
  news _ := Bookish.same ⟨rfl, rfl⟩
  request _ := Bookish.same ⟨rfl, rfl⟩

instance (p : ProcessId) : Starving p R where
  count _ := Bookish.same ⟨rfl, rfl⟩
  slot _ := Bookish.same ⟨rfl, rfl⟩

instance : Pooling R where
  freed w := Bookish.same (notifyMemoryFreed_sameBooks w)
  written w := Bookish.same (notifyArrayWritten_sameBooks w)
  news w := Bookish.same (notifyNews_sameBooks w)
  gone w app := Bookish.same (removeApp_sameBooks app w)
  pool _ _ _ := Bookish.same ⟨rfl, rfl⟩

instance : Affable R where
  tell _ _ _ _ := Bookish.same ⟨rfl, rfl⟩
  abort _ _ _ := Bookish.same ⟨rfl, rfl⟩
  hold _ _ _ _ _ _ _ _ := Bookish.same ⟨rfl, rfl⟩

instance (app : Int) : Blaming app R where
  blame _ := Bookish.same ⟨rfl, rfl⟩

instance : Docile R where
  service _ _ _ := Bookish.same ⟨rfl, rfl⟩
  submit w r := Bookish.same (submit_sameBooks r w)

/-- A relation that looks at memories is tame if it puts up with their contents. -/
theorem tame_of_contents (h : ∀ (w : Working (Node n m) n m) (app : Int) (mem mem' : AppMemory),
    w.part.apps.get? app = some mem → mem.Alike mem' →
      R w { w with part := { w.part with apps := w.part.apps.insert app mem' } }) : Tame R where
  contents := h

/-! Applications that stay. -/

theorem Node.hasApp_insert {node : Node n m} {app : Int} {mem mem' : AppMemory} (h : node.apps.get? app = some mem) (a : Int) :
    ({ node with apps := node.apps.insert app mem' } : Node n m).hasApp a = node.hasApp a := by
  unfold hasApp SortedMap.contains
  by_cases ha : a = app
  · subst ha
    simp [h]
  · rw [SortedMap.get?_insert_of_ne _ ha]

/-- An application that is there stays. -/
def Working.Houses (app : Int) (w w' : Working (Node n m) n m) : Prop := w.part.hasApp app = true → w'.part.hasApp app = true

section Houses

variable {app : Int} {w : Working (Node n m) n m}

theorem Working.Houses.of_insert {other : Int} {mem mem' : AppMemory} (h : w.part.apps.get? other = some mem) :
    Houses app w { w with part := { w.part with apps := w.part.apps.insert other mem' } } := fun ha =>
  (hasApp_insert h app).trans ha

instance : Bookish (Houses app : Working (Node n m) n m → Working (Node n m) n m → Prop) where
  trans _ _ _ h h' ha := h' (h ha)
  same h ha := by
    rw [hasApp, h.apps]
    exact ha

instance : Mild (Houses app : Working (Node n m) n m → Working (Node n m) n m → Prop) where
  toTame := tame_of_contents fun _ _ _ _ h _ => .of_insert h
  memory _ _ _ _ h _ := .of_insert h

instance (other : Int) : Granting other (Houses app : Working (Node n m) n m → Working (Node n m) n m → Prop) where
  memory _ _ _ h _ := .of_insert h

end Houses

end QuantumNode
