import QuantumNode.Proofs.Ownership.Basic

/-! How the pieces of work that take, map and return qubits change who owns them. -/
namespace QuantumNode

open Work

variable {n m : Nat} {α : Type}

namespace Working

/-- Slots that were held are exchanged for others, whatever else is held. What the device and the slots are good
for stays the same. -/
structure Trades (given taken : List Nat) (w w' : Working (Node n m) n m) : Prop where
  accounted : ∀ others, w.part.Accounted (given ++ others) → w'.part.Accounted (taken ++ others)
  config : w'.part.device.config = w.part.device.config
  communication : ∀ p, w'.part.pool.isCommunication p = w.part.pool.isCommunication p

variable {w w₁ w₂ : Working (Node n m) n m} {a b c : List Nat}

theorem Trades.trans (h : Trades a b w w₁) (h' : Trades b c w₁ w₂) : Trades a c w w₂ :=
  ⟨fun others ha => h'.accounted others (h.accounted others ha), h'.config.trans h.config,
    fun p => (h'.communication p).trans (h.communication p)⟩

/-- Slots that play no part in an exchange stay held. -/
theorem Trades.frame (h : Trades a b w w₁) (others : List Nat) : Trades (a ++ others) (b ++ others) w w₁ :=
  ⟨fun more ha => by
    rw [List.append_assoc] at ha ⊢
    exact h.accounted _ ha, h.config, h.communication⟩

theorem Trades.perm {a' b' : List Nat} (h : Trades a b w w₁) (ha : a'.Perm a) (hb : b.Perm b') : Trades a' b' w w₁ :=
  ⟨fun more hacc => (h.accounted more (hacc.perm (ha.append_right more))).perm (hb.append_right more), h.config,
    h.communication⟩

theorem Thrifty.maps (h : Thrifty w w₁) (app virt : Int) (p : Nat) :
    w₁.part.Maps app virt p ↔ w.part.Maps app virt p := by
  have hq := h.qubits app
  rw [Node.maps_iff, Node.maps_iff]
  unfold AppMemory.phys?
  rcases h₀ : w.part.apps.get? app with _ | mem <;> rcases h₁ : w₁.part.apps.get? app with _ | mem₁
  · simp
  · simp [h₀, h₁] at hq
  · simp [h₀, h₁] at hq
  · simp only [h₀, h₁, Option.map_some, Option.some.injEq] at hq
    simp [hq]

theorem Thrifty.hasApp (h : Thrifty w w₁) (app : Int) : w₁.part.hasApp app = w.part.hasApp app := by
  have hq := congrArg Option.isSome (h.qubits app)
  rwa [Option.isSome_map, Option.isSome_map] at hq

/-- Nobody loses a slot, and applications that have gone do not come back. -/
theorem Thrifty.stillMaps (h : Thrifty w w₁) (he : Enrols w w₁) {app virt : Int} {p : Nat}
    (hm : w.part.StillMaps app virt p) : w₁.part.StillMaps app virt p :=
  hm.mono (h.maps app virt p).2 he.gone

theorem Thrifty.trades (h : Thrifty w w₁) (held : List Nat) : Trades held held w w₁ :=
  ⟨fun _ ha => ha.of_same (h.ascending ha.ascending) h.maps h.pool, h.config, fun p => by rw [h.pool]⟩

/-- An exchange of slots in which no virtual id loses its own. -/
structure Lodges (given taken : List Nat) (w w' : Working (Node n m) n m) : Prop extends Trades given taken w w' where
  keeps : ∀ {app virt p}, w.part.Maps app virt p → w'.part.Maps app virt p

theorem Lodges.trans (h : Lodges a b w w₁) (h' : Lodges b c w₁ w₂) : Lodges a c w w₂ :=
  ⟨h.toTrades.trans h'.toTrades, fun hm => h'.keeps (h.keeps hm)⟩

theorem Thrifty.lodges (h : Thrifty w w₁) (held : List Nat) : Lodges held held w w₁ :=
  ⟨h.trades held, (h.maps ..).2⟩

instance : Std.Refl (Lodges [] [] : Working (Node n m) n m → Working (Node n m) n m → Prop) :=
  ⟨fun w => (Std.Refl.refl w : Thrifty w w).lodges []⟩

instance : IsTrans (Working (Node n m) n m) (Lodges [] []) := ⟨fun _ _ _ h h' => h.trans h'⟩

end Working

open Working

/-- Work in which no virtual id loses its slot, because it leaves qubits alone. -/
theorem Work.Within.lodges {x : NodeWork n m α} (h : Within Thrifty x) : Within (Lodges [] []) x :=
  h.mono fun _ _ h => h.lodges []

namespace Node

variable {w : Working (Node n m) n m}

private theorem setPool_ends {pool : QubitPool} {f : Unit → NodeWork n m α} {Q : α → Working (Node n m) n m → Prop}
    (h : Ends (f ()) { w with part := { w.part with pool := pool } } Q) : Ends (setPool pool >>= f) w Q :=
  .modifyPart h

/-- A slot that is allocated is held from then on. -/
theorem allocate_ends : Ends allocate w fun p w' => Trades [] [p] w w' ∧ w'.part.apps = w.part.apps :=
  .part <| .ofExcept fun a ha => setPool_ends <| .pure <| by
    have ht := QubitPool.takes_of_allocate ha
    exact ⟨⟨fun _ h => h.take ht, rfl, ht.communication⟩, rfl⟩

theorem allocateCommunication_ends : Ends allocateCommunication w fun p w' =>
    (Trades [] [p] w w' ∧ w'.part.apps = w.part.apps) ∧ w.part.pool.isCommunication p = true :=
  .part <| .ofExcept fun a ha => setPool_ends <| .pure <| by
    obtain ⟨ht, hc⟩ := QubitPool.takes_of_allocateCommunication ha
    exact ⟨⟨⟨fun _ h => h.take ht, rfl, ht.communication⟩, rfl⟩, hc⟩

theorem allocate_halts : Halts allocate w (· = w) :=
  .part <| .ofExcept rfl fun _ _ _ _ he => nomatch he

theorem allocateCommunication_halts : Halts allocateCommunication w (· = w) :=
  .part <| .ofExcept rfl fun _ _ _ _ he => nomatch he

/-- What is held can be returned. -/
theorem releaseSlot_ends (p : Nat) :
    Ends (releaseSlot p) w fun _ w' => Trades [p] [] w w' ∧ w'.part.apps = w.part.apps :=
  .part <| .ofExcept fun pool hf _ w' he => by
    obtain ⟨-, rfl⟩ := Prod.mk.inj he
    have hr := QubitPool.returns_of_free hf
    exact ⟨⟨fun _ h => h.giveBack hr, rfl, hr.communication⟩, rfl⟩

theorem releaseSlot_halts (p : Nat) : Halts (releaseSlot p) w (· = w) :=
  .part <| .ofExcept rfl fun _ _ _ _ he => nomatch he

theorem maps_congr {node node' : Node n m} (h : node'.apps = node.apps) (app virt : Int) (p : Nat) :
    node'.Maps app virt p ↔ node.Maps app virt p := by
  unfold Maps
  rw [h]

theorem freeQubit_ends (p : Nat) : Ends (freeQubit p) w fun _ w' =>
    Trades [p] [] w w' ∧ ∀ app virt q, w'.part.Maps app virt q ↔ w.part.Maps app virt q :=
  .bind <| (releaseSlot_ends p).mono fun _ w₁ ⟨ht, ha⟩ =>
    (log_mild _ _ _).still.next fun _ w₂ h₂ u w₃ he => by
      have hs : Thrifty w₁ w₃ := h₂.toThrifty.trans (notifyMemoryFreed_still.of_exec he).toThrifty
      exact ⟨ht.trans (hs.trades []), fun app virt q => (hs.maps app virt q).trans (maps_congr ha app virt q)⟩

private theorem updateMemory_ends (app : Int) (f : AppMemory → Except Fault AppMemory) :
    Ends (updateMemory app f) w fun _ w' => ∃ mem mem', w.part.apps.get? app = some mem ∧ f mem = .ok mem' ∧
      w' = { w with part := { w.part with apps := w.part.apps.insert app mem' } } := fun u w' he => by
  rw [exec_updateMemory] at he
  split at he
  · exact nomatch he
  · rename_i mem hmem
    split at he
    · exact nomatch he
    · rename_i mem' hf
      obtain ⟨-, rfl⟩ := Prod.mk.inj he
      exact ⟨mem, mem', hmem, hf, rfl⟩

theorem updateMemory_halts (app : Int) (f : AppMemory → Except Fault AppMemory) :
    Halts (updateMemory app f) w (· = w) := fun _ _ he => by
  rw [exec_updateMemory] at he
  split at he
  · exact (Prod.mk.inj he).2.symm
  · split at he
    · exact (Prod.mk.inj he).2.symm
    · exact nomatch he

/-- An application that has gone has no memory to be changed. -/
theorem updateMemory_gone {app : Int} (hg : w.part.Gone app) (f : AppMemory → Except Fault AppMemory)
    {Q : Unit → Working (Node n m) n m → Prop} : Ends (updateMemory app f) w Q :=
  (updateMemory_ends app f).mono fun _ _ ⟨mem, _, hmem, _⟩ => by
    simp [Gone, hasApp, SortedMap.contains, hmem] at hg

/-- The qubits of an application after its memory has been replaced. -/
theorem maps_insert {node : Node n m} {app : Int} {mem' : AppMemory} (a v : Int) (q : Nat) :
    ({ node with apps := node.apps.insert app mem' } : Node n m).Maps a v q ↔
      if a = app then ∃ u : Nat, v = u ∧ mem'.phys? u = some q else node.Maps a v q := by
  rw [maps_iff]
  by_cases ha : a = app
  · subst ha
    simp
  · rw [if_neg ha, maps_iff, SortedMap.get?_insert_of_ne _ ha]

/-- A virtual id that is mapped takes over a slot that is held. -/
theorem mapQubit_ends (app virt : Int) (p : Nat) : Ends (mapQubit app virt p) w fun _ w' =>
    Trades [p] [] w w' ∧
      ∀ a v q, w'.part.Maps a v q ↔ w.part.Maps a v q ∨ (a = app ∧ v = virt ∧ q = p) := by
  have hupdate : Ends (updateMemory app (·.mapQubit virt p)) w fun _ w' => Trades [p] [] w w' ∧
      ∀ a v q, w'.part.Maps a v q ↔ w.part.Maps a v q ∨ (a = app ∧ v = virt ∧ q = p) := by
    refine (updateMemory_ends app _).mono fun _ w' ⟨mem, mem', hmem, hmap, hw'⟩ => ?_
    subst hw'
    obtain ⟨u, rfl, hu⟩ := AppMemory.mapQubit_ok hmap
    have hmaps : ∀ a v q, ({ w.part with apps := w.part.apps.insert app mem' } : Node n m).Maps a v q ↔
        w.part.Maps a v q ∨ (a = app ∧ v = u ∧ q = p) := by
      intro a v q
      rw [maps_insert]
      by_cases ha : a = app
      · subst ha
        rw [if_pos rfl, maps_iff]
        rcases hu with ⟨hp, rfl⟩ | ⟨hn, -, hp⟩
        · grind
        · grind
      · simp [ha]
    refine ⟨⟨fun others h => ?_, rfl, fun _ => rfl⟩, hmaps⟩
    refine h.map rfl (h.ascending.insert _ _) (fun q hq => ?_) hmaps
    rcases hu with ⟨hp, -⟩ | ⟨hn, -⟩
    · exact h.apart (maps_iff.2 ⟨mem, hmem, u, rfl, hp⟩) List.mem_cons_self
    · obtain ⟨mem₂, hmem₂, v, hv, hq⟩ := maps_iff.1 hq
      grind
  refine .part ?_
  split
  · split
    · exact .bind fun _ _ _ => .fail _
    · exact hupdate
  · exact hupdate

/-- The slot of a virtual id that is given up is held. -/
theorem unmapQubit_ends {app virt : Int} {p : Nat} (hp : w.part.Maps app virt p) :
    Ends (updateMemory app (·.unmapQubit virt)) w fun _ w' =>
      Trades [] [p] w w' ∧ ∀ a v q, w'.part.Maps a v q ↔ w.part.Maps a v q ∧ ¬ (a = app ∧ v = virt) := by
  refine (updateMemory_ends app _).mono fun _ w' ⟨mem, mem', hmem, hunmap, hw'⟩ => ?_
  subst hw'
  obtain ⟨u, rfl, hu⟩ := AppMemory.unmapQubit_ok hunmap
  have hmaps : ∀ a v q, ({ w.part with apps := w.part.apps.insert app mem' } : Node n m).Maps a v q ↔
      w.part.Maps a v q ∧ ¬ (a = app ∧ v = u) := by
    intro a v q
    rw [maps_insert]
    by_cases ha : a = app
    · subst ha
      rw [if_pos rfl, maps_iff]
      grind
    · simp [ha]
  refine ⟨⟨fun others h => ?_, rfl, fun _ => rfl⟩, hmaps⟩
  refine h.unmap rfl (h.ascending.insert _ _) (fun q => ⟨fun hq => ?_, ?_⟩) (List.nodup_cons.2 ⟨List.not_mem_nil, .nil⟩)
    hmaps
  · obtain rfl := List.mem_singleton.1 hq
    exact ⟨app, u, ⟨rfl, rfl⟩, hp⟩
  · rintro ⟨_, _, ⟨rfl, rfl⟩, hq⟩
    exact List.mem_singleton.2 (hq.unique hp)

/-! Work in which no application gives up a slot. -/

theorem allocate_lodges : Ends allocate w fun p w' => Lodges [] [p] w w' :=
  allocate_ends.mono fun _ _ ⟨ht, ha⟩ => ⟨ht, (maps_congr ha ..).2⟩

theorem allocateCommunication_lodges : Ends allocateCommunication w fun p w' => Lodges [] [p] w w' :=
  allocateCommunication_ends.mono fun _ _ ⟨⟨ht, ha⟩, _⟩ => ⟨ht, (maps_congr ha ..).2⟩

theorem releaseSlot_lodges (p : Nat) : Ends (releaseSlot p) w fun _ w' => Lodges [p] [] w w' :=
  (releaseSlot_ends p).mono fun _ _ ⟨ht, ha⟩ => ⟨ht, (maps_congr ha ..).2⟩

theorem freeQubit_lodges (p : Nat) : Ends (freeQubit p) w fun _ w' => Lodges [p] [] w w' :=
  (freeQubit_ends p).mono fun _ _ ⟨h, hm⟩ => ⟨h, (hm ..).2⟩

theorem mapQubit_lodges (app virt : Int) (p : Nat) : Ends (mapQubit app virt p) w fun _ w' => Lodges [p] [] w w' :=
  (mapQubit_ends app virt p).mono fun _ _ ⟨h, hm⟩ => ⟨h, fun hq => (hm ..).2 (.inl hq)⟩

end Node

end QuantumNode
