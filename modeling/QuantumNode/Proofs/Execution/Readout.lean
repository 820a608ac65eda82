import QuantumNode.Proofs.Execution.Interlude
import QuantumNode.Proofs.Isolation.Frame
import QuantumNode.Proofs.Subroutine.Operand

/-! Measuring a qubit at a carbon of an NV device. The qubit moves to the electron, and one that is there makes way to a
spare carbon. From the moment that the electron is known to be an application's no slot is left for the pair service, so
that nothing else is moved meanwhile. -/
namespace QuantumNode

open Node Work Working

variable {n m : Nat}

/-! ### What a device permits -/

namespace Device

variable {d d' : Device} {c : DeviceCall} {carbon : Nat}

theorem refusal_congr (h : d'.config = d.config) (c : DeviceCall) : d'.refusal c = d.refusal c := by
  unfold refusal size
  rw [h]

/-- A call that is permitted takes its time. -/
theorem exists_duration (h : d.refusal c = none) : ∃ t, d.duration c = .ok t := by
  unfold duration
  rw [h]
  dsimp only
  split
  · exact ⟨_, rfl⟩
  · exact ⟨_, rfl⟩

/-- An NV device does what can be done at the first of the positions, all of which it has. -/
theorem refusal_nv (hnv : d.config.isNV = true) (hl : c.positions.length = c.op.arity) (hp : ∀ q ∈ c.positions, q < d.size)
    (hs : samePair c.positions = false) (hcan : nvCan c.op (c.positions.headD 0 = 0) = true) : d.refusal c = none := by
  have hfind : c.positions.find? (d.size ≤ ·) = none := List.find?_eq_none.2 fun q hq => by simpa using hp q hq
  unfold refusal
  rw [if_neg (by simp [hl]), hfind]
  dsimp only
  rw [if_neg (by simp [hs])]
  cases hc : d.config with
  | generic g => simp [hc, DeviceConfig.isNV] at hnv
  | nv v => exact if_pos hcan

variable (hnv : d.config.isNV = true)

include hnv

/-- An NV device initialises every position that it has. -/
theorem refusal_init (hlt : carbon < d.size) (angle : Float) : d.refusal ⟨.init, [carbon], angle⟩ = none :=
  refusal_nv hnv rfl (by simpa using hlt) rfl rfl

/-- It turns, and measures, the electron. -/
theorem refusal_electron {op : Operation} (hop : op = .rotX ∨ op = .rotY ∨ op = .measure) (hlt : 0 < d.size) (angle : Float) :
    d.refusal ⟨op, [0], angle⟩ = none := by
  rcases hop with rfl | rfl | rfl
  · exact refusal_nv hnv rfl (by simpa using hlt) rfl rfl
  · exact refusal_nv hnv rfl (by simpa using hlt) rfl rfl
  · exact refusal_nv hnv rfl (by simpa using hlt) rfl rfl

/-- And it turns a carbon by the electron. -/
theorem refusal_directed {op : Operation} (hop : op = .directedX ∨ op = .directedY) (h0 : carbon ≠ 0) (hlt : carbon < d.size)
    (angle : Float) : d.refusal ⟨op, [0, carbon], angle⟩ = none := by
  have hp : ∀ q ∈ [0, carbon], q < d.size := by
    intro q hq
    rcases List.mem_pair.1 hq with rfl | rfl
    · exact Nat.zero_lt_of_lt hlt
    · exact hlt
  have hs : samePair [0, carbon] = false := by simpa [samePair] using Ne.symm h0
  rcases hop with rfl | rfl
  · exact refusal_nv hnv rfl hp hs rfl
  · exact refusal_nv hnv rfl hp hs rfl

/-- So that it permits every call by which a qubit moves between the electron and a carbon. -/
theorem refusal_moves (h0 : carbon ≠ 0) (hlt : carbon < d.size) {mv : Move}
    (hmv : mv ∈ Relocation.toCarbon carbon ++ Relocation.toElectron carbon) : d.refusal (Execution.moveCall mv) = none := by
  have hpos : 0 < d.size := Nat.zero_lt_of_lt hlt
  simp only [Relocation.toCarbon, Relocation.toElectron, Relocation.transfer, List.cons_append, List.nil_append,
    List.mem_cons, List.not_mem_nil, or_false] at hmv
  rcases hmv with rfl | rfl | rfl | rfl | rfl | rfl | rfl | rfl | rfl | rfl | rfl
  · exact refusal_init hnv hlt _
  · exact refusal_electron hnv (.inr (.inl rfl)) hpos _
  · exact refusal_directed hnv (.inr rfl) h0 hlt _
  · exact refusal_electron hnv (.inl rfl) hpos _
  · exact refusal_directed hnv (.inl rfl) h0 hlt _
  · exact refusal_init hnv hpos _
  · exact refusal_electron hnv (.inr (.inl rfl)) hpos _
  · exact refusal_directed hnv (.inr rfl) h0 hlt _
  · exact refusal_electron hnv (.inl rfl) hpos _
  · exact refusal_directed hnv (.inl rfl) h0 hlt _
  · exact refusal_electron hnv (.inr (.inl rfl)) hpos _

end Device

/-! ### A slot for another -/

/-- Which slots virtual ids of applications stand for. -/
abbrev Seating := Int → Int → Nat → Prop

namespace Seating

variable {seats : Seating} {app virt a v : Int} {slot q : Nat}

/-- One virtual id takes a slot. -/
def move (seats : Seating) (app virt : Int) (slot : Nat) : Seating := fun a v q =>
  if a = app ∧ v = virt then q = slot else seats a v q

theorem move_self : seats.move app virt slot app virt q ↔ q = slot := by
  rw [move, if_pos ⟨rfl, rfl⟩]

theorem move_of_ne (h : ¬ (a = app ∧ v = virt)) : seats.move app virt slot a v q ↔ seats a v q := by
  rw [move, if_neg h]

end Seating

namespace Working

/-- A virtual id is at one slot now, and everything else is as it was. -/
structure Reseats (app virt : Int) (slot : Nat) (w w' : Working (Node n m) n m) : Prop where
  device : w'.part.device = w.part.device
  pool : w'.part.pool = w.part.pool
  ascending : w'.part.apps.Ascending
  hasApp : ∀ a, w'.part.hasApp a = w.part.hasApp a
  seats : ∀ a v q, w'.part.Maps a v q ↔ Seating.move w.part.Maps app virt slot a v q

end Working

namespace Execution

variable {w : Working (Node n m) n m} {app virt : Int} {slot old : Nat}

/-- A virtual id gives up its slot and takes one that nobody maps. -/
theorem reseat_attains (hasc : w.part.apps.Ascending) (hm : w.part.Maps app virt old) (hfree : ∀ a v, ¬ w.part.Maps a v slot) :
    Attains (do updateMemory app (·.unmapQubit virt); mapQubit app virt slot : NodeWork n m Unit) w fun _ w' =>
      Reseats app virt slot w w' := by
  obtain ⟨mem, hmem, v, rfl, hold⟩ := maps_iff.1 hm
  have hunmapped : ∀ u, mem.phys? u ≠ some slot := fun u hu => hfree app u (maps_iff.2 ⟨mem, hmem, u, rfl, hu⟩)
  obtain ⟨mem₁, mem', hunmap, hfree₁, hmap, hmoves⟩ := AppMemory.exists_moves hold hunmapped
  refine .bind <| (updateMemory_attains hmem hunmap).mono fun _ w₁ hw₁ => ?_
  have hmem₁ : w₁.part.apps.get? app = some mem₁ := by rw [hw₁, SortedMap.get?_insert_self]
  have howner : w₁.part.owner? slot = none := by
    subst hw₁
    refine owner?_eq_none (hasc.insert _ _) fun a u hu => ?_
    rw [maps_insert] at hu
    split at hu
    · obtain ⟨u, -, hu⟩ := hu
      exact hfree₁ u hu
    · exact hfree a u hu
  refine (mapQubit_attains hmem₁ howner hmap).mono fun _ w₂ hw₂ => ?_
  have hasc₁ : w₁.part.apps.Ascending := hw₁ ▸ hasc.insert _ _
  subst hw₂
  refine ⟨by rw [hw₁], by rw [hw₁], hasc₁.insert _ _, fun a => ?_, fun a u q => ?_⟩
  · rw [hasApp_insert hmem₁, hw₁, hasApp_insert hmem]
  · rw [maps_insert]
    by_cases ha : a = app
    · subst ha
      rw [if_pos rfl]
      constructor
      · rintro ⟨u, rfl, hu⟩
        rw [hmoves.phys?] at hu
        split at hu
        · rename_i huv
          rw [huv, Seating.move_self]
          exact (Option.some.inj hu).symm
        · rename_i huv
          refine (Seating.move_of_ne fun h => huv (Int.ofNat.inj h.2)).2 ?_
          exact maps_iff.2 ⟨mem, hmem, u, rfl, hu⟩
      · intro h
        by_cases huv : u = v
        · rw [huv, Seating.move_self] at h
          exact ⟨v, huv, by rw [hmoves.phys?, if_pos rfl, h]⟩
        · rw [Seating.move_of_ne fun h => huv h.2] at h
          obtain ⟨mem₀, hmem₀, u, rfl, hu⟩ := maps_iff.1 h
          rw [hmem] at hmem₀
          cases hmem₀
          exact ⟨u, rfl, by rwa [hmoves.phys?, if_neg fun h => huv (congrArg _ h)]⟩
    · rw [if_neg ha, Seating.move_of_ne fun h => ha h.1, hw₁, maps_insert, if_neg ha]

end Execution

/-! ### A readout under way -/

/-- A node at which an application reads a qubit out: its slots are those of a pool, mapped as described. The pair service
holds none, and there is none for it. -/
structure Node.Stands (node : Node n m) (d : Device) (pool : QubitPool) (seats : Seating) (app : Int)
    (stage : PairStage) : Prop where
  config : node.device.config = d.config
  slots : node.pool = pool
  ascending : node.apps.Ascending
  seats : ∀ a v q, node.Maps a v q ↔ seats a v q
  hasApp : node.hasApp app = true
  held : stage.held = []
  exhausted : pool.Exhausted

namespace Node.Stands

variable {d : Device} {pool : QubitPool} {seats : Seating} {app : Int} {stage stage' : PairStage}
  {w w' : Working (Node n m) n m}

theorem thrifty (h : w.part.Stands d pool seats app stage) (ht : Thrifty w w') : w'.part.Stands d pool seats app stage where
  config := ht.config.trans h.config
  slots := ht.pool.trans h.slots
  ascending := ht.ascending h.ascending
  seats a v q := (ht.maps a v q).trans (h.seats a v q)
  hasApp := (ht.hasApp app).trans h.hasApp
  held := h.held
  exhausted := h.exhausted

theorem idle (h : w.part.Stands d pool seats app stage) (hi : Idle w w') : w'.part.Stands d pool seats app stage :=
  h.thrifty (.of_eq hi.config hi.pool hi.apps)

/-- Whatever the rest of the node does meanwhile. -/
theorem interlude (h : w.part.Stands d pool seats app stage) (hi : Execution.Interlude stage w stage' w') :
    w'.part.Stands d pool seats app stage' := by
  obtain ⟨ht, hs⟩ := hi.thrifty h.held (h.slots ▸ h.exhausted)
  exact { h.thrifty ht with held := hs }

theorem reseats {b virt : Int} {slot : Nat} (h : w.part.Stands d pool seats app stage) (hr : Reseats b virt slot w w') :
    w'.part.Stands d pool (seats.move b virt slot) app stage where
  config := by
    rw [hr.device]
    exact h.config
  slots := hr.pool.trans h.slots
  ascending := hr.ascending
  seats a v q := by
    rw [hr.seats, Seating.move, Seating.move, h.seats]
  hasApp := (hr.hasApp app).trans h.hasApp
  held := h.held
  exhausted := h.exhausted

end Node.Stands

namespace Execution

variable {p : ProcessId} {Done : Working (Node n m) n m → Prop} {Raised : Fault → Working (Node n m) n m → Prop}
  {s : Subroutine} {stage : PairStage} {w : Working (Node n m) n m}

/-- The program counter of an application that is there moves on. -/
theorem advance_thrifty {app : Int} (hm : w.part.hasApp app = true) : Attains (advance app) w fun _ w' => Thrifty w w' := by
  obtain ⟨mem, hmem⟩ := Option.isSome_iff_exists.1 hm
  have hadvance := updateMemory_attains hmem (f := fun mem => .ok mem.incrementPc) rfl
  exact (hadvance.within (advance_counting (R := Thrifty) app)).mono fun _ _ h => h.1

/-- A measurement that has been made is noted, and the next instruction is fetched. -/
theorem reading_attains (c : DeviceCall) {dest : Register} (hd : dest.Legible) (hm : w.part.hasApp s.appId = true) :
    Attains (step p ⟨s, .reading c dest⟩) w fun flow w' => flow = .go ⟨s, .fetch⟩ ∧ Thrifty w w' := by
  refine .bind <| ((finishCall_attains c).within (finishCall_mild (R := Thrifty) c)).mono fun out w₁ ⟨h₁, _⟩ => ?_
  obtain ⟨mem, hmem⟩ := Option.isSome_iff_exists.1 ((h₁.hasApp s.appId).trans hm)
  obtain ⟨i, hi⟩ := Register.slot?_of_legible hd
  have hset : mem.setRegister dest (out.map Int.ofNat) =
      .ok { mem with registers := mem.registers.set i (out.map Int.ofNat) i.isLt } := by
    unfold AppMemory.setRegister
    rw [hi]
  refine .bind <| ((updateMemory_attains hmem hset).within (setRegister_mild (R := Thrifty) s.appId dest
    (out.map Int.ofNat))).mono ?_
  rintro _ w₂ ⟨h₂, -⟩
  have hm₂ : w₂.part.hasApp s.appId = true := ((h₁.trans h₂).hasApp s.appId).trans hm
  exact .bind <| (advance_thrifty hm₂).mono fun _ w₃ h₃ => .pure ⟨rfl, (h₁.trans h₂).trans h₃⟩

section Stands

variable {d : Device} {pool : QubitPool} {seats : Seating}

/-- The device is asked for a call that it permits, and the rest of the node goes on until the call is done. -/
theorem call_attains {e : Execution} {c : DeviceCall} (hs : w.part.Stands d pool seats s.appId stage)
    (hc : d.refusal c = none) (he : issued? e.stage = some c)
    (h : ∀ stage' w', w'.part.Stands d pool seats s.appId stage' → Ensues p Done Raised e stage' w') :
    Attains (do startCall p c; return .rest e : NodeWork n m (Step m)) w fun flow w' => ∃ e', flow = .rest e' ∧
      (∀ c, issued? e'.stage = some c → w'.part.device.refusal c = none) ∧
        ∀ stage' w'', Interlude stage w' stage' w'' → Ensues p Done Raised e' stage' w'' := by
  have hcw : w.part.device.refusal c = none := (Device.refusal_congr hs.config c).trans hc
  obtain ⟨t, ht⟩ := Device.exists_duration hcw
  refine .bind <| (startCall_attains ht).mono fun _ w₁ h₁ => .pure ⟨e, rfl, fun c' hc' => ?_, fun stage' w₂ h₂ => ?_⟩
  · rw [he] at hc'
    cases hc'
    rwa [Device.refusal_congr h₁.config]
  · exact h stage' w₂ ((hs.idle h₁).interlude h₂)

/-- The calls of a move follow one another, and what happens after the last is left to be said. -/
theorem moving_ensues {r : Readout} {owner : Option (Int × Int)} {steps : List RelocationStep} {calls : List DeviceCall}
    (hcalls : ∀ c ∈ calls, d.refusal c = none)
    (hlast : ∀ c stage (w : Working (Node n m) n m), w.part.Stands d pool seats s.appId stage →
      Ensues p Done Raised ⟨s, .moving r owner c [] steps⟩ stage w) (c : DeviceCall)
    (hs : w.part.Stands d pool seats s.appId stage) : Ensues p Done Raised ⟨s, .moving r owner c calls steps⟩ stage w := by
  induction calls generalizing c stage w with
  | nil => exact hlast c stage w hs
  | cons c' calls ih =>
    obtain ⟨hc', hcalls⟩ := List.forall_mem_cons.1 hcalls
    refine .of_rest <| .bind <| (finishCall_attains c).mono fun _ w₁ ⟨h₁, _⟩ => ?_
    exact call_attains (hs.idle h₁) hc' rfl fun stage' w' hs' => ih hcalls c' hs'

variable {r : Readout}

/-- The qubit moves from its carbon to the electron, which is its virtual id's already; the carbon is returned, and the
electron measured. -/
theorem fromCarbon_ensues (hnv : d.config.isNV = true) (h0 : r.target ≠ 0) (hlt : r.target < d.size)
    (ha : pool.isAllocated r.target = true) (hc : pool.isCommunication r.target = false) (hd : r.dest.Legible)
    (hs : w.part.Stands d pool seats s.appId stage)
    (hdone : ∀ pool' stage' (w' : Working (Node n m) n m), pool.Returns pool' r.target →
      w'.part.Stands d pool' seats s.appId stage' → Done w') :
    Ensues p Done Raised ⟨s, .relocating r [.moveCarbonToElectron, .freeCarbon, .measureElectron]⟩ stage w := by
  have hfree : pool.free r.target = .ok (pool.setAllocated r.target false) := if_pos ha
  have hr := QubitPool.returns_of_free hfree
  have hx : (pool.setAllocated r.target false).Exhausted := fun slot hslot => by
    rw [hr.communication] at hslot
    rw [hr.allocated, if_neg]
    · exact hs.exhausted slot hslot
    · rintro rfl
      rw [hslot] at hc
      exact nomatch hc
  -- From the last step to the first: what each comes to is what the next begins with.
  have hread : ∀ c stage (w : Working (Node n m) n m),
      w.part.Stands d (pool.setAllocated r.target false) seats s.appId stage →
        Ensues p Done Raised ⟨s, .reading c r.dest⟩ stage w := by
    intro c stage w hs
    refine .of_end <| (reading_attains c hd hs.hasApp).mono fun flow w' ⟨hf, ht⟩ => ?_
    exact ⟨_, hf, rfl, hdone _ stage w' hr (hs.thrifty ht)⟩
  have hmeasure : ∀ stage (w : Working (Node n m) n m),
      w.part.Stands d (pool.setAllocated r.target false) seats s.appId stage →
        Ensues p Done Raised ⟨s, .relocating r [.measureElectron]⟩ stage w := by
    intro stage w hs
    refine .of_rest <| .bind <| (log_attains _ _ _).mono fun _ w₁ h₁ => ?_
    have hpermitted := Device.refusal_electron hnv (.inr (.inr rfl)) (Nat.zero_lt_of_lt hlt) 0.0
    exact call_attains (hs.idle (.of_part h₁)) hpermitted rfl fun stage' w' hs' => hread _ stage' w' hs'
  have hgive : ∀ stage (w : Working (Node n m) n m), w.part.Stands d pool seats s.appId stage →
      Ensues p Done Raised ⟨s, .relocating r [.freeCarbon, .measureElectron]⟩ stage w := by
    intro stage w hs
    refine .of_go <| .bind <| (log_attains _ _ _).mono fun _ w₁ h₁ => ?_
    have hs₁ := hs.idle (.of_part h₁)
    have hfree₁ : w₁.part.pool.free r.target = .ok (pool.setAllocated r.target false) := by rw [hs₁.slots, hfree]
    refine .bind <| (freeQubit_attains hfree₁).mono fun _ w₂ h₂ => .pure ⟨_, rfl, nofun, hmeasure stage w₂ ?_⟩
    have hreturned : ({ w₁ with part := { w₁.part with pool := pool.setAllocated r.target false } } :
        Working (Node n m) n m).part.Stands d (pool.setAllocated r.target false) seats s.appId stage :=
      { hs₁ with slots := rfl, exhausted := hx }
    exact Stands.idle hreturned h₂
  refine .of_rest <| .bind <| (log_attains _ _ _).mono fun _ w₁ h₁ => ?_
  have hcalls : ∀ c ∈ (Relocation.toElectron r.target).map moveCall, d.refusal c = none := by
    intro c hc
    obtain ⟨mv, hmv, rfl⟩ := List.mem_map.1 hc
    exact Device.refusal_moves hnv h0 hlt (List.mem_append_right _ hmv)
  obtain ⟨hfirst, hcalls⟩ := List.forall_mem_cons.1 hcalls
  refine call_attains (hs.idle (.of_part h₁)) hfirst rfl fun stage' w' hs' => moving_ensues hcalls ?_ _ hs'
  intro c stage w hs
  refine .of_go <| .bind <| (finishCall_attains c).mono fun _ w₂ ⟨h₂, _⟩ => ?_
  exact .bind <| .pure <| .pure ⟨_, rfl, nofun, hgive stage w₂ (hs.idle h₂)⟩

/-- The qubit that is at the electron makes way for the one that is measured. -/
theorem exchangeOwners_attains {e : Execution} {app virt : Int} (hs : w.part.Stands d pool seats e.app stage)
    (hm : seats e.app r.virt r.target) (ho : seats app virt 0) (hsole : ∀ a v, seats a v 0 → a = app ∧ v = virt) (hne : ¬ (e.app = app ∧ r.virt = virt))
    (hun : ∀ a v, ¬ seats a v r.spare) (h0 : r.spare ≠ 0) :
    Attains (exchangeOwners e r (app, virt)) w fun _ w' =>
      w'.part.Stands d pool ((seats.move app virt r.spare).move e.app r.virt 0) e.app stage := by
  refine .bind <| (log_attains _ _ _).mono fun _ w₁ h₁ => ?_
  have hs₁ := hs.idle (.of_part h₁)
  obtain ⟨_, w₂, hx, h₂⟩ :=
    reseat_attains hs₁.ascending ((hs₁.seats ..).2 ho) fun a v h => hun a v ((hs₁.seats ..).1 h)
  obtain ⟨_, _, hunmap, hmap⟩ := exec_bind_ok.1 hx
  have hs₂ := hs₁.reseats h₂
  refine .next hunmap <| .next hmap <| .bind ?_
  have hvirt : w₂.part.Maps e.app r.virt r.target := by rwa [hs₂.seats, Seating.move_of_ne hne]
  refine (reseat_attains hs₂.ascending hvirt fun a v (h : w₂.part.Maps a v 0) => ?_).mono fun _ w₃ h₃ => ?_
  · rw [hs₂.seats] at h
    by_cases hav : a = app ∧ v = virt
    · rw [hav.1, hav.2, Seating.move_self] at h
      exact h0 h.symm
    · rw [Seating.move_of_ne hav] at h
      exact hav (hsole a v h)
  · have hs₃ := hs₂.reseats h₃
    exact ⟨(), _, rfl, hs₃.idle ⟨rfl, rfl, rfl⟩⟩

/-- The qubit at the electron moves to the spare carbon, and its virtual id with it; then the electron is the measured
qubit's. -/
theorem toCarbon_ensues {app virt : Int} {steps : List RelocationStep} (hnv : d.config.isNV = true)
    (hs : w.part.Stands d pool seats s.appId stage) (howner : w.part.owner? 0 = some (app, virt))
    (hm : seats s.appId r.virt r.target) (hsole : ∀ a v, seats a v 0 → a = app ∧ v = virt)
    (hne : ¬ (s.appId = app ∧ r.virt = virt)) (hun : ∀ a v, ¬ seats a v r.spare) (h0 : r.spare ≠ 0) (hlt : r.spare < d.size)
    (hnext : ∀ stage' (w' : Working (Node n m) n m),
      w'.part.Stands d pool ((seats.move app virt r.spare).move s.appId r.virt 0) s.appId stage' →
        Ensues p Done Raised ⟨s, .relocating r steps⟩ stage' w') :
    Ensues p Done Raised ⟨s, .relocating r (.moveElectronToCarbon :: steps)⟩ stage w := by
  have ho : seats app virt 0 := (hs.seats ..).1 (maps_of_owner? hs.ascending howner)
  have hcalls : ∀ c ∈ (Relocation.toCarbon r.spare).map moveCall, d.refusal c = none := by
    intro c hc
    obtain ⟨mv, hmv, rfl⟩ := List.mem_map.1 hc
    exact Device.refusal_moves hnv h0 hlt (List.mem_append_left _ hmv)
  obtain ⟨hfirst, hcalls⟩ := List.forall_mem_cons.1 hcalls
  refine .of_rest <| .bind <| (log_attains _ _ _).mono fun _ w₁ h₁ => ?_
  have hx : (electronOwner r).exec w₁ = (.ok (app, virt), w₁) := by
    simp only [electronOwner, exec_bind, exec_part, h₁, howner, exec_pure]
  refine .next hx <| call_attains (hs.idle (.of_part h₁)) hfirst rfl fun stage' w' hs' => moving_ensues hcalls ?_ _ hs'
  intro c stage w hs
  refine .of_go <| .bind <| (finishCall_attains c).mono fun _ w₂ ⟨h₂, _⟩ => ?_
  refine .bind <| (exchangeOwners_attains (e := ⟨s, _⟩) (hs.idle h₂) hm ho hsole hne hun h0).mono fun _ w₃ hs₃ => ?_
  exact .pure ⟨_, rfl, nofun, hnext stage w₃ hs₃⟩

end Stands

end Execution

/-! ### Where the qubits are afterwards -/

namespace Node

variable {node node' : Node n m} {stage : PairStage} {lost : List Nat} {app virt : Int} {carbon taken : Nat}
  {pool pool' : QubitPool} {d : Device}

/-- The electron is in use, and so is every other slot. -/
def Crowded (node : Node n m) : Prop := node.pool.isAllocated 0 = true ∧ ∀ p < node.pool.size, node.pool.isAllocated p = true

/-- The electron is in use but no application has its qubit there, and some slot is free. -/
def Orphaned (node : Node n m) : Prop :=
  node.pool.isAllocated 0 = true ∧ (∃ p < node.pool.size, node.pool.isAllocated p = false) ∧ ∀ a v, ¬ node.Maps a v 0

/-- A qubit at a carbon has come to the electron. Whoever was there is at a slot that was free; that slot is taken, or the
electron itself if it was free, the carbon is free, and nothing else has changed. -/
structure Relocated (node node' : Node n m) (app virt : Int) (carbon taken : Nat) : Prop where
  free : node.pool.isAllocated taken = false
  inside : taken < node.pool.size
  electron : node.pool.isAllocated 0 = false → taken = 0
  measured : node'.Maps app virt 0
  evicted : ∀ a v, node.Maps a v 0 → node'.Maps a v taken
  others : ∀ a v p, ¬ (a = app ∧ v = virt) → ¬ node.Maps a v 0 → (node'.Maps a v p ↔ node.Maps a v p)
  allocated : ∀ p, node'.pool.isAllocated p = if p = carbon then false else if p = taken then true else node.pool.isAllocated p
  count : node'.pool.allocatedCount = node.pool.allocatedCount

theorem Relocated.of_intact {w w₁ : Working (Node n m) n m} (h : w₁.part.Relocated node' app virt carbon taken)
    (hi : Intact w w₁) : w.part.Relocated node' app virt carbon taken where
  free := hi.pool ▸ h.free
  inside := hi.pool ▸ h.inside
  electron := hi.pool ▸ h.electron
  measured := h.measured
  evicted a v hm := h.evicted a v ((maps_congr hi.apps ..).2 hm)
  others a v p hne hm := (h.others a v p hne fun h0 => hm ((maps_congr hi.apps ..).1 h0)).trans (maps_congr hi.apps ..)
  allocated := hi.pool ▸ h.allocated
  count := hi.pool ▸ h.count

namespace Custody

theorem intact {w w' : Working (Node n m) n m} (hc : w.part.Custody stage lost) (h : Intact w w') :
    w'.part.Custody stage lost where
  accounted := hc.accounted.of_same (h.apps ▸ hc.accounted.ascending) (maps_congr h.apps) h.pool
  communicates := h.pool ▸ hc.communicates
  size := by rw [h.pool, h.device, hc.size]
  electron := by
    rw [h.pool, h.device]
    exact hc.electron

theorem lt_size (hc : node.Custody stage lost) {p : Nat} (hm : node.Maps app virt p) : p < node.device.size := by
  rw [← hc.size]
  exact QubitPool.lt_size_of_isAllocated (hc.accounted.allocated hm)

/-- Once the electron is an application's, and not the pair service's, there is nothing for the pair service. -/
theorem stands (hc : node.Custody stage lost) (hnv : node.device.config.isNV = true) (happ : node.hasApp app = true)
    (ht : node.pool.Takes pool taken) (h0 : pool.isAllocated 0 = true) (hheld : 0 ∉ stage.held) :
    ({ node with pool := pool } : Node n m).Stands node.device pool node.Maps app stage where
  config := rfl
  slots := rfl
  ascending := hc.accounted.ascending
  seats := maps_congr rfl
  hasApp := happ
  held := List.eq_nil_iff_forall_not_mem.2 fun p hp => by
    rw [(hc.electron hnv p).1 (hc.communicates p hp)] at hp
    exact hheld hp
  exhausted p hp := by
    rw [ht.communication] at hp
    rw [(hc.electron hnv p).1 hp, h0]

/-- The carbon of a qubit is in use and of no use to the pair service. -/
theorem spares (hc : node.Custody stage lost) (hnv : node.device.config.isNV = true) (hm : node.Maps app virt carbon)
    (h0 : carbon ≠ 0) (ht : node.pool.Takes pool taken) :
    pool.isAllocated carbon = true ∧ pool.isCommunication carbon = false := by
  constructor
  · rw [ht.allocated, hc.accounted.allocated hm, ite_self]
  · rw [ht.communication, Bool.eq_false_iff]
    exact fun h => h0 ((hc.electron hnv carbon).1 h)

end Custody

theorem Maps.hasApp {p : Nat} (h : node.Maps app virt p) : node.hasApp app = true := by
  obtain ⟨mem, hmem, -⟩ := h
  exact Option.isSome_iff_exists.2 ⟨mem, hmem⟩

/-- A slot has been taken and the carbon returned, and the virtual ids are where they should be. -/
theorem Stands.relocated {seats : Seating} (hs : node'.Stands d pool' seats app stage)
    (ht : node.pool.Takes pool taken) (hr : pool.Returns pool' carbon) (he : node.pool.isAllocated 0 = false → taken = 0)
    (hmeasured : seats app virt 0) (hevicted : ∀ a v, node.Maps a v 0 → seats a v taken)
    (hothers : ∀ a v p, ¬ (a = app ∧ v = virt) → ¬ node.Maps a v 0 → (seats a v p ↔ node.Maps a v p)) :
    node.Relocated node' app virt carbon taken where
  free := ht.free
  inside := ht.inside
  electron := he
  measured := (hs.seats ..).2 hmeasured
  evicted a v hm := (hs.seats ..).2 (hevicted a v hm)
  others a v p hne hm := (hs.seats ..).trans (hothers a v p hne hm)
  allocated p := by rw [hs.slots, hr.allocated, ht.allocated]
  count := by
    have htaken := ht.allocatedCount
    have hreturned := hr.takes.allocatedCount
    rw [hs.slots]
    omega

end Node

namespace Execution

variable {p : ProcessId} {s : Subroutine} {stage : PairStage} {lost : List Nat} {w : Working (Node n m) n m} {virt : Int}
  {carbon : Nat} {dest : Register}

/-- What a measurement comes to where the qubit is at a carbon. -/
def Measured (app virt : Int) (carbon : Nat) (w w' : Working (Node n m) n m) : Prop :=
  ¬ w.part.Crowded ∧ ¬ w.part.Orphaned ∧ ∃ taken, w.part.Relocated w'.part app virt carbon taken

/-- How it fails. -/
def Unmeasured (w : Working (Node n m) n m) (f : Fault) (w' : Working (Node n m) n m) : Prop :=
  Intact w w' ∧ (f.kind = .allocationExhausted ∧ w.part.Crowded ∨ f.kind = .memory ∧ w.part.Orphaned)

/-- The electron is free. -/
theorem takeElectron_ensues (hc : w.part.Custody stage lost) (hnv : w.part.device.config.isNV = true)
    (hm : w.part.Maps s.appId virt carbon) (h0 : carbon ≠ 0) (hd : dest.Legible) (hfree : w.part.pool.isAllocated 0 = false) :
    Ensues p (Measured s.appId virt carbon w) (Unmeasured w)
      ⟨s, .relocating ⟨virt, dest, carbon, 0⟩ [.allocateElectron, .moveCarbonToElectron, .freeCarbon, .measureElectron]⟩
      stage w := by
  have hun : ∀ a v, ¬ w.part.Maps a v 0 := fun a v hm0 => by
    have ha := hc.accounted.allocated hm0
    rw [hfree] at ha
    cases ha
  have hheld : 0 ∉ stage.held := fun h => by
    have ha := hc.accounted.heldAllocated (List.mem_append_right _ h)
    rw [hfree] at ha
    cases ha
  obtain ⟨pool, ha, ht⟩ : ∃ pool, w.part.pool.allocateCommunication = .ok (0, pool) ∧ w.part.pool.Takes pool 0 := by
    rcases ha : w.part.pool.allocateCommunication with f | ⟨id, pool⟩
    · have htaken := QubitPool.exhausted_of_error ha 0 ((hc.electron hnv 0).2 rfl)
      rw [hfree] at htaken
      cases htaken
    · obtain ⟨ht, hcomm⟩ := QubitPool.takes_of_allocateCommunication ha
      obtain rfl := (hc.electron hnv id).1 hcomm
      exact ⟨pool, rfl, ht⟩
  refine .of_go <| .bind <| (log_attains _ _ _).mono fun _ w₁ h₁ => ?_
  let w₂ : Working (Node n m) n m := { w₁ with part := { w₁.part with pool := pool } }
  have hx : (allocateCommunication : NodeWork n m Nat).exec w₁ = (.ok 0, w₂) := by
    simp only [allocateCommunication, exec_bind, exec_part, exec_ofExcept, h₁, ha, setPool, exec_modifyPart, exec_pure, w₂]
  have hs : w₂.part.Stands w.part.device pool w.part.Maps s.appId stage := by
    have hs := hc.stands hnv hm.hasApp ht (by rw [ht.allocated, if_pos rfl]) hheld
    rwa [← h₁] at hs ⊢
  refine .next hx <| .bind <| (reseat_attains hs.ascending ((hs.seats _ _ _).2 hm) fun a v h => ?_).mono fun _ w₃ h₃ => ?_
  · exact hun a v ((hs.seats _ _ _).1 h)
  refine .pure ⟨_, rfl, ExecutionStage.noConfusion, ?_⟩
  obtain ⟨htaken, hcomm⟩ := hc.spares hnv hm h0 ht
  refine fromCarbon_ensues hnv h0 (hc.lt_size hm) htaken hcomm hd (hs.reseats h₃) fun pool' stage' w' hr hs' => ?_
  refine ⟨fun h => absurd h.1 (by simp [hfree]), fun h => absurd h.1 (by simp [hfree]), 0, ?_⟩
  refine hs'.relocated ht hr (fun _ => rfl) (Seating.move_self.2 rfl) (fun a v hm0 => absurd hm0 (hun a v)) ?_
  exact fun a v q hav _ => Seating.move_of_ne hav

/-- The electron is in use, and there is no carbon for its qubit. -/
theorem allocateSpare_breaks {r : Readout} {f : Fault} (ha : w.part.pool.allocate = .error f) :
    Breaks (allocateSpare r) w fun f' w' => f' = f ∧ Intact w w' := by
  have hx : (allocate : NodeWork n m Nat).exec w = (.error f, w) := by
    simp only [allocate, exec_bind, exec_part, exec_ofExcept, ha]
  refine .attempt ⟨f, w, hx, .bind ?_⟩
  exact ((log_attains _ _ _).within (log_mild (R := Intact) _ _ _)).mono fun _ w₁ ⟨h₁, _⟩ => .fail ⟨rfl, h₁⟩

/-- There is a carbon but the qubit is nobody's: the carbon is returned. -/
theorem electronOwner_breaks {r : Readout} {pool : QubitPool} (ho : w.part.owner? 0 = none)
    (hf : w.part.pool.free r.spare = .ok pool) : Breaks (electronOwner r) w fun f w' =>
      f = .electronBusy ∧ Intact { w with part := { w.part with pool := pool } } w' := by
  have hx : (releaseSlot r.spare : NodeWork n m Unit).exec w = (.ok (), { w with part := { w.part with pool := pool } }) := by
    simp only [releaseSlot, exec_bind, exec_part, exec_ofExcept, hf, setPool, exec_modifyPart]
  refine .part ?_
  rw [ho]
  refine .bind ⟨(), _, hx, .bind ?_⟩
  exact ((log_attains _ _ _).within (log_mild (R := Intact) _ _ _)).mono fun _ w₁ h => .fail ⟨rfl, h.1⟩

section Parking

variable {Φ : Working (Node n m) n m → Prop} {r : Readout} {steps : List RelocationStep} {spare : Nat} {pool : QubitPool}

theorem crowded_ensues (htaken : w.part.pool.isAllocated 0 = true) {f : Fault} (ha : w.part.pool.allocate = .error f) :
    Ensues p Φ (Unmeasured w) ⟨s, .relocating r (.allocateFreeCarbon :: steps)⟩ stage w := by
  obtain ⟨rfl, hall⟩ := QubitPool.allocated_of_error ha
  refine .of_fault <| .bind <| ((log_attains _ _ _).within (log_mild (R := Intact) _ _ _)).mono fun _ w₁ ⟨hi₁, h₁⟩ =>
    .first ?_
  obtain ⟨f, w₂, hx, rfl, hi₂⟩ := allocateSpare_breaks (w := w₁) (r := r) (by rw [h₁, ha])
  exact ⟨_, w₂, hx, IsTrans.trans _ _ _ hi₁ hi₂, .inl ⟨rfl, htaken, hall⟩⟩

/-- A carbon is free for the qubit that is at the electron. -/
theorem allocateSpare_ensues {Ψ : Fault → Working (Node n m) n m → Prop} (ha : w.part.pool.allocate = .ok (spare, pool))
    (h : ∀ w₁, Intact w w₁ → w₁.part = w.part → Ensues p Φ Ψ ⟨s, .relocating { r with spare := spare } steps⟩ stage
      { w₁ with part := { w₁.part with pool := pool } }) :
    Ensues p Φ Ψ ⟨s, .relocating r (.allocateFreeCarbon :: steps)⟩ stage w := by
  refine .of_go <| .bind <| ((log_attains _ _ _).within (log_mild (R := Intact) _ _ _)).mono ?_
  rintro _ w₁ ⟨hi₁, h₁⟩
  have hx : (allocate : NodeWork n m Nat).exec w₁ = (.ok spare, { w₁ with part := { w₁.part with pool := pool } }) := by
    simp only [allocate, exec_bind, exec_part, exec_ofExcept, h₁, ha, setPool, exec_modifyPart, exec_pure]
  exact .bind <| .attempt ⟨spare, _, hx, .pure <| .pure ⟨_, rfl, ExecutionStage.noConfusion, h w₁ hi₁ h₁⟩⟩

theorem orphaned_ensues {w₁ : Working (Node n m) n m} (htaken : w.part.pool.isAllocated 0 = true)
    (ha : w.part.pool.allocate = .ok (spare, pool)) (hi₁ : Intact w w₁) (h₁ : w₁.part = w.part)
    (ho : w.part.owner? 0 = none) (hr : r.spare = spare) :
    Ensues p Φ (Unmeasured w) ⟨s, .relocating r (.moveElectronToCarbon :: steps)⟩ stage
      { w₁ with part := { w₁.part with pool := pool } } := by
  subst hr
  have ht := QubitPool.takes_of_allocate ha
  refine .of_fault <| .bind <| ((log_attains _ _ _).within (log_mild (R := Intact) _ _ _)).mono fun _ w₂ ⟨hi₂, h₂⟩ =>
    .first ?_
  have ho₂ : w₂.part.owner? 0 = none := by
    rw [h₂]
    exact (congrArg (Node.owner? · 0) h₁).trans ho
  have hfree : w₂.part.pool.free r.spare = .ok w.part.pool := by
    rw [h₂]
    exact QubitPool.free_of_allocate ha
  obtain ⟨f, w₃, hx, rfl, hi₃⟩ := electronOwner_breaks (r := r) ho₂ hfree
  have hback : Intact w { w₂ with part := { w₂.part with pool := w.part.pool } } :=
    ⟨hi₂.apps.trans hi₁.apps, rfl, hi₂.device.trans hi₁.device, hi₂.quantum.trans hi₁.quantum,
      hi₂.requests.trans hi₁.requests⟩
  exact ⟨_, w₃, hx, IsTrans.trans _ _ _ hback hi₃, .inr ⟨rfl, htaken, ⟨r.spare, ht.inside, ht.free⟩, not_maps_of_owner? ho⟩⟩

end Parking

/-- The electron is in use. -/
theorem parkElectron_ensues (hc : w.part.Custody stage lost) (hnv : w.part.device.config.isNV = true)
    (hm : w.part.Maps s.appId virt carbon) (h0 : carbon ≠ 0) (hd : dest.Legible) (htaken : w.part.pool.isAllocated 0 = true) :
    Ensues p (Measured s.appId virt carbon w) (Unmeasured w)
      ⟨s, .relocating ⟨virt, dest, carbon, 0⟩
        [.allocateFreeCarbon, .moveElectronToCarbon, .moveCarbonToElectron, .freeCarbon, .measureElectron]⟩ stage w := by
  rcases ha : w.part.pool.allocate with f | ⟨spare, pool⟩
  · exact crowded_ensues htaken ha
  have ht := QubitPool.takes_of_allocate ha
  refine allocateSpare_ensues ha fun w₁ hi₁ h₁ => ?_
  rcases ho : w.part.owner? 0 with _ | ⟨a, v⟩
  · exact orphaned_ensues htaken ha hi₁ h₁ ho rfl
  have hspare : spare ≠ 0 := fun h => by
    rw [← h, ht.free] at htaken
    exact nomatch htaken
  have hun : ∀ a v, ¬ w.part.Maps a v spare := fun a v h => by
    have halloc := hc.accounted.allocated h
    rw [ht.free] at halloc
    exact nomatch halloc
  have h0m : w.part.Maps a v 0 := maps_of_owner? hc.accounted.ascending ho
  have hheld : 0 ∉ stage.held := fun h => hc.accounted.apart h0m (List.mem_append_right _ h)
  have hs : ({ w₁.part with pool := pool } : Node n m).Stands w.part.device pool w.part.Maps s.appId stage := by
    have hs := hc.stands hnv hm.hasApp ht (by rw [ht.allocated, htaken, ite_self]) hheld
    rwa [← h₁] at hs ⊢
  have hsole : ∀ b u, w.part.Maps b u 0 → b = a ∧ u = v := fun b u h => hc.accounted.injective h h0m
  have hne : ¬ (s.appId = a ∧ virt = v) := by
    rintro ⟨rfl, rfl⟩
    exact h0 (hm.unique h0m)
  refine toCarbon_ensues hnv hs (by simpa [h₁, Node.owner?] using ho) hm hsole hne hun hspare (hc.size ▸ ht.inside) ?_
  intro stage' w' hs'
  obtain ⟨htaken', hcomm⟩ := hc.spares hnv hm h0 ht
  refine fromCarbon_ensues hnv h0 (hc.lt_size hm) htaken' hcomm hd hs' fun pool' stage' w' hr hs' => ?_
  refine ⟨fun h => ?_, fun h => h.2.2 a v h0m, spare, ?_⟩
  · have halloc := h.2 spare ht.inside
    rw [ht.free] at halloc
    exact nomatch halloc
  · refine hs'.relocated ht hr (fun h => absurd htaken (by simp [h])) (Seating.move_self.2 rfl) (fun b u hm0 => ?_) ?_
    · obtain ⟨rfl, rfl⟩ := hsole b u hm0
      rw [Seating.move_of_ne fun h => hne ⟨h.1.symm, h.2.symm⟩, Seating.move_self]
    · intro b u q hbu hm0
      rw [Seating.move_of_ne hbu, Seating.move_of_ne]
      rintro ⟨rfl, rfl⟩
      exact hm0 h0m

/-- What is left of a measurement once the qubit is known to be at a carbon. -/
theorem relocation_ensues (hc : w.part.Custody stage lost) (hnv : w.part.device.config.isNV = true)
    (hm : w.part.Maps s.appId virt carbon) (h0 : carbon ≠ 0) (hd : dest.Legible) :
    Ensues p (Measured s.appId virt carbon w) (Unmeasured w)
      ⟨s, .relocating ⟨virt, dest, carbon, 0⟩ (relocationPlan carbon (w.part.pool.isAllocated 0))⟩ stage w := by
  unfold relocationPlan
  rw [if_neg h0]
  split
  · exact parkElectron_ensues hc hnv hm h0 hd ‹_›
  · rename_i hfree
    exact takeElectron_ensues hc hnv hm h0 hd (Bool.eq_false_iff.2 hfree)

variable {mem : AppMemory} {i : Instruction}

/-- An instruction that is fetched is performed. -/
theorem exec_fetch (hmem : w.part.apps.get? s.appId = some mem) (hi : s.instructions[mem.pc]? = some i) :
    ∃ w₁, Intact w w₁ ∧ (step p ⟨s, .fetch⟩).exec w = (perform p ⟨s, .fetch⟩ i).exec w₁ := by
  obtain ⟨_, w₁, hlog, h₁, -⟩ :=
    (log_attains (w := w) .debug "Processor" s!"app {s.appId} line {mem.pc}: {i.text}").within (log_mild (R := Intact) _ _ _)
  refine ⟨{ w₁ with part := { w₁.part with executed := w₁.part.executed + 1 } }, ?_, ?_⟩
  · exact ⟨h₁.apps, h₁.pool, h₁.device, h₁.quantum, h₁.requests⟩
  · have hm : (memory s.appId).exec w = (.ok mem, w) := by rw [exec_memory, hmem]
    refine (exec_bind_of_ok hm).trans ?_
    dsimp only
    rw [hi]
    exact exec_bind_of_ok hlog

/-- A measurement on an NV device begins with a plan for the slot at which the qubit is. -/
theorem exec_measure {q : Register} {target : Nat} (hnv : w.part.device.config.isNV = true)
    (hmem : w.part.apps.get? s.appId = some mem) (hi : s.instructions[mem.pc]? = some (.measure q dest))
    (hr : mem.resolve (.register q) = .ok virt) (hm : w.part.Maps s.appId virt target) :
    ∃ w₁, Intact w w₁ ∧ (step p ⟨s, .fetch⟩).exec w =
      (.ok (.go ⟨s, .relocating ⟨virt, dest, target, 0⟩ (relocationPlan target (w₁.part.pool.isAllocated 0))⟩), w₁) := by
  obtain ⟨w₁, h₁, hx⟩ := exec_fetch (p := p) hmem hi
  have hmem₁ : w₁.part.apps.get? s.appId = some mem := by rw [h₁.apps, hmem]
  have hnv₁ : w₁.part.device.config.isNV = true := by rw [h₁.device, hnv]
  have hp : mem.physicalFor virt = .ok (some target) := by
    obtain ⟨mem', hmem', hp⟩ := hm
    rw [hmem] at hmem'
    cases hmem'
    exact hp
  refine ⟨w₁, h₁, hx.trans ?_⟩
  have hresolve : (resolveRegister s.appId q).exec w₁ = (.ok virt, w₁) := exec_resolve_of_ok hmem₁ hr
  have hbegin : (beginReadout ⟨s, .fetch⟩ virt dest : NodeWork n m (Step m)).exec w₁ =
      (.ok (.go ⟨s, .relocating ⟨virt, dest, target, 0⟩ (relocationPlan target (w₁.part.pool.isAllocated 0))⟩), w₁) := by
    have hm₁ : (memory s.appId).exec w₁ = (.ok mem, w₁) := by rw [exec_memory, hmem₁]
    refine (exec_bind_of_ok hm₁).trans ?_
    rw [exec_bind, exec_ofExcept, hp]
    rfl
  change (quantum p ⟨s, .fetch⟩ (.measure q dest)).exec w₁ = _
  rw [quantum, exec_bind, exec_part]
  dsimp only
  rw [if_pos hnv₁]
  exact (exec_bind_of_ok hresolve).trans hbegin

/-- A qubit at a carbon of an NV device is measured at the electron, whatever the pair service does meanwhile. Either there
is no slot to which the electron's qubit could go, or the electron is in use without being an application's, and then
nothing has changed; or the qubit is at the electron in the end, the qubit that was there is at a carbon that was free, and
all other qubits are where they were. The device permits every call that is made of it. -/
theorem carbons_are_read_out {q : Register} (hc : w.part.Custody stage lost) (hnv : w.part.device.config.isNV = true)
    (hmem : w.part.apps.get? s.appId = some mem) (hi : s.instructions[mem.pc]? = some (.measure q dest)) (hd : dest.Legible)
    (hr : mem.resolve (.register q) = .ok virt) (hm : w.part.Maps s.appId virt carbon) (h0 : carbon ≠ 0) :
    Ensues p (Measured s.appId virt carbon w) (Unmeasured w) ⟨s, .fetch⟩ stage w := by
  obtain ⟨w₁, h₁, hx⟩ := exec_measure (p := p) hnv hmem hi hr hm
  have hmaps := maps_congr (n := n) (m := m) h₁.apps
  have hcrowded : w₁.part.Crowded ↔ w.part.Crowded := by rw [Crowded, Crowded, h₁.pool]
  have horphaned : w₁.part.Orphaned ↔ w.part.Orphaned := by simp only [Orphaned, h₁.pool, hmaps]
  have hens := relocation_ensues (p := p) (hc.intact h₁) (by rw [h₁.device, hnv]) ((hmaps ..).2 hm) h0 hd
  refine .goes hx nofun (hens.mono (fun w' h => ?_) fun f w' h => ?_)
  · obtain ⟨hroom, hown, taken, hrel⟩ := h
    exact ⟨fun h => hroom (hcrowded.2 h), fun h => hown (horphaned.2 h), taken, hrel.of_intact h₁⟩
  · rw [Unmeasured, hcrowded, horphaned] at h
    exact ⟨IsTrans.trans _ _ _ h₁ h.1, h.2⟩

/-- A node with an NV device of three qubits. One application has a qubit at the first carbon, which a register of it names,
and another one has a qubit at the electron. -/
def twoTenants : Node 1 0 :=
  let mem := (AppMemory.new 0 3).setQubit ⟨0, by decide⟩ (some 1)
  { Node.lone 0 3 with
    device := .new (.nv { NVDevice.standard with numQubits := 3 }) 0
    pool := ⟨#[⟨true, true⟩, ⟨true, false⟩, ⟨false, false⟩]⟩
    apps := (SortedMap.empty.insert 0 { mem with registers := mem.registers.set 32 (some 0) }).insert 1
      ((AppMemory.new 1 3).setQubit ⟨0, by decide⟩ (some 0)) }

theorem twoTenants_maps {a v : Int} {q : Nat} :
    twoTenants.Maps a v q ↔ a = 0 ∧ v = 0 ∧ q = 1 ∨ a = 1 ∧ v = 0 ∧ q = 0 := by
  rw [maps_iff]
  constructor
  · rintro ⟨mem, hmem, u, rfl, hu⟩
    have hmem := SortedMap.mem_entries_of_get? hmem
    change (a, mem) ∈ [_, _] at hmem
    rcases List.mem_pair.1 hmem with he | he
    · obtain ⟨rfl, rfl⟩ := Prod.mk.inj he
      change ((AppMemory.new 0 3).setQubit ⟨0, by decide⟩ (some 1)).phys? u = some q at hu
      rw [AppMemory.phys?_setQubit] at hu
      split at hu
      · cases hu
        simp_all
      · simp at hu
    · obtain ⟨rfl, rfl⟩ := Prod.mk.inj he
      rw [AppMemory.phys?_setQubit] at hu
      split at hu
      · cases hu
        simp_all
      · simp at hu
  · rintro (⟨rfl, rfl, rfl⟩ | ⟨rfl, rfl, rfl⟩)
    · exact ⟨_, rfl, 0, rfl, rfl⟩
    · exact ⟨_, rfl, 0, rfl, rfl⟩

theorem twoTenants_isAllocated {q : Nat} : twoTenants.pool.isAllocated q = true ↔ q = 0 ∨ q = 1 := by
  match q with
  | 0 | 1 | 2 => decide
  | q + 3 => exact iff_of_false (by simp [twoTenants, QubitPool.isAllocated]) (by omega)

theorem twoTenants_isCommunication {q : Nat} : twoTenants.pool.isCommunication q = true ↔ q = 0 := by
  match q with
  | 0 | 1 | 2 => decide
  | q + 3 => exact iff_of_false (by simp [twoTenants, QubitPool.isCommunication]) (by omega)

theorem twoTenants_custody : twoTenants.Custody .idle [] where
  accounted := {
    ascending := (SortedMap.ascending_empty.insert _ _).insert _ _
    injective := fun hm hm' => by
      rw [twoTenants_maps] at hm hm'
      omega
    allocated := fun hm => by
      rw [twoTenants_maps] at hm
      rw [twoTenants_isAllocated]
      omega
    apart := fun _ => List.not_mem_nil
    heldAllocated := fun h => absurd h List.not_mem_nil
    nodup := .nil
    covered := fun h => by
      rcases twoTenants_isAllocated.1 h with rfl | rfl
      · exact .inl ⟨1, 0, twoTenants_maps.2 (.inr ⟨rfl, rfl, rfl⟩)⟩
      · exact .inl ⟨0, 0, twoTenants_maps.2 (.inl ⟨rfl, rfl, rfl⟩)⟩ }
  communicates := fun _ h => absurd h List.not_mem_nil
  size := rfl
  electron := fun _ _ => twoTenants_isCommunication

/-- The qubit of one application makes way for that of another. -/
theorem carbons_are_read_out_between_tenants :
    let s : Subroutine := ⟨0, "1.0", [.measure ⟨.Q, 0⟩ ⟨.M, 0⟩]⟩
    let w := twoTenants.atWork
    w.part.Custody .idle [] ∧ w.part.device.config.isNV = true ∧ w.part.Maps 0 0 1 ∧ (1 : Nat) ≠ 0 ∧
      Ensues 0 (Measured 0 0 1 w) (Unmeasured w) ⟨s, .fetch⟩ .idle w := by
  intro s w
  have hm : w.part.Maps 0 0 1 := twoTenants_maps.2 (.inl ⟨rfl, rfl, rfl⟩)
  refine ⟨twoTenants_custody, rfl, hm, by decide, ?_⟩
  have hd : Register.Legible ⟨.M, 0⟩ := ⟨by decide, by decide⟩
  exact carbons_are_read_out (s := s) (w := w) (q := ⟨.Q, 0⟩) twoTenants_custody rfl rfl rfl hd rfl hm (by decide)

end Execution

end QuantumNode
