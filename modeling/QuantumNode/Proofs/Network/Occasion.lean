import QuantumNode.Proofs.Entanglement.Usage
import QuantumNode.Proofs.Network.Course

/-! What happens at a link of a network, moment by moment, with whatever else happens in between. Every step of a run is
told in this way; so is what nobody does in a run of the nodes, such as a call at an end that comes out of nowhere. -/
namespace QuantumNode

variable {n m : Nat} {l : Fin m}

/-- An event that is not one of a link. -/
def NetworkEvent.Elsewhere (l : Fin m) (e : NetworkEvent n m) : Prop := ∀ event, e ≠ .link l event

/-- What a call at a link comes to at once. -/
def Link.Reception.moment (e : LinkEnd) (c : LinkCall) : Link.Reception → LinkMoment
  | .refused a _ => ⟨.call e c, [(e, a)], []⟩
  | .accepted es _ _ => ⟨.call e c, LinkEffect.replies es, LinkEffect.events es⟩

namespace Network

/-- Nothing happens at a link, and none of its events is scheduled. -/
structure Idles (l : Fin m) (s s' : Network n m) : Prop where
  wired : s'.wired l = s.wired l
  agenda : s.agenda.Grows (NetworkEvent.Elsewhere l) s'.agenda

/-- Something happens at a link: somebody calls at an end, somebody gives up, or an event falls due. -/
inductive Occurs (l : Fin m) (s : Network n m) : LinkMoment → Network n m → Prop where
  | call {p : ProcessId} {e : LinkEnd} {c : LinkCall} {r : Link.Reception} {a : Option LinkAnswer} {s' : Network n m}
      (hr : (s.link l).request e c s.quantum = .ok r) (h : s.askLink p l e c = .ok (a, s')) :
      Occurs l s (r.moment e c) s'
  | abort (e : LinkEnd) : Occurs l s ⟨.abort e, LinkEffect.replies ((s.link l).abort e).1, []⟩ (s.abortLink l e)
  | fire {limit : Nat} {event : LinkEvent} {a : Agenda (NetworkEvent n m)}
      (hn : s.agenda.next limit = .event (.link l event) a) :
      Occurs l s ⟨.fire event, LinkEffect.replies ((s.link l).fire event s.quantum).1.1, []⟩
        (({ s with agenda := a } : Network n m).fireLink l event)

/-- A moment at a link, with the states before and after it. -/
structure Occasion (n m : Nat) where
  before : Network n m
  moment : LinkMoment
  after : Network n m

/-- Nothing happens at a link: time passes, other events fall due, and anything may be done that leaves the link alone. -/
inductive Drifts (l : Fin m) (s : Network n m) : Network n m → Prop where
  | idle {s' : Network n m} (hi : s.Idles l s') : Drifts l s s'
  | pass {limit : Nat} {e : NetworkEvent n m} {a : Agenda (NetworkEvent n m)} (hn : s.agenda.next limit = .event e a)
      (he : e.Elsewhere l) : Drifts l s { s with agenda := a }
  | wait {limit : Nat} {a : Agenda (NetworkEvent n m)} (hn : s.agenda.next limit = .later a) :
      Drifts l s { s with agenda := a }

theorem Idles.link {s s' : Network n m} (h : s.Idles l s') : s'.link l = s.link l := congrArg WiredLink.link h.wired

theorem Drifts.link {s s' : Network n m} (h : s.Drifts l s') : s'.link l = s.link l := by
  cases h with
  | idle hi => exact hi.link
  | pass hn he => rfl
  | wait hn => rfl

/-- What happens at a link from some state on, latest first, and the state that is reached. -/
inductive Chronicle (l : Fin m) (s₀ : Network n m) : List (Occasion n m) → Network n m → Prop where
  | new : Chronicle l s₀ [] s₀
  | drifts {past : List (Occasion n m)} {s s' : Network n m} (h : Chronicle l s₀ past s) (hd : s.Drifts l s') :
      Chronicle l s₀ past s'
  | occurs {past : List (Occasion n m)} {s s' : Network n m} {x : LinkMoment} (h : Chronicle l s₀ past s)
      (ho : s.Occurs l x s') : Chronicle l s₀ (⟨s, x, s'⟩ :: past) s'

theorem Chronicle.trans {s₀ s s' : Network n m} {past since : List (Occasion n m)} (h : Chronicle l s₀ past s)
    (h' : Chronicle l s since s') : Chronicle l s₀ (since ++ past) s' := by
  induction h' with
  | new => exact h
  | drifts _ hd ih => exact ih.drifts hd
  | occurs _ ho ih => exact ih.occurs ho

theorem Chronicle.of_suffix {s₀ s : Network n m} {past before : List (Occasion n m)} {x : Occasion n m}
    (h : Chronicle l s₀ past s) (hs : x :: before <:+ past) :
    Chronicle l s₀ before x.before ∧ x.before.Occurs l x.moment x.after := by
  induction h with
  | new => exact nomatch List.suffix_nil.1 hs
  | drifts _ _ ih => exact ih hs
  | occurs h ho ih =>
    rcases List.suffix_cons_iff.1 hs with heq | hs
    · obtain ⟨rfl, rfl⟩ := List.cons.inj heq
      exact ⟨h, ho⟩
    · exact ih hs

/-! What leaves a link alone. -/

section Idles

variable {s s₁ s₂ : Network n m}

theorem Idles.trans (h : s.Idles l s₁) (h' : s₁.Idles l s₂) : s.Idles l s₂ :=
  ⟨h'.wired.trans h.wired, h.agenda.trans h'.agenda⟩

theorem idles_of_same (hl : s₁.links = s.links) (ha : s₁.agenda = s.agenda) : s.Idles l s₁ := by
  refine ⟨?_, ha ▸ .refl⟩
  unfold wired
  rw [hl]

theorem idles_schedule (s : Network n m) (delay : Nat) {e : NetworkEvent n m} (he : e.Elsewhere l) :
    s.Idles l (s.schedule delay e) :=
  ⟨rfl, .schedule .refl delay he⟩

theorem idles_setChannel (s : Network n m) (line : Line n) (c : Channel String ProcessId) :
    s.Idles l (s.setChannel line c) := by
  cases line with
  | _ => exact idles_of_same rfl rfl

theorem idles_deliver (s : Network n m) (line : Line n) (text : String) : s.Idles l (s.deliver line text) := by
  unfold deliver
  split
  · exact (idles_setChannel _ _ _).trans (idles_schedule _ _ nofun)
  · exact idles_setChannel _ _ _

theorem idles_send (s : Network n m) (line : Line n) (text : String) : s.Idles l (s.send line text) := by
  unfold send
  dsimp only
  split
  · exact (idles_setChannel _ _ _).trans (idles_deliver _ _ _)
  · exact (idles_setChannel _ _ _).trans (idles_schedule _ _ nofun)

theorem idles_setInbound (s : Network n m) (source target : Fin n) (c : Channel PeerMessage ProcessId) :
    s.Idles l (s.setInbound source target c) :=
  idles_of_same rfl rfl

theorem idles_tell (s : Network n m) (source target : Fin n) (message : PeerMessage) :
    s.Idles l (s.tell source target message) := by
  have hnews : (NetworkEvent.news target : NetworkEvent n m).Elsewhere l := nofun
  have hmessage : (NetworkEvent.deliverPeer source target message : NetworkEvent n m).Elsewhere l := nofun
  unfold tell
  dsimp only
  split
  · exact ((idles_setInbound _ _ _ _).trans (idles_setInbound _ _ _ _)).trans (idles_schedule _ _ hnews)
  · exact ((idles_setInbound _ _ _ _).trans (idles_schedule _ _ hmessage)).trans (idles_schedule _ _ hnews)

theorem idles_setWired (s : Network n m) {k : Fin m} (hk : k ≠ l) (w : WiredLink) : s.Idles l (s.setWired k w) :=
  ⟨(wired_setWired s k w l).trans (if_neg hk.symm), .refl⟩

theorem idles_applyLink {k : Fin m} (hk : k ≠ l) (s : Network n m) (e : LinkEffect) : s.Idles l (applyLink k s e) := by
  cases e with
  | answer e a =>
    change s.Idles l (s.answer k e a)
    unfold answer
    dsimp only
    split
    · exact (idles_setWired _ hk _).trans (idles_schedule _ _ nofun)
    · exact idles_setWired _ hk _
  | schedule delay event => exact idles_schedule _ _ fun event' h => hk (NetworkEvent.link.inj h).1
  | log level text => exact idles_of_same rfl rfl

theorem idles_updateLink (s : Network n m) {k : Fin m} (hk : k ≠ l) (r : List LinkEffect × Link) :
    s.Idles l (s.updateLink k r) :=
  foldl_invariant (I := s.Idles l) (fun s' e h => h.trans (idles_applyLink hk s' e)) r.1 (idles_setWired s hk _)

theorem idles_fireLink (s : Network n m) {k : Fin m} (hk : k ≠ l) (e : LinkEvent) : s.Idles l (s.fireLink k e) := by
  have hquantum : s.Idles l { s with quantum := ((s.link k).fire e s.quantum).2 } := idles_of_same rfl rfl
  exact hquantum.trans (idles_updateLink _ hk _)

theorem idles_askLink {p : ProcessId} {k : Fin m} (hk : k ≠ l) {e : LinkEnd} {c : LinkCall} {a : Option LinkAnswer}
    (h : s.askLink p k e c = .ok (a, s₁)) : s.Idles l s₁ := by
  unfold askLink at h
  split at h
  · exact nomatch h
  · cases h
    exact idles_setWired _ hk _
  · rename_i effects link q _
    cases h
    have hq : s.Idles l { s with quantum := q } := idles_of_same rfl rfl
    exact (hq.trans (idles_updateLink _ hk _)).trans (idles_setWired _ hk _)

theorem idles_spawn (s : Network n m) (name : String) (a : Activity n m) : s.Idles l (s.spawn name a) := by
  have hlisted : s.Idles l { s with processes := s.processes.insert s.fresh ⟨name, a⟩, fresh := s.fresh + 1 } :=
    idles_of_same rfl rfl
  exact hlisted.trans (idles_schedule _ _ nofun)

theorem idles_finish (s : Network n m) (p : ProcessId) (process : Process n m) (o : Option Outcome) :
    s.Idles l (s.finish p process o) := by
  cases o with
  | none => exact idles_of_same rfl rfl
  | some o => exact idles_of_same rfl rfl

end Idles

/-! The steps of a network. -/

/-- Something, or nothing, has happened at a link. -/
def Befalls (l : Fin m) (s s' : Network n m) : Prop := ∃ since, Chronicle l s since s'

namespace Befalls

variable {s s₁ s₂ : Network n m}

theorem refl (s : Network n m) : s.Befalls l s := ⟨[], .new⟩

theorem trans (h : s.Befalls l s₁) (h' : s₁.Befalls l s₂) : s.Befalls l s₂ := by
  obtain ⟨since, hc⟩ := h
  obtain ⟨since', hc'⟩ := h'
  exact ⟨_, hc.trans hc'⟩

theorem of_drifts (h : s.Drifts l s₁) : s.Befalls l s₁ := ⟨[], .drifts .new h⟩

theorem of_idles (h : s.Idles l s₁) : s.Befalls l s₁ := .of_drifts (.idle h)

end Befalls

section Befalls

variable {s s' : Network n m}

theorem befalls_applyEffect (s : Network n m) (e : Effect n m) : s.Befalls l (s.applyEffect e) := by
  cases e with
  | log level name text => exact .of_idles (idles_of_same rfl rfl)
  | resume delay p wake => exact .of_idles (idles_schedule _ _ nofun)
  | send line text => exact .of_idles (idles_send _ _ _)
  | tell source target message => exact .of_idles (idles_tell _ _ _ _)
  | observed remote request => exact .of_idles (idles_of_same rfl rfl)
  | abortLink k e =>
    by_cases hk : k = l
    · subst hk
      exact ⟨_, .occurs .new (.abort e)⟩
    · exact .of_idles (idles_updateLink s hk _)

theorem befalls_effects (s : Network n m) (es : Array (Effect n m)) : s.Befalls l (es.foldl applyEffect s) := by
  rw [← Array.foldl_toList]
  exact foldl_invariant (I := s.Befalls l) (fun s' e h => h.trans (befalls_applyEffect s' e)) _ (.refl s)

theorem befalls_commit (s : Network n m) (i : Fin n) (w : Working (Node n m) n m) : s.Befalls l (s.commit i w) := by
  have hpart : s.Befalls l { s.setNode i w.part with quantum := w.quantum } := .of_idles (idles_of_same rfl rfl)
  exact hpart.trans (befalls_effects _ _)

theorem befalls_commitHost (s : Network n m) (i : Fin n) (w : Working (Host n) n m) :
    s.Befalls l (s.commitHost i w) := by
  have hpart : s.Befalls l { s.setHost i w.part with quantum := w.quantum } := .of_idles (idles_of_same rfl rfl)
  exact hpart.trans (befalls_effects _ _)

theorem befalls_atNode {α : Type} (s : Network n m) (i : Fin n) (x : NodeWork n m α) :
    s.Befalls l (s.atNode i x).2 :=
  befalls_commit s i _

theorem befalls_askLink {p : ProcessId} {k : Fin m} {e : LinkEnd} {c : LinkCall} {a : Option LinkAnswer}
    (h : s.askLink p k e c = .ok (a, s')) : s.Befalls l s' := by
  by_cases hk : k = l
  · subst hk
    obtain ⟨r, hr⟩ : ∃ r, (s.link k).request e c s.quantum = .ok r := by
      unfold askLink at h
      split at h
      · exact nomatch h
      · exact ⟨_, ‹_›⟩
      · exact ⟨_, ‹_›⟩
    exact ⟨_, .occurs .new (.call hr h)⟩
  · exact .of_idles (idles_askLink hk h)

theorem befalls_stepActivity (s : Network n m) (p : ProcessId) (wake : Wake) (a : Activity n m) :
    s.Befalls l (s.stepActivity p wake a).2 := by
  cases a with
  | pairing i stage => exact befalls_atNode _ _ _
  | dispatch i stage => exact befalls_atNode _ _ _
  | host i stage => exact befalls_commitHost s i _
  | client w =>
    change s.Befalls l (s.stepClient p w wake).2
    unfold stepClient
    split
    · exact befalls_atNode _ _ _
    · exact befalls_atNode _ _ _
    · exact befalls_atNode _ _ _
    · exact befalls_atNode s _ (Node.finishCall _)
    · exact befalls_atNode _ _ _
    · exact .refl s
    · exact .refl s
    · exact .refl s

theorem befalls_failProcess {p : ProcessId} {process : Process n m} {f : Fault}
    (h : s.failProcess p process f = .went s' ∨ ∃ f', s.failProcess p process f = .failed f' s') : s.Befalls l s' := by
  unfold failProcess at h
  split at h
  · rcases h with h | ⟨_, h⟩
    · cases h
      exact .of_idles (idles_finish _ _ _ _)
    · exact nomatch h
  · rcases h with h | ⟨_, h⟩
    · exact nomatch h
    · cases h
      exact .of_idles ((idles_finish _ _ _ _).trans (idles_of_same rfl rfl))

theorem befalls_proceed (h : s.proceed = .went s' ∨ ∃ f, s.proceed = .failed f s') : s.Befalls l s' := by
  have hwent : ∀ {s₁ s₂ : Network n m}, ((.went s₁ : Progress (Network n m) Fault) = .went s₂ ∨
      ∃ f, (.went s₁ : Progress (Network n m) Fault) = .failed f s₂) → s₁ = s₂ := by
    rintro s₁ s₂ (h | ⟨_, h⟩)
    · cases h
      rfl
    · exact nomatch h
  unfold proceed at h
  split at h
  · rcases h with h | ⟨_, h⟩
    · exact nomatch h
    · exact nomatch h
  · rename_i p wake _
    split at h
    · obtain rfl := hwent h
      exact .of_idles (idles_of_same rfl rfl)
    · rename_i process _
      unfold stepProcess at h
      have hstep := befalls_stepActivity (l := l) s p wake process.activity
      split at h
      · rename_i hs
        rw [hs] at hstep
        exact hstep.trans (befalls_failProcess h)
      · rename_i hs
        rw [hs] at hstep
        obtain rfl := hwent h
        exact hstep.trans (.of_idles (idles_of_same rfl rfl))
      · rename_i hs
        rw [hs] at hstep
        obtain rfl := hwent h
        exact hstep.trans (.of_idles (idles_of_same rfl rfl))
      · rename_i hs
        rw [hs] at hstep
        obtain rfl := hwent h
        exact hstep.trans (.of_idles (idles_finish _ _ _ _))
      · rename_i hs
        rw [hs] at hstep
        split at h
        · exact hstep.trans (befalls_failProcess h)
        · rename_i hask
          obtain rfl := hwent h
          exact (hstep.trans (befalls_askLink hask)).trans (.of_idles (idles_of_same rfl rfl))
        · rename_i hask
          obtain rfl := hwent h
          exact (hstep.trans (befalls_askLink hask)).trans (.of_idles (idles_of_same rfl rfl))

theorem befalls_begin {limit : Nat} {e : NetworkEvent n m} {a : Agenda (NetworkEvent n m)}
    (hn : s.agenda.next limit = .event e a) : s.Befalls l ({ s with agenda := a }.begin e).2 := by
  have hpass : e.Elsewhere l → s.Befalls l { s with agenda := a } := fun he => .of_drifts (.pass hn he)
  cases e with
  | resume p wake => exact (hpass nofun).trans (.of_idles (idles_of_same rfl rfl))
  | deliver line text => exact (hpass nofun).trans (.of_idles (idles_deliver _ _ _))
  | deliverPeer source target message => exact (hpass nofun).trans (.of_idles (idles_of_same rfl rfl))
  | news i => exact (hpass nofun).trans (befalls_commit _ _ _)
  | alarm k => exact hpass nofun
  | link k event =>
    by_cases hk : k = l
    · subst hk
      exact ⟨_, .occurs .new (.fire hn)⟩
    · exact (hpass fun event' h => hk (NetworkEvent.link.inj h).1).trans (.of_idles (idles_fireLink _ hk _))

/-- A step of a run is something, or nothing, that happens at a link. -/
theorem Follows.befalls {cause : Cause n} (h : s.Follows cause s') (l : Fin m) : s.Befalls l s' := by
  cases h with
  | moves h =>
    cases h with
    | start hc =>
      exact start_invariant (I := s.Befalls l) (fun _ h => h.trans (.of_idles (idles_of_same rfl rfl)))
        (fun s' name a _ h => h.trans (.of_idles (idles_spawn s' name a))) (.refl s)
    | proceed h => exact befalls_proceed (.inl h)
    | begin hc h => exact befalls_begin h
    | wait hc h => exact .of_drifts (.wait h)
  | fails h => exact befalls_proceed (.inr ⟨_, h⟩)
  | act hc a =>
    cases a with
    | atNode i a => exact befalls_atNode _ _ _
    | post i text => exact .of_idles (idles_send _ _ _)
    | enqueue i p times => exact .of_idles (idles_of_same rfl rfl)
    | alarm delay k => exact .of_idles (idles_schedule _ _ nofun)
  | slots hc i a => exact befalls_atNode _ _ _

/-- Every run has its chronicle of a link. -/
theorem Course.chronicle {c : NetworkConfig} {past : List (Stride c.nodes.length c.links.length)}
    {s : Network c.nodes.length c.links.length} (h : Course c past s) (l : Fin c.links.length) :
    ∃ s₀ record, build c = .ok s₀ ∧ Chronicle l s₀ record s := by
  induction h with
  | built h => exact ⟨_, [], h, .new⟩
  | step _ hf ih =>
    obtain ⟨s₀, record, hb, hc⟩ := ih
    obtain ⟨since, hc'⟩ := hf.befalls l
    exact ⟨s₀, _, hb, hc.trans hc'⟩

end Befalls

end Network

end QuantumNode
