import QuantumNode.Data.SortedMap
import QuantumNode.Fault
import QuantumNode.Simulation.Channel
import QuantumNode.Simulation.World

/-! Routines that sleep, talk over text channels, wait for signals, call and start each other: the smallest
world in which everything that processes can do to one another happens. A trace records what they notice. -/
namespace QuantumNode

/-- One thing a routine does. -/
inductive Action where
  | sleep (delay : Nat)
  | send (channel : Nat) (text : String)
  | receive (channel : Nat)
  | tryReceive (channel : Nat)
  | wait (signal : Nat)
  | notify (signal : Nat)
  | mark (text : String)
  | throw (message : String)
  /-- Runs a body and goes on after it. -/
  | call (body : List Action)
  /-- Runs a body and recovers from a fault in it. -/
  | guarded (body : List Action)
  | spawn (name : String) (body : List Action)
  | schedule (delay : Nat) (label : String)

/-- Why a body is run. -/
inductive FrameKind where
  | outermost
  | call
  | guarded

/-- A body that is being run: what is left of it and how much has been done. -/
structure Frame where
  kind : FrameKind
  rest : List Action
  done : Nat

/-- A routine and the bodies it is in, innermost first. -/
structure Routine where
  name : String
  frames : List Frame

/-- Why a routine goes on. -/
inductive RoutineWake where
  | started
  | slept
  | received (text : String)
  | signalled

/-- What a routine notices when it goes on. -/
def RoutineWake.notice : RoutineWake → String
  | .started => "start"
  | .slept => "awake"
  | .received v => s!"recv {v}"
  | .signalled => "signalled"

inductive WorkbenchEvent where
  | resume (routine : Nat) (wake : RoutineWake)
  | arrive (channel : Nat) (text : String)
  | label (text : String)

structure Workbench where
  agenda : Agenda WorkbenchEvent
  channels : Array (Channel String Nat)
  signals : Array (Signal Nat)
  routines : SortedMap Nat Routine
  /-- The number of the next routine. -/
  fresh : Nat
  /-- The routine that is going on. -/
  current : Option Nat
  trace : Array String

namespace Workbench

def new (latencies : List Nat) (signals : Nat) : Workbench :=
  ⟨.start, (latencies.map Channel.new).toArray, Array.replicate signals .new, .empty, 0, none, #[]⟩

def schedule (w : Workbench) (delay : Nat) (e : WorkbenchEvent) : Workbench :=
  { w with agenda := w.agenda.schedule delay e }

def resume (w : Workbench) (routine : Nat) (why : RoutineWake) : Workbench := w.schedule 0 (.resume routine why)

def note (w : Workbench) (who what : String) : Workbench :=
  { w with trace := w.trace.push s!"{w.agenda.now} {who} {what}" }

def setChannel (w : Workbench) (i : Nat) (c : Channel String Nat) : Workbench :=
  { w with channels := w.channels.setIfInBounds i c }

def setSignal (w : Workbench) (i : Nat) (s : Signal Nat) : Workbench :=
  { w with signals := w.signals.setIfInBounds i s }

def arrive (w : Workbench) (i : Nat) (text : String) : Workbench :=
  match w.channels[i]? with
  | none => w
  | some c =>
    match c.arrive text with
    | (some p, c) => (w.setChannel i c).resume p (.received text)
    | (none, c) => w.setChannel i c

/-- Sends a text; without latency it arrives at once. -/
def send (w : Workbench) (i : Nat) (text : String) : Workbench :=
  match w.channels[i]? with
  | none => w
  | some c =>
    let w := w.setChannel i c.countSent
    if c.latency = 0 then w.arrive i text else w.schedule c.latency (.arrive i text)

def tryReceive (w : Workbench) (i : Nat) : Option String × Workbench :=
  match w.channels[i]? with
  | none => (none, w)
  | some c =>
    let (v, c) := c.tryReceive
    (v, w.setChannel i c)

def notify (w : Workbench) (i : Nat) : Workbench :=
  match w.signals[i]? with
  | none => w
  | some s =>
    let (woken, s) := s.notify
    woken.foldl (fun w p => w.resume p .signalled) (w.setSignal i s)

def spawn (w : Workbench) (name : String) (body : List Action) : Workbench :=
  { w with
    routines := w.routines.insert w.fresh ⟨name, [⟨.outermost, body, 0⟩]⟩
    fresh := w.fresh + 1 }.resume w.fresh .started

/-- Ends every routine and drops every event. -/
def shutdown (w : Workbench) : Workbench :=
  { w with agenda := w.agenda.clear, routines := .empty, current := none }

def live (w : Workbench) : Nat := w.routines.size

def update (w : Workbench) (id : Nat) (r : Routine) (f : List Frame) : Workbench :=
  { w with routines := w.routines.insert id { r with frames := f } }

def rest (w : Workbench) : Workbench := { w with current := none }

/-- The frames below the innermost body that recovers from a fault. -/
def unwind : List Frame → Option (List Frame)
  | [] => none
  | f :: r =>
    match f.kind with
    | .guarded => some r
    | _ => unwind r

/-- A fault leaves every body up to one that recovers from it; without one the routine fails. -/
def throw (w : Workbench) (id : Nat) (r : Routine) (f : Fault) : Progress Workbench Fault :=
  match unwind r.frames with
  | some frames => .went ((w.update id r frames).note r.name s!"caught {f.message}")
  | none => .failed f { w with routines := w.routines.erase id, current := none }

/-- The end of the innermost body. -/
def leave (w : Workbench) (id : Nat) (r : Routine) (f : Frame) (below : List Frame) : Workbench :=
  match f.kind with
  | .outermost => ({ w with routines := w.routines.erase id }.note r.name s!"end {f.done}").rest
  | _ => (w.update id r below).note r.name s!"returned {f.done}"

def act (w : Workbench) (id : Nat) (r : Routine) : Action → Progress Workbench Fault
  | .sleep d => .went ((w.schedule d (.resume id .slept)).rest)
  | .send c text => .went (w.send c text)
  | .receive i =>
    match w.channels[i]? with
    | none => .went w.rest
    | some c =>
      match c.receive id with
      | (some v, c) => .went ((w.setChannel i c).note r.name s!"recv {v}")
      | (none, c) => .went (w.setChannel i c).rest
  | .tryReceive i =>
    match w.tryReceive i with
    | (some v, w) => .went (w.note r.name s!"got {v}")
    | (none, w) => .went (w.note r.name "nothing")
  | .wait i =>
    match w.signals[i]? with
    | none => .went w.rest
    | some s => .went (w.setSignal i (s.wait id)).rest
  | .notify i => .went (w.notify i)
  | .mark text => .went (w.note r.name text)
  | .throw m => w.throw id r (.raised m)
  | .call body => .went (w.update id r (⟨.call, body, 0⟩ :: r.frames))
  | .guarded body => .went (w.update id r (⟨.guarded, body, 0⟩ :: r.frames))
  | .spawn name body => .went (w.spawn name body)
  | .schedule d label => .went (w.schedule d (.label label))

/-- A small step of a routine: its next action, or the end of its innermost body. -/
def stepRoutine (w : Workbench) (id : Nat) (r : Routine) : Progress Workbench Fault :=
  match r.frames with
  | [] => .went w.rest
  | f :: below =>
    match f.rest with
    | [] => .went (w.leave id r f below)
    | a :: rest =>
      let r := { r with frames := { f with rest := rest, done := f.done + 1 } :: below }
      (w.update id r r.frames).act id r a

def proceed (w : Workbench) : Progress Workbench Fault :=
  match w.current with
  | none => .settled
  | some id =>
    match w.routines.get? id with
    | none => .went w.rest
    | some r => w.stepRoutine id r

def begin (w : Workbench) : WorkbenchEvent → Workbench
  | .resume id why =>
    match w.routines.get? id with
    | none => w
    | some r => { w with current := some id }.note r.name why.notice
  | .arrive c text => w.arrive c text
  | .label text => w.note "event" text

instance : World Workbench WorkbenchEvent Fault where
  agenda := Workbench.agenda
  setAgenda w a := { w with agenda := a }
  begin w e := (none, w.begin e)
  proceed := Workbench.proceed

end Workbench

end QuantumNode
