import Lifecycle.Gate.Hosting
import Lifecycle.Journal

/-!
# Scenarios for gates

A scenario drives one gate step by step.  The hooks follow scripts, the consumers are objects with
a name that accept failures or not, and the cache is the list of the values that were pushed.  Tasks
run only in the steps that let time pass or let the executor settle.
-/

namespace Lifecycle.Gate.Scenario

structure Consumer where
  name : String
  accepts : Bool
  deriving DecidableEq, Repr

/-- One item of the script of a hook.  A stopping hook only pauses and panics. -/
inductive Item where
  | pause (p : Pause)
  | push (value : String)
  | fail (e : ProducerError)
  | complete
  | untilCancelled
  | refuse (e : ProducerError)
  | panic (p : Panic)

/-- What a scenario takes down while it runs.  Hook calls are numbered from zero. -/
inductive Note where
  | activate (call generation : Nat)
  | activated (call : Nat)
  | deactivate (call : Nat)
  | deactivated (call : Nat)
  | replay (name : String) (cache : List String)
  | fail (name : String) (e : ProducerError)
  | complete (name : String)
  | drop (name : String)
  | pushed (names : Option (List String))
  | completed (accepted : Bool)
  | refused (call : Nat)
  | cancelled (name : String)

inductive Signal where
  | gate (w : Wait)
  | latch (name : String)
  deriving DecidableEq, Repr

structure Hook where
  call : Nat
  rest : List Item

inductive Task where
  | gate (t : Gate.Task Hook)
  | watch (name : String) (session : Nat)

structure World where
  executor : Executor Signal Task := {}
  gate : State Consumer (List String)
  timer : Debouncer
  journal : Journal
  activations : List (List Item)
  deactivations : List (List Item)
  begun : List Nat := []
  stopped : Nat := 0
  owned : Bool := true
  clones : Nat := 0
  leases : List (String × ConsumerId) := []
  opened : List String := []
  notes : List (Nat × Note) := []

namespace World

def note (w : World) (n : Note) : World :=
  { w with notes := w.notes ++ [(w.executor.now, n)] }

def consumer (w : World) : Effect Consumer (List String) → World
  | .replay cache c => w.note (.replay c.name cache)
  | .offer c e => (w.note (.fail c.name e)).note (.drop c.name)
  | .close c => (w.note (.complete c.name)).note (.drop c.name)
  | .part c => w.note (.drop c.name)
  | _ => w

def step (w : World) (i : Input Consumer (List String)) :
    World × List (Effect Consumer (List String)) :=
  let (gate, effects) := w.gate.step Consumer.accepts i
  ({ w with gate }, effects)

def ofTask? : Task → Option (Gate.Task Hook)
  | .gate t => some t
  | .watch _ _ => none

def callActivate (w : World) (i : Nat) : World × Hook :=
  let call := w.begun.length
  let generation := (w.gate.sessions[i]?.map Session.generation).getD 0
  ({ w with begun := w.begun ++ [i] }.note (.activate call generation),
    { call, rest := (w.activations[call]?).getD [] })

def callDeactivate (w : World) : World × Hook :=
  let call := w.stopped
  ({ w with stopped := w.stopped + 1 }.note (.deactivate call),
    { call, rest := (w.deactivations[call]?).getD [] })

end World

def stopItem (w : World) : Item → World × Reaction Signal Item (Option String)
  | .pause p => (w, p.react w.executor.now w.opened .pause .latch)
  | .panic p => (w, .finish (some p.info))
  | _ => (w, .proceed)

def runDeactivate (w : World) (hook : Hook) : World × HookTurn Signal Hook (Option String) :=
  match runScript stopItem w hook.rest with
  | (w, .completed) => (w.note (.deactivated hook.call), .ended none)
  | (w, .finished panic) => (w, .ended panic)
  | (w, .suspended rest signals deadline) =>
      (w, .waiting { hook with rest } signals deadline)
  | (w, .gaveWay rest) => (w, .waiting { hook with rest } [] none)

instance : HasExecutor World Signal Task where
  executor := World.executor
  withExecutor w executor := { w with executor }

instance : Hosting World Signal Task Consumer (List String) Hook where
  toSignal := .gate
  toTask := .gate
  ofTask? := World.ofTask?
  state := World.gate
  timer := World.timer
  withTimer w timer := { w with timer }
  step := World.step
  consumer := World.consumer
  publish w e := { w with journal := w.journal.publish e }
  report w r := { w with journal := w.journal.report r }
  isHeld w := w.owned || w.clones != 0 || !w.leases.isEmpty

namespace World

def push (w : World) (i : Nat) (value : String) : World × Option (List String) :=
  let names :=
    if w.gate.isCurrent i then some (w.gate.roster.members.map Consumer.name) else none
  (Hosting.input w (.update i (· ++ [value])), names)

def complete (w : World) (i : Nat) : World × Bool :=
  let accepted := w.gate.isCurrent i
  (Hosting.input w (.complete i), accepted)

end World

def startItem (i : Nat) (call : Nat) (w : World) :
    Item → World × Reaction Signal Item HookEnd
  | .pause p => (w, p.react w.executor.now w.opened .pause .latch)
  | .push value =>
      let (w, names) := w.push i value
      (w.note (.pushed names), .proceed)
  | .fail e => (Hosting.input w (.fail i e), .proceed)
  | .complete =>
      let (w, accepted) := w.complete i
      (w.note (.completed accepted), .proceed)
  | .untilCancelled =>
      if w.gate.isCancelled i then (w, .proceed)
      else (w, .suspend .untilCancelled [.gate (.gate (.sessionOver i))] none)
  | .refuse e => (w.note (.refused call), .finish (.refused e))
  | .panic p => (w, .finish (.panicked p.info))

def runActivate (w : World) (i : Nat) (hook : Hook) : World × HookTurn Signal Hook HookEnd :=
  match runScript (startItem i hook.call) w hook.rest with
  | (w, .completed) => (w.note (.activated hook.call), .ended .returned)
  | (w, .finished result) => (w, .ended result)
  | (w, .suspended rest signals deadline) =>
      (w, .waiting { hook with rest } signals deadline)
  | (w, .gaveWay rest) => (w, .waiting { hook with rest } [] none)

instance : Hooked World Signal Task Consumer (List String) Hook where
  callActivate := World.callActivate
  runActivate := runActivate
  callDeactivate w _ := w.callDeactivate
  runDeactivate w _ hook := runDeactivate w hook

instance : Hosted World Signal Task where
  turn w _
    | .gate t => Hooked.turn w t
    | .watch name i =>
        if w.gate.isCancelled i then (w.note (.cancelled name), .ended)
        else (w, .waiting (.watch name i) [.gate (.gate (.sessionOver i))] none)
  discard w _ _ := w
  tidy := Hosting.reap

/-- A session is named by the number of its starting call; without a number it is the latest. -/
inductive Step where
  | attach (name : String) (accepts : Bool)
  | detach (name : String)
  | push (value : String) (session : Option Nat)
  | complete (session : Option Nat)
  | fail (e : ProducerError) (session : Option Nat)
  | session (session : Option Nat)
  | watch (name : String) (session : Option Nat)
  | debug
  | hooks
  | clone
  | dropClone
  | dropGate
  | advance (ms : Nat)
  | settle
  | release (latch : String)

inductive Answer where
  | nothing
  | noSession
  | noGate
  | attached (id : ConsumerId) (lease : String)
  | flag (b : Bool)
  | count (n : Nat)
  | calls (started stopped : Nat)
  | pushed (names : Option (List String))
  | session (generation : Nat) (current cancelled : Bool) (shown : String)
  | text (s : String)

/-- What can be seen after a step.  Lists hold what is new since the step before. -/
structure Observation where
  time : Nat
  answer : Answer
  gate : Option (Phase × Nat)
  notes : List (Nat × Note)
  events : List Event
  reports : List Report
  lines : List LogLine

namespace World

def hasHandle (w : World) : Bool := w.owned || w.clones != 0

def session? (w : World) (call : Option Nat) : Option Nat :=
  match call with
  | none => w.begun.getLast?
  | some n => w.begun[n]?

def shownLease (id : ConsumerId) : String := Text.record "Lease" [("id", shownId id)]

def release (w : World) (name : String) (id : ConsumerId) : World :=
  Hosting.input { w with leases := w.leases.filter fun l => l.1 != name } (.release id)

def attach (w : World) (name : String) (accepts : Bool) : World × Answer :=
  if w.hasHandle then
    let id := w.gate.roster.nextId
    let w := Hosting.input w (.attach { name, accepts })
    let w := match w.leases.lookup name with
      | none => w
      | some old => w.release name old
    ({ w with leases := w.leases ++ [(name, id)] }, .attached id (shownLease id))
  else (w, .noGate)

def withSession (w : World) (call : Option Nat) (f : Nat → World × Answer) : World × Answer :=
  match w.session? call with
  | none => (w, .noSession)
  | some i => f i

def take (w : World) : Step → World × Answer
  | .attach name accepts => w.attach name accepts
  | .detach name =>
      match w.leases.lookup name with
      | none => (w, .flag false)
      | some id => (w.release name id, .flag true)
  | .push value call => w.withSession call fun i =>
      let (w, names) := w.push i value
      (w, .pushed names)
  | .complete call => w.withSession call fun i =>
      let (w, accepted) := w.complete i
      (w, .flag accepted)
  | .fail e call => w.withSession call fun i => (Hosting.input w (.fail i e), .nothing)
  | .session call => w.withSession call fun i =>
      (w, .session ((w.gate.sessions[i]?.map Session.generation).getD 0) (w.gate.isCurrent i)
        (w.gate.isCancelled i) (w.gate.shownSession i))
  | .watch name call => w.withSession call fun i =>
      (HasExecutor.spawn w (.watch name i), .nothing)
  | .debug => (w, if w.hasHandle then .text w.gate.shown else .nothing)
  | .hooks => (w, if w.hasHandle then .calls w.begun.length w.stopped else .nothing)
  | .clone =>
      let clones := if w.hasHandle then w.clones + 1 else w.clones
      ({ w with clones }, .count clones)
  | .dropClone => ({ w with clones := w.clones - 1 }, .flag (w.clones != 0))
  | .dropGate => ({ w with owned := false }, .flag w.owned)
  | .advance ms => (Hosted.advance turnLimit ms w, .nothing)
  | .settle => (Hosted.settle turnLimit w, .nothing)
  | .release latch =>
      (HasExecutor.signal { w with opened := latch :: w.opened } (.latch latch), .nothing)

def observe (w : World) (answer : Answer) : Observation × World :=
  let (events, journal) := w.journal.readEvents
  ({ time := w.executor.now
     answer
     gate := if w.hasHandle then some (w.gate.phase, w.gate.roster.count) else none
     notes := w.notes
     events
     reports := w.journal.reports
     lines := w.journal.lines },
    { w with journal := journal.turnPage, notes := [] })

def runStep (w : World) (s : Step) : Observation × World :=
  let (w, answer) := w.take s
  (Hosting.reap w).observe answer

def run : World → List Step → List Observation × World
  | w, [] => ([], w)
  | w, s :: rest =>
      let (o, w) := w.runStep s
      let (later, w) := w.run rest
      (o :: later, w)

end World

structure Setup where
  name : String := "relay"
  grace : Span := defaultDelay
  hasBus : Bool := true
  collects : Bool := true
  activations : List (List Item) := []
  deactivations : List (List Item) := []

def Setup.world (s : Setup) : World :=
  let settings : RelaySettings := { name := s.name, grace := s.grace }
  { gate := State.fresh settings.name settings.gracePeriod
    timer := { settings := { delay := settings.gracePeriod.getD .zero } }
    journal := Journal.start s.hasBus s.collects
    activations := s.activations
    deactivations := s.deactivations }

end Lifecycle.Gate.Scenario
