import Lifecycle.Report
import Lifecycle.Script
import Lifecycle.Subscribers.Hosting

/-!
# Scenarios for subscriber sets

A scenario drives one subscriber set and its bus step by step.  A subscriber notes the events that
it is handed, or writes them as log lines, then pauses, and may panic.
-/

namespace Lifecycle.Subscribers.Scenario

inductive Trigger where
  | kind (k : EventKind)
  | error (text : String)
  deriving DecidableEq, Repr

def Trigger.fires (e : Event) : Trigger → Bool
  | kind k => e.kind == k
  | error text => e.error == some text

structure Subscriber where
  name : String
  capacity : Nat := Event.defaultQueueCapacity
  diary : Option String
  pauses : List Pause := []
  panics : List (Trigger × Panic) := []

def Subscriber.logWriter : Subscriber := { name := Event.logWriterName, diary := none }

inductive Item where
  | pause (p : Pause)
  | panic (p : Panic)

def Subscriber.script (s : Subscriber) (e : Event) : List Item :=
  let panic := s.panics.find? fun p => p.1.fires e
  s.pauses.map .pause ++ panic.toList.map fun p => .panic p.2

inductive Signal where
  | set (s : Subscribers.Signal)
  | latch (name : String)
  deriving DecidableEq, Repr

inductive Task where
  | program (p : Program (List Item))
  | shutdown

structure World where
  executor : Executor Signal Task := {}
  bus : Bus
  set : State
  subscribers : List Subscriber
  owned : Bool := true
  closed : Bool := false
  taps : List (String × Receiver) := []
  opened : List String := []
  notes : List (Nat × Nat × Event) := []
  lines : List LogLine := []

instance : HasExecutor World Signal Task where
  executor := World.executor
  withExecutor w executor := { w with executor }

instance : Hosting World Signal Task (List Item) where
  toSignal := .set
  toTask := .program
  state := World.set
  withState w set := { w with set }
  bus := World.bus
  withBus w bus := { w with bus }

def act (w : World) : Item → World × Reaction Signal Item String
  | .pause p => (w, p.react w.executor.now w.opened .pause .latch)
  | .panic p => (w, .finish p.info)

def callHandler (w : World) (k : Nat) (e : Event) : World × List Item :=
  match w.subscribers[k]? with
  | none => (w, [])
  | some s =>
      (if s.diary.isSome then { w with notes := w.notes ++ [(k, w.executor.now, e)] }
        else { w with lines := w.lines ++ [e.logLine] }, s.script e)

def runHandler (w : World) (items : List Item) : World × HandlerTurn Signal (List Item) :=
  match runScript act w items with
  | (w, .completed) => (w, .ended none)
  | (w, .finished info) => (w, .ended (some info))
  | (w, .suspended rest signals deadline) => (w, .waiting rest signals deadline)
  | (w, .gaveWay rest) => (w, .waiting rest [] none)

instance : Handling World Signal Task (List Item) where
  callHandler := callHandler
  runHandler w _ items := runHandler w items

instance : Hosted World Signal Task where
  turn w _
    | .program p => Handling.turn w p
    | .shutdown =>
        match Hosting.shutDown w with
        | (w, []) => ({ w with closed := true }, .ended)
        | (w, signals) => (w, .waiting .shutdown (signals.map .set) none)
  discard w _ _ := w
  tidy w := w

inductive Step where
  | publish (e : Event) (times : Nat)
  | emit (e : Event) (times : Nat)
  | tap (name : String)
  | drain (name : String)
  | untap (name : String)
  | listen
  | shutdown
  | dropSet
  | advance (ms : Nat)
  | settle
  | release (latch : String)

inductive Answer where
  | nothing
  | flag (b : Bool)
  | receipts (rs : List Receipt)
  | done
  | stuck
  deriving DecidableEq, Repr

/-- What can be seen after a step.  Lists hold what is new since the step before. -/
structure Observation where
  time : Nat
  answer : Answer
  seen : List (String × List (Nat × Event))
  lines : List LogLine

/-- After so many turns settling ends.  It matters only to a listener that has fallen behind: its
notice overwrites an event that it has not received, and so it falls behind again, without end. -/
def settleTurns : Nat := 2000

/-- How long a shutdown is waited for, in milliseconds. -/
def patience : Nat := 3600000

namespace World

def settle (w : World) : World := Hosted.settle settleTurns w

def repeated (times : Nat) (f : World → World) (w : World) : World :=
  (List.range times).foldl (fun w _ => f w) w

def forgetTap (w : World) (name : String) : World :=
  { w with taps := w.taps.filter (·.1 != name) }

def shutDown (w : World) : World × Answer :=
  let w := { w with owned := false }
  let target := w.executor.now + patience
  let w := (HasExecutor.spawn w .shutdown).settle
  let w := Hosted.advanceUntil World.closed settleTurns target patience w
  if w.closed then (w, .done)
  else (HasExecutor.update w (·.moveClock target), .stuck)

def take (w : World) : Step → World × Answer
  | .publish e times => (w.repeated times (Hosting.publish · e), .nothing)
  | .emit e times =>
      if w.owned then (w.repeated times (Hosting.input · (.emit e)), .flag true)
      else (w, .flag false)
  | .tap name =>
      let w := w.forgetTap name
      ({ w with taps := w.taps ++ [(name, w.bus.subscribe)] }, .nothing)
  | .drain name =>
      match w.taps.lookup name with
      | none => (w, .nothing)
      | some r =>
          let (receipts, r) := w.bus.receiveAll r
          let w := w.forgetTap name
          ({ w with taps := w.taps ++ [(name, r)] }, .receipts receipts)
  | .untap name => (w.forgetTap name, .flag (w.taps.lookup name).isSome)
  | .listen =>
      if w.owned then (Hosting.input w (.listen w.bus.subscribe), .flag true) else (w, .flag false)
  | .shutdown =>
      let w := w.settle
      if w.owned then w.shutDown else (w, .flag false)
  | .dropSet =>
      if w.owned then (Hosting.input { w with owned := false } .release, .flag true)
      else (w, .flag false)
  | .advance ms => (Hosted.advance settleTurns ms w, .nothing)
  | .settle => (w.settle, .nothing)
  | .release latch =>
      (HasExecutor.signal { w with opened := latch :: w.opened } (.latch latch), .nothing)

def seen (w : World) : List (String × List (Nat × Event)) :=
  w.subscribers.zipIdx.filterMap fun (s, k) =>
    s.diary.map fun name => (name, (w.notes.filter (·.1 == k)).map Prod.snd)

def runStep (w : World) (s : Step) : Observation × World :=
  let (w, answer) := w.take s
  ({ time := w.executor.now, answer, seen := w.seen, lines := w.lines },
    { w with notes := [], lines := [] })

def run : World → List Step → List Observation
  | _, [] => []
  | w, s :: rest =>
      let (o, w) := w.runStep s
      o :: w.run rest

end World

def World.ofSubscribers (busCapacity : Nat) (subscribers : List Subscriber) : World :=
  Hosting.start
    { bus := Bus.ofCapacity busCapacity
      set := { channels := subscribers.map fun s => Channel.ofCapacity s.name s.capacity }
      subscribers }

end Lifecycle.Subscribers.Scenario
