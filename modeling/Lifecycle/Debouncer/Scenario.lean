import Lifecycle.Debouncer
import Lifecycle.Script

/-!
# Scenarios for debouncers

A scenario schedules named actions on one debouncer.  An action follows a script, which may
schedule further actions.
-/

namespace Lifecycle.Debouncer.Scenario

inductive Item where
  | pause (p : Pause)
  | panic (p : Panic)
  | schedule (name : String) (after : Option Span) (body : List Item)

inductive Note where
  | started (name : String)
  | ended (name : String)
  | nested (accepted : Bool)

inductive Signal where
  | discarded (job : Nat)
  | latch (name : String)
  deriving DecidableEq, Repr

inductive Task where
  | held (job : Job) (name : String) (body : List Item)
  | acting (name : String) (rest : List Item)

structure World where
  executor : Executor Signal Task := {}
  debouncer : Debouncer
  alive : Bool := true
  opened : List String := []
  notes : List (Nat × Note) := []

instance : HasExecutor World Signal Task where
  executor := World.executor
  withExecutor w executor := { w with executor }

namespace World

def note (w : World) (n : Note) : World :=
  { w with notes := w.notes ++ [(w.executor.now, n)] }

def discard (w : World) : World :=
  w.debouncer.pending.toList.foldl (fun w job => HasExecutor.signal w (.discarded job))
    { w with debouncer := w.debouncer.discard }

def schedule (w : World) (name : String) (after : Option Span) (body : List Item) : World :=
  let delay := after.getD w.debouncer.settings.delay
  let (debouncer, job) := w.debouncer.schedule w.executor.now delay
  HasExecutor.spawn { w.discard with debouncer } (.held job name body)

end World

def act (w : World) : Item → World × Reaction Signal Item Unit
  | .pause p => (w, p.react w.executor.now w.opened .pause .latch)
  | .panic _ => (w, .finish ())
  | .schedule name after body =>
      if w.alive then ((w.schedule name after body).note (.nested true), .proceed)
      else (w.note (.nested false), .proceed)

def runAction (w : World) (name : String) (body : List Item) : World × Rest Signal Task :=
  match runScript act w body with
  | (w, .completed) => (w.note (.ended name), .ended)
  | (w, .finished ()) => (w, .ended)
  | (w, .suspended rest signals deadline) => (w, .waiting (.acting name rest) signals deadline)
  | (w, .gaveWay rest) => (w, .yielding (.acting name rest))

instance : Hosted World Signal Task where
  turn w _
    | .acting name rest => runAction w name rest
    | .held job name body =>
        match w.debouncer.poll w.executor.now job with
        | .dropped => (w, .ended)
        | .sleep deadline =>
            (w, .waiting (.held { job with deadline := some deadline } name body)
              [.discarded job.number] (some deadline))
        | .start debouncer => runAction ({ w with debouncer }.note (.started name)) name body
  discard w _ _ := w
  tidy w := w

inductive Step where
  | schedule (name : String) (after : Option Span) (body : List Item)
  | drop
  | debug
  | advance (ms : Nat)
  | settle
  | release (latch : String)

inductive Answer where
  | nothing
  | flag (b : Bool)
  | text (s : String)

structure Observation where
  time : Nat
  answer : Answer
  pending : Option Bool
  notes : List (Nat × Note)

namespace World

def take (w : World) : Step → World × Answer
  | .schedule name after body =>
      if w.alive then (w.schedule name after body, .flag true) else (w, .flag false)
  | .drop =>
      if w.alive then ({ w.discard with alive := false }, .flag true) else (w, .flag false)
  | .debug =>
      (w, if w.alive then
          .text (w.debouncer.shown ++ " delay=" ++ w.debouncer.settings.delay.text)
        else .nothing)
  | .advance ms => (Hosted.advance turnLimit ms w, .nothing)
  | .settle => (Hosted.settle turnLimit w, .nothing)
  | .release latch =>
      (HasExecutor.signal { w with opened := latch :: w.opened } (.latch latch), .nothing)

def runStep (w : World) (s : Step) : Observation × World :=
  let (w, answer) := w.take s
  ({ time := w.executor.now
     answer
     pending := if w.alive then some w.debouncer.isPending else none
     notes := w.notes }, { w with notes := [] })

def run : World → List Step → List Observation
  | _, [] => []
  | w, s :: rest =>
      let (o, w) := w.runStep s
      o :: w.run rest

end World

end Lifecycle.Debouncer.Scenario
