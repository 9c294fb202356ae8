import Lifecycle.Gate.Hosting
import Lifecycle.Journal

/-!
# Gates without hooks of their own

The hooks of a plain gate do nothing: consumers are not shown the cache, take no failure and hear
of no end, and stopping the producer takes no time.  Only the starting hook may fail.
-/

namespace Lifecycle.Gate.Plain

abbrev Task := Gate.Task Unit

structure World where
  executor : Executor Wait Task := {}
  gate : State Unit Unit
  timer : Debouncer
  journal : Journal
  refusals : List (Option ProducerError)
  begun : List Nat := []
  leases : List ConsumerId := []

instance : HasExecutor World Wait Task where
  executor := World.executor
  withExecutor w executor := { w with executor }

instance : Hosting World Wait Task Unit Unit Unit where
  toSignal := id
  toTask := id
  ofTask? := some
  state := World.gate
  timer := World.timer
  withTimer w timer := { w with timer }
  step w i :=
    let (gate, effects) := w.gate.step (fun _ => false) i
    ({ w with gate }, effects)
  consumer w _ := w
  publish w e := { w with journal := w.journal.publish e }
  report w r := { w with journal := w.journal.report r }
  isHeld _ := true

instance : Hooked World Wait Task Unit Unit Unit where
  callActivate w i := ({ w with begun := w.begun ++ [i] }, ())
  runActivate w _ _ :=
    match (w.refusals[w.begun.length - 1]?).join with
    | none => (w, .ended .returned)
    | some e => (w, .ended (.refused e))
  callDeactivate w _ := (w, ())
  runDeactivate w _ _ := (w, .ended none)

instance : Hosted World Wait Task where
  turn w _ t := Hooked.turn w t
  discard w _ _ := w
  tidy w := w

inductive Step where
  | attach
  | drop
  | complete
  | fail (e : ProducerError)
  | count
  | advance (ms : Nat)
  | settle

inductive Answer where
  | nothing
  | flag (b : Bool)
  | number (n : Nat)

structure Observation where
  time : Nat
  answer : Answer
  phase : Phase
  consumers : Nat
  events : List Event
  reports : List Report

namespace World

def take (w : World) : Step → World × Answer
  | .attach =>
      let id := w.gate.roster.nextId
      ({ Hosting.input w (.attach ()) with leases := id :: w.leases }, .number id)
  | .drop =>
      match w.leases with
      | [] => (w, .nothing)
      | id :: rest => (Hosting.input { w with leases := rest } (.release id), .number id)
  | .complete =>
      match w.begun.getLast? with
      | none => (w, .nothing)
      | some i => (Hosting.input w (.complete i), .flag (w.gate.isCurrent i))
  | .fail e =>
      match w.begun.getLast? with
      | none => (w, .flag false)
      | some i => (Hosting.input w (.fail i e), .flag true)
  | .count =>
      match w.begun.getLast? with
      | none => (w, .nothing)
      | some i => (w, if w.gate.isCurrent i then .number w.gate.roster.count else .nothing)
  | .advance ms => (Hosted.advance turnLimit ms w, .nothing)
  | .settle => (Hosted.settle turnLimit w, .nothing)

def runStep (w : World) (s : Step) : Observation × World :=
  let (w, answer) := w.take s
  let (events, journal) := w.journal.readEvents
  ({ time := w.executor.now
     answer
     phase := w.gate.phase
     consumers := w.gate.roster.count
     events
     reports := w.journal.reports }, { w with journal := journal.turnPage })

def run : World → List Step → List Observation
  | _, [] => []
  | w, s :: rest =>
      let (o, w) := w.runStep s
      o :: w.run rest

def plain (grace : Span) (refusals : List (Option ProducerError)) : World :=
  let settings : RelaySettings := { name := "plain", grace }
  { gate := State.fresh settings.name settings.gracePeriod
    timer := { settings := { delay := settings.gracePeriod.getD .zero } }
    journal := Journal.start true true
    refusals }

end World

end Lifecycle.Gate.Plain
