import Lifecycle.Debouncer.Scenario
import Lifecycle.Proofs.Debouncer.Slot
import Lifecycle.Proofs.Executor.Turns
import Lifecycle.Proofs.Script

/-!
# Runs of a debouncer

In each act somebody calls the debouncer, drops it or opens a latch, one of the tasks in the queue
has its turn, or the clock moves, when there is nothing else to do, and not beyond the next timer.
The log of a run tells what happens to the debouncer by it.
-/

namespace Lifecycle.Debouncer.Scenario

instance : LawfulExecutor World where
  executor_withExecutor _ _ := rfl
  withExecutor_withExecutor _ _ _ := rfl

abbrev Action := String × List Item

inductive Act where
  | schedule (name : String) (after : Option Span) (body : List Item)
  | drop
  | release (latch : String)
  | turn (id : TaskId)
  | clock (target : Nat)

namespace World

open HasExecutor

def fresh (settings : DebounceSettings) : World := { debouncer := { settings } }

def perform (w : World) : Act → World
  | .schedule name after body => (w.take (.schedule name after body)).1
  | .drop => (w.take .drop).1
  | .release latch => (w.take (.release latch)).1
  | .turn id => Hosted.runTurn w id
  | .clock target => update w (·.moveClock target)

def admits (w : World) : Act → Bool
  | .turn id => w.executor.ready.contains id
  | .clock target =>
      w.executor.ready.isEmpty && decide (w.executor.now ≤ target) &&
        w.executor.timers.all fun t => target ≤ t.deadline
  | _ => true

def after (w : World) (acts : List Act) : World := acts.foldl perform w

def orderly (w : World) : List Act → Bool
  | [] => true
  | a :: rest => w.admits a && (w.perform a).orderly rest

theorem orderly_cons (w : World) (a : Act) (rest : List Act) :
    w.orderly (a :: rest) = true ↔ w.admits a = true ∧ (w.perform a).orderly rest = true := by
  simp [orderly]

/-! ## The log -/

def called (w : World) (name : String) (after : Option Span) (body : List Item) :
    List (Entry Action) :=
  if w.alive then
    [.scheduled (w.debouncer.generation + 1) (name, body) w.executor.now
      (after.getD w.debouncer.settings.delay)]
  else []

def asked (w : World) : Item → List (Entry Action)
  | .schedule name after body => w.called name after body
  | .pause _ | .panic _ => []

def calls (w : World) (items : List Item) : List (Entry Action) := tally act asked w items

def deeds (w : World) : Task → List (Entry Action)
  | .acting _ rest => w.calls rest
  | .held job name body =>
      match w.debouncer.poll w.executor.now job with
      | .start debouncer =>
          .started job.number (name, body) w.executor.now ::
            ({ w with debouncer }.note (.started name)).calls body
      | _ => []

def entries (w : World) : Act → List (Entry Action)
  | .schedule name after body => w.called name after body
  | .drop => if w.alive then [.dropped w.executor.now] else []
  | .turn id => ((w.executor.task? id).map (update w (·.call id)).deeds).getD []
  | .release _ | .clock _ => []

def log (w : World) : List Act → List (Entry Action)
  | [] => []
  | a :: rest => w.entries a ++ (w.perform a).log rest

def starts (w : World) : List (Nat × String) :=
  w.notes.filterMap fun
    | (time, .started name) => some (time, name)
    | _ => none

end World

end Lifecycle.Debouncer.Scenario
