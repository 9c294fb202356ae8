/-!
# A single-threaded executor on a virtual clock

Tasks wait in one queue and have their turns in order.  A turn lasts until the task ends or has to
wait for signals, for the clock, or for both, whichever comes first.  A signal that is given wakes
the tasks that wait for it in the order in which they began to wait.  The clock stands still while
a task can run; it moves on to the next timer when nothing else is left to do.

The executor knows nothing of what a task does: `σ` are the signals that tasks wait for and `τ` the
places in a task's program at which it can wait.
-/

namespace Lifecycle

abbrev TaskId := Nat

/-- Rings for a task when the clock reaches the deadline, in milliseconds. -/
structure Timer where
  deadline : Nat
  task : TaskId
  deriving DecidableEq, Repr

structure Executor (σ τ : Type) where
  now : Nat := 0
  nextTask : TaskId := 0
  tasks : List (TaskId × τ) := []
  ready : List TaskId := []
  waits : List (σ × TaskId) := []
  timers : List Timer := []
  doomed : List TaskId := []
  running : Option TaskId := none

namespace Executor

variable {σ τ : Type} [DecidableEq σ]

def task? (x : Executor σ τ) (id : TaskId) : Option τ :=
  x.tasks.lookup id

/-- Puts an unfinished task at the end of the queue unless it is in the queue already.  The task
that has its turn looks around itself before it waits and needs no waking. -/
def wake (x : Executor σ τ) (id : TaskId) : Executor σ τ :=
  if (x.task? id).isNone || x.ready.contains id || x.running == some id then x
  else { x with ready := x.ready ++ [id] }

def wakeAll (x : Executor σ τ) (ids : List TaskId) : Executor σ τ :=
  ids.foldl wake x

def spawn (x : Executor σ τ) (program : τ) : Executor σ τ :=
  { x with
    nextTask := x.nextTask + 1
    tasks := x.tasks ++ [(x.nextTask, program)]
    ready := x.ready ++ [x.nextTask] }

def waiting (x : Executor σ τ) (s : σ) : List TaskId :=
  (x.waits.filter fun w => w.1 = s).map Prod.snd

def signal (x : Executor σ τ) (s : σ) : Executor σ τ :=
  { x with waits := x.waits.filter fun w => w.1 ≠ s }.wakeAll (x.waiting s)

def forget (x : Executor σ τ) (id : TaskId) : Executor σ τ :=
  { x with
    waits := x.waits.filter fun w => w.2 ≠ id
    timers := x.timers.filter fun t => t.task ≠ id }

def next? (x : Executor σ τ) : Option (TaskId × Executor σ τ) :=
  match x.ready with
  | [] => none
  | id :: rest => some (id, { x with ready := rest, running := some id })

def place (x : Executor σ τ) (id : TaskId) (program : τ) : Executor σ τ :=
  { x with
    tasks := x.tasks.map fun t => if t.1 = id then (id, program) else t
    running := none }

/-- Lets a task wait for any of the signals or for the deadline.  Its place in the wait for a signal
that it has been waiting for already is kept; a timer is always started anew. -/
def suspend (x : Executor σ τ) (id : TaskId) (program : τ) (signals : List σ)
    (deadline : Option Nat) : Executor σ τ :=
  let x := x.place id program
  let kept := x.waits.filter fun w => w.2 ≠ id || signals.contains w.1
  { x with
    waits := kept ++ (signals.map fun s => (s, id)).filter fun w => !kept.contains w
    timers := x.timers.filter (fun t => t.task ≠ id) ++ (deadline.map fun d => ⟨d, id⟩).toList }

def requeue (x : Executor σ τ) (id : TaskId) (program : τ) : Executor σ τ :=
  ((x.place id program).forget id).wake id

def retire (x : Executor σ τ) (id : TaskId) : Executor σ τ :=
  { x.forget id with
    tasks := x.tasks.filter fun t => t.1 ≠ id
    ready := x.ready.filter (· ≠ id)
    doomed := x.doomed.filter (· ≠ id)
    running := none }

/-- Lets a task be dropped, without running on, when its turn comes. -/
def abort (x : Executor σ τ) (id : TaskId) : Executor σ τ :=
  if (x.task? id).isNone then x
  else { x with doomed := id :: x.doomed }.wake id

def nextDeadline? (x : Executor σ τ) : Option Nat :=
  (x.timers.map Timer.deadline).min?

/-- Moves the clock and wakes the tasks whose timers ring, by deadline and then by start. -/
def moveClock (x : Executor σ τ) (now : Nat) : Executor σ τ :=
  let (due, later) := x.timers.partition fun t => t.deadline ≤ now
  let rung := due.mergeSort fun s t => s.deadline ≤ t.deadline
  { x with now, timers := later }.wakeAll (rung.map Timer.task)

end Executor

inductive Rest (σ τ : Type) where
  | ended
  | waiting (program : τ) (signals : List σ) (deadline : Option Nat)
  | yielding (program : τ)

/-- A world with an executor in it. -/
class HasExecutor (W : Type) (σ τ : outParam Type) where
  executor : W → Executor σ τ
  withExecutor : W → Executor σ τ → W

namespace HasExecutor

variable {W σ τ : Type} [DecidableEq σ] [HasExecutor W σ τ]

def update (w : W) (f : Executor σ τ → Executor σ τ) : W :=
  withExecutor w (f (executor w))

def now (w : W) : Nat := (executor w).now

def spawn (w : W) (program : τ) : W := update w (·.spawn program)

def signal (w : W) (s : σ) : W := update w (·.signal s)

end HasExecutor

/-- A world in which the tasks of its executor act. -/
class Hosted (W : Type) (σ τ : outParam Type) extends HasExecutor W σ τ where
  turn : W → TaskId → τ → W × Rest σ τ
  discard : W → TaskId → τ → W
  tidy : W → W

namespace Hosted

open HasExecutor

variable {W σ τ : Type} [DecidableEq σ] [Hosted W σ τ]

def leave (w : W) (id : TaskId) : Rest σ τ → W
  | .ended => update w (·.retire id)
  | .waiting program signals deadline => update w (·.suspend id program signals deadline)
  | .yielding program => update w (·.requeue id program)

def runNext (w : W) : W :=
  match (executor w).next? with
  | none => w
  | some (id, x) =>
      let w := withExecutor w x
      match x.task? id with
      | none => w
      | some program =>
          if x.doomed.contains id then tidy (update (discard w id program) (·.retire id))
          else
            let (w, rest) := turn w id program
            tidy (leave w id rest)

def settle : Nat → W → W
  | 0, w => w
  | fuel + 1, w => if (executor w).ready.isEmpty then w else settle fuel (runNext w)

def advanceTo (turns : Nat) (target : Nat) : Nat → W → W
  | 0, w => w
  | fuel + 1, w =>
      match (executor w).nextDeadline? with
      | none => w
      | some deadline =>
          if target < deadline then w
          else advanceTo turns target fuel (settle turns (update w (·.moveClock deadline)))

def advanceUntil (finished : W → Bool) (turns : Nat) (target : Nat) : Nat → W → W
  | 0, w => w
  | fuel + 1, w =>
      if finished w then w
      else
        match (executor w).nextDeadline? with
        | none => w
        | some deadline =>
            if target < deadline then w
            else
              advanceUntil finished turns target fuel
                (settle turns (update w (·.moveClock deadline)))

/-- Lets `ms` milliseconds pass.  Each step of the clock is at least a millisecond. -/
def advance (turns : Nat) (ms : Nat) (w : W) : W :=
  let w := settle turns w
  let target := now w + ms
  update (advanceTo turns target (ms + 1) w) (·.moveClock target)

end Hosted

end Lifecycle
