import Lifecycle.Executor

/-!
# Foreground tasks

The main task of a program does not take its place among the tasks that it has started.  It has its
turn when no other task can run, and before the others when the clock has just moved.
-/

namespace Lifecycle

namespace Executor

variable {σ τ : Type}

def defer (x : Executor σ τ) (id : TaskId) : Executor σ τ :=
  if x.ready.contains id then { x with ready := x.ready.filter (· ≠ id) ++ [id] } else x

def hasten (x : Executor σ τ) (id : TaskId) : Executor σ τ :=
  if x.ready.contains id then { x with ready := id :: x.ready.filter (· ≠ id) } else x

end Executor

namespace Hosted

open HasExecutor

variable {W σ τ : Type} [DecidableEq σ] [Hosted W σ τ]

/-- Runs tasks, with `main` in the foreground, and moves the clock when none is left in the queue,
until `finished` holds.  The fuel is the number of turns. -/
def runForeground (main : TaskId) (finished : W → Bool) : Nat → W → W
  | 0, w => w
  | fuel + 1, w =>
      if finished w then w
      else if (executor w).ready.isEmpty then
        match (executor w).nextDeadline? with
        | none => w
        | some deadline =>
            runForeground main finished fuel
              (runNext (update w fun x => (x.moveClock deadline).hasten main))
      else runForeground main finished fuel (runNext (update w (·.defer main)))

end Hosted

end Lifecycle
