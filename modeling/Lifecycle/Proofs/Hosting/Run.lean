import Lifecycle.Proofs.Hosting.Window

/-!
# Runs of a world that hosts a gate

Users ask something of the gate, between the turns of its tasks or from inside a hook; the tasks of
the gate have their turns in any order; the clock moves on when there is nothing else to do; and the
gate is dropped when nothing holds it.  What else goes on is left open as long as it leaves the gate
alone.
-/

namespace Lifecycle.Gate

namespace Hosting

open HasExecutor

section Conduct

variable {W σ τ γ κ η : Type} [DecidableEq σ] [Hosting W σ τ γ κ η]

/-- Users ask the gate for the given things in turn, and other things go on beside. -/
inductive Conduct : W → List (Input γ κ) → W → Prop
  | done (w : W) : Conduct w [] w
  | aside {w v u : W} {asks : List (Input γ κ)} (frame : Frame none w v)
      (rest : Conduct v asks u) : Conduct w asks u
  | ask {w u : W} {request : Input γ κ} {asks : List (Input γ κ)}
      (isRequest : request.isRequest = true) (admitted : (state w).admits request = true)
      (rest : Conduct (input w request) asks u) : Conduct w (request :: asks) u

theorem Conduct.of_frame {w v : W} (frame : Frame none w v) : Conduct w [] v :=
  .aside frame (.done v)

end Conduct

section Turn

variable {W σ τ : Type} [DecidableEq σ] [HasExecutor W σ τ]

def begin (w : W) (id : TaskId) (queue : List TaskId) : W :=
  update w fun x => { x with ready := queue, running := some id }

def finish (w : W) (id : TaskId) : Rest σ τ → W
  | .ended => update w (·.retire id)
  | .waiting program signals deadline => update w (·.suspend id program signals deadline)
  | .yielding program => update w (·.requeue id program)

end Turn

section Run

variable {W σ τ γ κ η : Type} [DecidableEq σ] [Hooked W σ τ γ κ η]

/-- The worlds before and after a hook runs in the turn of a task, if one does. -/
def hookRun? (w : W) : Task η → Option (W × W)
  | .activation i none =>
      if (state w).activationAwaits i = [] ∧ callsHook (step w (.activate i)).2 = true then
        let v := input w (.activate i)
        let (u, hook) := Hooked.callActivate v i
        some (v, (Hooked.runActivate u i hook).1)
      else none
  | .activation i (some hook) => some (w, (Hooked.runActivate w i hook).1)
  | .teardown j none =>
      if (state w).teardownAwaits j = [] ∧ callsHook (step w (.deactivate j)).2 = true then
        let v := input w (.deactivate j)
        let (u, hook) := Hooked.callDeactivate v j
        some (v, (Hooked.runDeactivate u j hook).1)
      else none
  | .teardown j (some hook) => some (w, (Hooked.runDeactivate w j hook).1)
  | .grace _ _ => none

def Behaves (w : W) (t : Task η) (asks : List (Input γ κ)) : Prop :=
  match hookRun? w t with
  | none => asks = []
  | some (v, u) => Conduct v asks u

/-- What can happen next, and what users ask of the gate by it. -/
inductive Happens : W → List (Input γ κ) → W → Prop
  | conduct {w v : W} {asks : List (Input γ κ)} (conduct : Conduct w asks v) : Happens w asks v
  | turn {w : W} {id : TaskId} {t : Task η} {before after : List TaskId}
      {asks : List (Input γ κ)} (ready : (executor w).ready = before ++ id :: after)
      (task : job? w id = some t) (behaves : Behaves (begin w id (before ++ after)) t asks) :
      Happens w asks (finish (Hooked.turn (begin w id (before ++ after)) t).1 id
        (Hooked.turn (begin w id (before ++ after)) t).2)
  | reap {w : W} (leased : isHeld w = false → (state w).roster.isEmpty = true) :
      Happens w [] (reap w)
  | clock {w : W} {target : Nat} (idle : (executor w).ready = []) (later : now w ≤ target)
      (first : ∀ t ∈ (executor w).timers, target ≤ t.deadline) :
      Happens w [] (update w (·.moveClock target))

inductive Run : W → List (Input γ κ) → W → Prop
  | done (w : W) : Run w [] w
  | next {w v u : W} {asks more : List (Input γ κ)} (run : Run w asks v)
      (happens : Happens v more u) : Run w (asks ++ more) u

structure Fresh [Inhabited κ] (settings : RelaySettings) (w : W) : Prop where
  state : Hosting.state w = State.fresh settings.name settings.gracePeriod
  timer : (Hosting.timer w).pending = none ∧ (Hosting.timer w).discarded = [] ∧
    (Hosting.timer w).settings.leading = false
  numbered : (executor w).Numbered
  jobs : ∀ id, job? w id = none

end Run

end Hosting

end Lifecycle.Gate
