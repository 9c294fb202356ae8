import Lifecycle.Debouncer
import Lifecycle.Gate.Step
import Lifecycle.Report
import Lifecycle.Script

/-!
# A gate among the tasks of an executor

The hooks of a gate are called by tasks of their own, and its grace period is a job of a debouncer,
which is a task as well.  A world that hosts a gate says what its hooks do and what it means for a
consumer to be shown, offered or told something; the rest is the same for all gates.
-/

namespace Lifecycle.Gate

inductive Wait where
  | gate (s : Signal)
  | discarded (job : Nat)
  deriving DecidableEq, Repr

/-- The tasks of a gate.  A hook that has been called is at a place `η` of its program. -/
inductive Task (η : Type) where
  | activation (i : Nat) (hook : Option η)
  | teardown (j : Nat) (hook : Option η)
  | grace (job : Debouncer.Job) (epoch : Option Nat)

inductive HookTurn (σ η ρ : Type) where
  | waiting (hook : η) (signals : List σ) (deadline : Option Nat)
  | ended (result : ρ)

class Hosting (W : Type) (σ τ γ κ η : outParam Type) extends HasExecutor W σ τ where
  toSignal : Wait → σ
  toTask : Task η → τ
  ofTask? : τ → Option (Task η)
  state : W → State γ κ
  timer : W → Debouncer
  withTimer : W → Debouncer → W
  step : W → Input γ κ → W × List (Effect γ κ)
  consumer : W → Effect γ κ → W
  publish : W → Event → W
  report : W → Report → W
  isHeld : W → Bool

/-- A world that also says what the hooks of its gate do. -/
class Hooked (W : Type) (σ τ γ κ η : outParam Type) extends Hosting W σ τ γ κ η where
  callActivate : W → Nat → W × η
  runActivate : W → Nat → η → W × HookTurn σ η HookEnd
  callDeactivate : W → Nat → W × η
  runDeactivate : W → Nat → η → W × HookTurn σ η (Option String)

namespace Hosting

open HasExecutor

variable {W σ τ γ κ η : Type} [DecidableEq σ] [Hosting W σ τ γ κ η]

def discardJob (w : W) : W :=
  let timer := Hosting.timer w
  timer.pending.toList.foldl (fun w job => signal w (Hosting.toSignal W (.discarded job)))
    (withTimer w timer.discard)

def scheduleJob (w : W) (delay : Span) (epoch : Option Nat) : W :=
  let (timer, job) := (Hosting.timer w).schedule (now w) delay
  spawn (withTimer (discardJob w) timer) (Hosting.toTask W (.grace job epoch))

def perform (w : W) : Effect γ κ → W
  | .publish e => publish w e
  | .report e => report w { source := (state w).name, failure := .relay e }
  | .signal s => signal w (Hosting.toSignal W (.gate s))
  | .startActivation i => spawn w (Hosting.toTask W (.activation i none))
  | .startTeardown j => spawn w (Hosting.toTask W (.teardown j none))
  | .beginDrain grace epoch => scheduleJob w grace (some epoch)
  | .endDrain => scheduleJob w .zero none
  | .callActivate _ | .callDeactivate _ => w
  | e => consumer w e

def input (w : W) (i : Input γ κ) : W :=
  let (w, effects) := step w i
  effects.foldl perform w

def callsHook (effects : List (Effect γ κ)) : Bool :=
  effects.any fun
    | .callActivate _ | .callDeactivate _ => true
    | _ => false

/-- A task that calls a hook or ends a grace period holds the gate. -/
def Task.holds : Task η → Bool
  | .activation _ _ | .teardown _ _ => true
  | .grace _ epoch => epoch.isSome

/-- Drops the gate, and with it its debouncer, once nothing holds it any more. -/
def reap (w : W) : W :=
  let tasks := (executor w).tasks.filterMap fun t => Hosting.ofTask? W t.2
  if (state w).dropped || isHeld w || tasks.any Task.holds then w
  else discardJob (input w .drop)

end Hosting

namespace Hooked

open HasExecutor Hosting

variable {W σ τ γ κ η : Type} [DecidableEq σ] [Hooked W σ τ γ κ η]

def runActivation (w : W) (i : Nat) (hook : η) : W × Rest σ τ :=
  match runActivate w i hook with
  | (w, .waiting hook signals deadline) =>
      (w, .waiting (Hosting.toTask W (.activation i (some hook))) signals deadline)
  | (w, .ended result) => (input w (.activated i result), .ended)

def runTeardown (w : W) (j : Nat) (hook : η) : W × Rest σ τ :=
  match runDeactivate w j hook with
  | (w, .waiting hook signals deadline) =>
      (w, .waiting (Hosting.toTask W (.teardown j (some hook))) signals deadline)
  | (w, .ended panic) => (input w (.deactivated j panic), .ended)

def turn (w : W) (task : Task η) : W × Rest σ τ :=
  match task with
  | .activation i none =>
      match (state w).activationAwaits i with
      | s :: _ => (w, .waiting (Hosting.toTask W task) [Hosting.toSignal W (.gate s)] none)
      | [] =>
          let (w, effects) := step w (.activate i)
          let w := effects.foldl perform w
          if callsHook effects then
            let (w, hook) := callActivate w i
            runActivation w i hook
          else (w, .ended)
  | .activation i (some hook) => runActivation w i hook
  | .teardown j none =>
      match (state w).teardownAwaits j with
      | s :: _ => (w, .waiting (Hosting.toTask W task) [Hosting.toSignal W (.gate s)] none)
      | [] =>
          let (w, effects) := step w (.deactivate j)
          let w := effects.foldl perform w
          if callsHook effects then
            let (w, hook) := callDeactivate w j
            runTeardown w j hook
          else (w, .ended)
  | .teardown j (some hook) => runTeardown w j hook
  | .grace job epoch =>
      match (timer w).poll (now w) job with
      | .dropped => (w, .ended)
      | .sleep deadline =>
          (w, .waiting (Hosting.toTask W (.grace { job with deadline := some deadline } epoch))
            [Hosting.toSignal W (.discarded job.number)] (some deadline))
      | .start timer =>
          let w := withTimer w timer
          match epoch with
          | none => (w, .ended)
          | some epoch => (input w (.drainElapsed epoch), .ended)

end Hooked

end Lifecycle.Gate
