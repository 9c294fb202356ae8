import Lifecycle.Executor
import Lifecycle.Subscribers.Step

/-!
# A subscriber set among the tasks of an executor

Each subscriber has a worker task, and listening to the bus is a task as well.  A world that hosts a
set says what its subscribers do with an event; the rest is the same for all sets.
-/

namespace Lifecycle.Subscribers

/-- The tasks of a set.  A subscriber that handles an event is at a place `η` of its program. -/
inductive Program (η : Type) where
  | worker (k : Nat) (handler : Option η)
  | listener

inductive HandlerTurn (σ η : Type) where
  | waiting (handler : η) (signals : List σ) (deadline : Option Nat)
  | ended (panic : Option String)

class Hosting (W : Type) (σ τ η : outParam Type) extends HasExecutor W σ τ where
  toSignal : Signal → σ
  toTask : Program η → τ
  state : W → State
  withState : W → State → W
  bus : W → Bus
  withBus : W → Bus → W

/-- A world that also says what the subscribers do. -/
class Handling (W : Type) (σ τ η : outParam Type) extends Hosting W σ τ η where
  callHandler : W → Nat → Event → W × η
  runHandler : W → Nat → η → W × HandlerTurn σ η

namespace Hosting

open HasExecutor

variable {W σ τ η : Type} [DecidableEq σ] [Hosting W σ τ η]

def publish (w : W) (e : Event) : W :=
  signal (withBus w ((bus w).publish e)) (Hosting.toSignal W .published)

def perform (w : W) : Effect → W
  | .publish e => publish w e
  | .signal s => signal w (Hosting.toSignal W s)
  | .startListener => spawn w (Hosting.toTask W .listener)
  | .handle _ _ => w

def input (w : W) (i : Input) : W :=
  let (s, effects) := (state w).step i
  effects.foldl perform (withState w s)

def start (w : W) : W :=
  (List.range (state w).channels.length).foldl
    (fun w k => spawn w (Hosting.toTask W (.worker k none))) w

def waitFor (program : Program η) (signals : List Signal) : Rest σ τ :=
  .waiting (Hosting.toTask W program) (signals.map (Hosting.toSignal W)) none

/-- The listener passes on what it receives until nothing is left.  When it has fallen behind it
says so and lets the other tasks have their turns.  The fuel is the number of receipts. -/
def passOn : Nat → W → W × Rest σ τ
  | fuel, w =>
      if (state w).stopping then (input w .unlisten, .ended)
      else
        match (state w).listener with
        | .absent | .ended => (w, .ended)
        | .listening r =>
            match (bus w).receive r with
            | (.nothing, _) => (w, waitFor (W := W) .listener [.stop, .published])
            | (.lagged lost, r) =>
                (input w (.hear (.lagged lost) r), .yielding (Hosting.toTask W .listener))
            | (.event e, r) =>
                let w := input w (.hear (.event e) r)
                match fuel with
                | 0 => (w, .yielding (Hosting.toTask W .listener))
                | fuel + 1 => passOn fuel w

/-- As many receipts as a turn of the listener can have: each event that is passed on can be refused
by every queue once, and the refusals of refusals are not published. -/
def unheard (w : W) : Nat :=
  match (state w).listener with
  | .absent | .ended => 0
  | .listening r => ((bus w).count - r.position) * ((state w).channels.length + 1) + 1

/-- Goes on with shutting the set down: stops the listener, then lets the set go, then waits for the
workers.  Gives what is still to be waited for; nothing once the set is shut down. -/
def shutDown (w : W) : W × List Signal :=
  let w := if (state w).stopping then w else input w .stop
  if (state w).listener.isListening then (w, [.listenerOver])
  else
    let w := input w .release
    (w, ((state w).unfinished?.map .workerOver).toList)

end Hosting

namespace Handling

open HasExecutor Hosting

variable {W σ τ η : Type} [DecidableEq σ] [Handling W σ τ η]

def next (w : W) (k : Nat) : W × (η ⊕ Rest σ τ) :=
  match (state w).waiting k with
  | e :: _ =>
      let (w, handler) := callHandler (input w (.take k)) k e
      (w, .inl handler)
  | [] =>
      if (state w).isOpen then (w, .inr (waitFor (W := W) (.worker k none) [.queue k]))
      else (input w (.finish k), .inr .ended)

def serve (k : Nat) : Nat → W → η → W × Rest σ τ
  | fuel, w, handler =>
      match runHandler w k handler with
      | (w, .waiting handler signals deadline) =>
          (w, .waiting (Hosting.toTask W (.worker k (some handler))) signals deadline)
      | (w, .ended panic) =>
          let w := input w (.handled k panic)
          match fuel with
          | 0 => (w, .yielding (Hosting.toTask W (.worker k none)))
          | fuel + 1 =>
              match next w k with
              | (w, .inl handler) => serve k fuel w handler
              | (w, .inr rest) => (w, rest)

def turn (w : W) : Program η → W × Rest σ τ
  | .listener => passOn (unheard w) w
  | .worker k (some handler) => serve k ((state w).waiting k).length.succ w handler
  | .worker k none =>
      let backlog := ((state w).waiting k).length
      match next w k with
      | (w, .inl handler) => serve k backlog w handler
      | (w, .inr rest) => (w, rest)

end Handling

end Lifecycle.Subscribers
