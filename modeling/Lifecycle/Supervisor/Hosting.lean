import Lifecycle.Script
import Lifecycle.Supervisor.Step

/-!
# A supervisor among the tasks of an executor

Each supervised body runs in a task of its own, and so does whoever waits for owners to end.  A
world that hosts a supervisor says what its bodies do; the rest is the same for all supervisors.
-/

namespace Lifecycle.Supervisor

/-- The tasks of a supervisor.  A body that has been called is at a place `β` of its program, and a
releaser sees to the key of an orphaned task. -/
inductive Program (β : Type) where
  | supervised (i : Nat) (body : Option β)
  | releaser (i : Nat)
  | cancelAll (pending : Option (List Nat))
  | waitIdle (pending : List Nat)

inductive BodyTurn (σ β : Type) where
  | waiting (body : β) (signals : List σ) (deadline : Option Nat)
  | yielding (body : β)
  | ended (r : Except TaskError Unit)
  | panicked (info : String)

class Hosting (W : Type) (σ τ β : outParam Type) extends HasExecutor W σ τ where
  toSignal : Signal → σ
  toTask : Program β → τ
  state : W → State
  withState : W → State → W
  publish : W → Event → W
  resolve : W → Nat → Result → W

/-- A world that also says what the bodies do. -/
class Bodied (W : Type) (σ τ β : outParam Type) extends Hosting W σ τ β where
  callBody : W → Nat → W × β
  runBody : W → Nat → β → W × BodyTurn σ β
  joined : W → Program β → W

namespace Hosting

open HasExecutor

variable {W σ τ β : Type} [DecidableEq σ] [Hosting W σ τ β]

def perform (w : W) : Effect → W
  | .publish e => publish w e
  | .signal s => signal w (Hosting.toSignal W s)
  | .start i => spawn w (Hosting.toTask W (.supervised i none))
  | .startRelease i => spawn w (Hosting.toTask W (.releaser i))
  | .resolve i r => resolve w i r
  | .callBody _ => w

def input (w : W) (i : Input) : W :=
  let (s, effects) := (state w).step i
  effects.foldl perform (withState w s)

def waitFor (program : Program β) (i : Nat) : Rest σ τ :=
  .waiting (Hosting.toTask W program) [Hosting.toSignal W (.ended i)] none

end Hosting

namespace Bodied

open HasExecutor Hosting

variable {W σ τ β : Type} [DecidableEq σ] [Bodied W σ τ β]

def run (w : W) (i : Nat) (body : β) : W × Rest σ τ :=
  match runBody w i body with
  | (w, .waiting body signals deadline) =>
      (w, .waiting (Hosting.toTask W (.supervised i (some body))) signals deadline)
  | (w, .yielding body) => (w, .yielding (Hosting.toTask W (.supervised i (some body))))
  | (w, .ended r) => (input w (.finish i r), .ended)
  | (w, .panicked info) => (input w (.panic i info), .ended)

def join (w : W) (pending : List Nat) (program : List Nat → Program β) : W × Rest σ τ :=
  match (state w).stillRunning pending with
  | [] => (joined w (program []), .ended)
  | i :: rest => (w, waitFor (W := W) (program (i :: rest)) i)

def turn (w : W) (program : Program β) : W × Rest σ τ :=
  match program with
  | .supervised i (some body) => run w i body
  | .supervised i none =>
      match (state w).awaits i with
      | some p => (w, waitFor (W := W) program p)
      | none =>
          let calls := !(state w).isCancelled i
          let w := input w (.begin i)
          if calls then
            let (w, body) := callBody w i
            run w i body
          else (w, .ended)
  | .releaser i =>
      match (state w).awaits i with
      | some p => (w, waitFor (W := W) program p)
      | none => (input w (.release i), .ended)
  | .cancelAll none =>
      let owners := (state w).owners
      let w := owners.foldl (fun w o => input w (.cancel o.1)) w
      join w (owners.map Prod.snd) fun pending => .cancelAll (some pending)
  | .cancelAll (some pending) => join w pending fun pending => .cancelAll (some pending)
  | .waitIdle pending =>
      match (state w).stillRunning pending with
      | i :: rest => (w, waitFor (W := W) (.waitIdle (i :: rest)) i)
      | [] => join w ((state w).owners.map Prod.snd) .waitIdle

def discard (w : W) : Program β → W
  | .supervised i _ => input w (.abort i)
  | _ => w

end Bodied

end Lifecycle.Supervisor
