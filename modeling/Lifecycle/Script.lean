import Lifecycle.Executor

/-!
# Scripts

A script is a list of items that a task works off in order.  An item is done at once, makes the
task wait, or ends the script early.
-/

namespace Lifecycle

inductive Reaction (σ ι ρ : Type) where
  | proceed
  | suspend (item : ι) (signals : List σ) (deadline : Option Nat)
  | giveWay (item : ι)
  | finish (result : ρ)

inductive Course (σ ι ρ : Type) where
  | completed
  | suspended (rest : List ι) (signals : List σ) (deadline : Option Nat)
  | gaveWay (rest : List ι)
  | finished (result : ρ)

/-- Works off the items until one makes the task wait or ends the script. -/
def runScript {W σ ι ρ : Type} (act : W → ι → W × Reaction σ ι ρ) :
    W → List ι → W × Course σ ι ρ
  | w, [] => (w, .completed)
  | w, item :: rest =>
      match act w item with
      | (w, .proceed) => runScript act w rest
      | (w, .suspend item signals deadline) => (w, .suspended (item :: rest) signals deadline)
      | (w, .giveWay item) => (w, .gaveWay (item :: rest))
      | (w, .finish result) => (w, .finished result)

inductive Pause where
  | sleep (ms : Nat)
  | until (deadline : Nat)
  | hold (latch : String)
  | hang
  deriving DecidableEq, Repr

/-- What a pause comes to at a given time: nothing more, or a wait. -/
def Pause.poll (now : Nat) (opened : List String) :
    Pause → Option (Pause × List String × Option Nat)
  | sleep ms => if ms = 0 then none else some (.until (now + ms), [], some (now + ms))
  | .until deadline => if deadline ≤ now then none else some (.until deadline, [], some deadline)
  | hold latch => if opened.contains latch then none else some (.hold latch, [latch], none)
  | hang => some (.hang, [], none)

inductive Panic where
  | text (s : String)
  | other
  deriving DecidableEq, Repr

def Panic.info : Panic → String
  | text s => s
  | other => "unknown panic"

def Pause.react {σ ι ρ : Type} (now : Nat) (opened : List String) (wrap : Pause → ι)
    (latch : String → σ) (p : Pause) : Reaction σ ι ρ :=
  match p.poll now opened with
  | none => .proceed
  | some (p, latches, deadline) => .suspend (wrap p) (latches.map latch) deadline

/-- More turns than any script takes before its tasks wait for each other or for the clock. -/
def turnLimit : Nat := 100000

end Lifecycle
