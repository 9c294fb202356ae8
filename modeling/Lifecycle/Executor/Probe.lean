import Lifecycle.Executor
import Lifecycle.Span

/-!
# Probing the executor

A probe sleeps several times in a row and notes after each sleep how much time has passed.
-/

namespace Lifecycle.Executor.Probe

inductive Task where
  | sleeper (sleeps : List Span) (deadline : Option Nat)
  | answer (n : Nat)

structure World where
  executor : Executor Empty Task := {}
  elapsed : List Span := []
  answered : Option Nat := none

instance : HasExecutor World Empty Task where
  executor := World.executor
  withExecutor w executor := { w with executor }

def doze (w : World) : List Span → World × Rest Empty Task
  | [] => (w, .ended)
  | d :: rest =>
      let now := w.executor.now
      if d.isZero then doze { w with elapsed := w.elapsed ++ [.ofMs now] } rest
      else (w, .waiting (.sleeper rest (some (now + d.ceilMs))) [] (some (now + d.ceilMs)))

instance : Hosted World Empty Task where
  turn w _
    | .sleeper sleeps none => doze w sleeps
    | .sleeper sleeps (some _) =>
        doze { w with elapsed := w.elapsed ++ [.ofMs w.executor.now] } sleeps
    | .answer n => ({ w with answered := some n }, .ended)
  discard w _ _ := w
  tidy w := w

def finds (world : Option World) : Bool := world.isSome

def length : List Span → Nat
  | [] => 0
  | d :: rest => d.ceilMs + length rest

def run (sleeps : List Span) (n : Nat) : World :=
  let w := HasExecutor.spawn (HasExecutor.spawn ({} : World) (.sleeper sleeps none)) (.answer n)
  Hosted.advance (sleeps.length + 2) (length sleeps) w

end Lifecycle.Executor.Probe
