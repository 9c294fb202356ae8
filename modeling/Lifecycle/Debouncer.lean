import Lifecycle.Settings

/-!
# Debouncers

A debouncer holds at most one action back.  Scheduling another action discards the one that is
held back and starts a new wait.  Each schedule call makes a *job* with a number of its own; the job
runs as a task, waits, and then starts its action, unless it was discarded or is no longer the
latest.  An action that has started is out of the debouncer's reach.
-/

namespace Lifecycle

structure Debouncer where
  settings : DebounceSettings
  generation : Nat := 0
  pending : Option Nat := none
  discarded : List Nat := []
  lastStart : Option Nat := none
  deriving DecidableEq, Repr

namespace Debouncer

/-- One scheduled action, without the action itself. -/
structure Job where
  number : Nat
  wait : Span
  deadline : Option Nat := none
  deriving DecidableEq, Repr

def isPending (d : Debouncer) : Bool := d.pending.isSome

def wait (d : Debouncer) (now : Nat) (delay : Span) : Span :=
  if d.settings.leading then
    match d.lastStart with
    | none => .zero
    | some start => if (Span.ofMs (now - start)).ns < delay.ns then delay else .zero
  else delay

def discard (d : Debouncer) : Debouncer :=
  { d with pending := none, discarded := d.discarded ++ d.pending.toList }

def schedule (d : Debouncer) (now : Nat) (delay : Span) : Debouncer × Job :=
  let number := d.generation + 1
  ({ d.discard with generation := number, pending := some number },
    { number, wait := d.wait now delay })

def isDiscarded (d : Debouncer) (job : Job) : Bool := d.discarded.contains job.number

inductive Turn where
  | dropped
  | sleep (deadline : Nat)
  | start (d : Debouncer)
  deriving DecidableEq, Repr

def tryStart (d : Debouncer) (now : Nat) (job : Job) : Turn :=
  if d.isDiscarded job || d.generation != job.number then .dropped
  else .start { d with pending := none, lastStart := some now }

/-- A turn of a job.  Its wait begins with its first turn; without a wait it starts at once. -/
def poll (d : Debouncer) (now : Nat) (job : Job) : Turn :=
  if job.wait.isZero then d.tryStart now job
  else if d.isDiscarded job then .dropped
  else
    match job.deadline with
    | none => .sleep (now + job.wait.ceilMs)
    | some deadline => if now < deadline then .sleep deadline else d.tryStart now job

def shown (d : Debouncer) : String :=
  Text.record "Debouncer"
    [("config", d.settings.shown), ("pending", Text.truth d.isPending)]

end Debouncer

end Lifecycle
