import Lifecycle.Event
import Lifecycle.Failure
import Lifecycle.Value

/-!
# The state of a supervisor

A supervisor runs at most one body for a key.  A task that is launched for a key takes it over from
its owner, which is cancelled; the new body starts once the owner has ended.  Tasks are numbered
from zero in the order in which they are launched.
-/

namespace Lifecycle.Supervisor

/-- A task is orphaned when it is dropped before its turn, while its predecessor has not ended. -/
inductive Stage where
  | waiting
  | running
  | orphaned
  | ended
  deriving DecidableEq, Repr

structure Task where
  key : Value
  previous : Option Nat
  cancelled : Bool
  stage : Stage := .waiting
  deriving DecidableEq, Repr

structure State where
  name : String
  owners : List (Value × Nat) := []
  tasks : List Task := []
  closed : Bool := false
  deriving DecidableEq, Repr

inductive Exit where
  | completed
  | cancelled
  | skipped
  deriving DecidableEq, Repr

def Exit.label : Exit → String
  | completed => "completed"
  | cancelled => "cancelled"
  | skipped => "skipped"

def Exit.shown : Exit → String
  | completed => "Completed"
  | cancelled => "Cancelled"
  | skipped => "Skipped"

/-- The result of a task as its launcher sees it. -/
inductive Result where
  | returned (r : Except TaskError Exit)
  | aborted
  | panicked (info : String)

namespace State

/-- Tasks are known outside by numbers from one. -/
def taskId (i : Nat) : Nat := i + 1

def owner? (s : State) (key : Value) : Option Nat := s.owners.lookup key

def isOwned (s : State) (key : Value) : Bool := (s.owner? key).isSome

def keys (s : State) : List Value := s.owners.map Prod.fst

def count (s : State) : Nat := s.owners.length

def isCancelled (s : State) (i : Nat) : Bool :=
  match s.tasks[i]? with
  | none => false
  | some task => task.cancelled

def isEnded (s : State) (i : Nat) : Bool :=
  match s.tasks[i]? with
  | none => false
  | some task => task.stage == .ended

/-- The predecessor that has not ended yet. -/
def awaits (s : State) (i : Nat) : Option Nat :=
  match s.tasks[i]? with
  | none => none
  | some task => task.previous.filter fun p => !s.isEnded p

def stillRunning (s : State) (tasks : List Nat) : List Nat := tasks.dropWhile s.isEnded

def shown (s : State) : String :=
  Text.record "Supervisor" [("name", Text.quoted s.name), ("owned", toString s.count)]

end State

end Lifecycle.Supervisor
