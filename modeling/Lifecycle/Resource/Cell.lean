import Lifecycle.Outcome
import Lifecycle.Report
import Lifecycle.Value

/-!
# Resources and their loads

A resource is a cell that holds the outcome of the latest load and shows each change to those who
watch it.  A load follows a fixed course: it writes that it is in progress, lets its body work, and
turns a failure of the body into a report and a last outcome.
-/

namespace Lifecycle.Resource

/-- A cell keeps all outcomes that were written to it; the last one is what it holds. -/
structure Cell (α : Type) where
  initial : Outcome α := .initial
  writes : List (Outcome α) := []
  closed : Bool := false
  deriving DecidableEq, Repr

namespace Cell

variable {α : Type}

def get (c : Cell α) : Outcome α := c.writes.getLastD c.initial

def data (c : Cell α) : Option α := c.get.data

def set (c : Cell α) (o : Outcome α) : Cell α := { c with writes := c.writes ++ [o] }

def version (c : Cell α) : Nat := c.writes.length

def shown (show? : α → String) (c : Cell α) : String :=
  Text.applied "Resource" (c.get.shown show?)

end Cell

/-- What a load was launched with; `seed` counts as known while it is in progress. -/
structure Load (α : Type) where
  seed : Option α
  keepsData : Bool := true
  deriving DecidableEq, Repr

namespace Load

variable {α : Type}

def ofCell (c : Cell α) : Load α := { seed := c.data }

def start (l : Load α) (c : Cell α) : Cell α := c.set (.progress l.seed)

/-- The end of a load: what is reported, what the cell holds then, and how the task returns.  Giving
in to a cancellation leaves the cell as it is. -/
def conclude (l : Load α) (c : Cell α) (r : Except TaskError Unit) :
    Option TaskError × Cell α × Except TaskError Unit :=
  match r with
  | .ok () => (none, c, .ok ())
  | .error e =>
      if e.isCancellation then (none, c, .error e)
      else (some e, c.set (.error e (if l.keepsData then c.data else none)), .ok ())

end Load

/-- An outcome that a load forwards to its cell: what is reported before, and the cell after. -/
def forward {α : Type} (c : Cell α) (o : Outcome α) : Option TaskError × Cell α :=
  (o.error?, c.set o)

structure Watcher where
  seen : Nat
  deriving DecidableEq, Repr

inductive Sight (α : Type) where
  | outcome (o : Outcome α)
  | closed
  | nothing

/-- A watcher sees the latest outcome when there are writes it has not seen. -/
def Watcher.look {α : Type} (v : Watcher) (c : Cell α) : Sight α × Watcher :=
  if v.seen < c.version then (.outcome c.get, { seen := c.version })
  else if c.closed then (.closed, v)
  else (.nothing, v)

def report (source : String) (key : Value) (e : TaskError) : Report :=
  { source, key := some key.shown, failure := .task e }

end Lifecycle.Resource
