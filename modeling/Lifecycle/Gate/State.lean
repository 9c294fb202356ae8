import Lifecycle.Failure
import Lifecycle.Event

/-!
# The state of a gate

A gate stands between one producer and the consumers that share it.  The first consumer makes it
activate the producer, and some time after the last one has left it deactivates the producer.  Each
activation begins a *session*; a session ends with a *teardown*.  The hooks that start and stop the
producer run as tasks, and each waits for the hooks it must not overlap.
-/

namespace Lifecycle.Gate

inductive Phase where
  | inactive
  | activating
  | active
  | draining
  deriving DecidableEq, Repr

namespace Phase

def isLive : Phase → Bool
  | inactive => false
  | _ => true

def label : Phase → String
  | inactive => "inactive"
  | activating => "activating"
  | active => "active"
  | draining => "draining"

def shown : Phase → String
  | inactive => "Inactive"
  | activating => "Activating"
  | active => "Active"
  | draining => "DrainingToInactive"

end Phase

abbrev ConsumerId := Nat

def shownId (id : ConsumerId) : String := Text.applied "ConsumerId" (toString id)

/-- The attached consumers in the order in which they came. -/
structure Roster (γ : Type) where
  entries : List (ConsumerId × γ) := []
  nextId : ConsumerId := 1
  deriving DecidableEq, Repr

namespace Roster

variable {γ : Type}

def insert (r : Roster γ) (c : γ) : Roster γ :=
  { entries := r.entries ++ [(r.nextId, c)], nextId := r.nextId + 1 }

def find? (r : Roster γ) (id : ConsumerId) : Option γ := r.entries.lookup id

def erase (r : Roster γ) (id : ConsumerId) : Roster γ :=
  { r with entries := r.entries.filter fun e => e.1 != id }

def clear (r : Roster γ) : Roster γ := { r with entries := [] }

def members (r : Roster γ) : List γ := r.entries.map Prod.snd

def count (r : Roster γ) : Nat := r.entries.length

def isEmpty (r : Roster γ) : Bool := r.entries.isEmpty

end Roster

inductive Stage where
  | waiting
  | running
  | ended
  deriving DecidableEq, Repr

/-- Sessions and teardowns are numbered from zero in the order in which they begin.  The producer is
started once the teardown `after` is over. -/
structure Session where
  generation : Nat
  cancelled : Bool := false
  after : Option Nat
  stage : Stage := .waiting
  deriving DecidableEq, Repr

/-- The producer is stopped once the starting hook of `session` and the teardown `after` are over.
-/
structure Teardown where
  session : Option Nat
  after : Option Nat
  stage : Stage := .waiting
  deriving DecidableEq, Repr

/-- The state of a gate for consumers in `γ` with a cache in `κ`.  `generation` grows with every
activation and every teardown, and `drainEpoch` whenever a running grace period loses its meaning;
`dropped` is set once nothing holds the gate any more. -/
structure State (γ κ : Type) where
  name : String
  grace : Option Span
  phase : Phase := .inactive
  roster : Roster γ := {}
  cache : κ
  generation : Nat := 0
  drainEpoch : Nat := 0
  current : Option Nat := none
  lastTeardown : Option Nat := none
  sessions : List Session := []
  teardowns : List Teardown := []
  dropped : Bool := false
  deriving DecidableEq, Repr

namespace State

variable {γ κ : Type}

def fresh [Inhabited κ] (name : String) (grace : Option Span) : State γ κ :=
  { name, grace, cache := default }

def isCurrent (s : State γ κ) (i : Nat) : Bool :=
  match s.sessions[i]? with
  | none => false
  | some session => !s.dropped && session.generation == s.generation && s.phase.isLive

def isCancelled (s : State γ κ) (i : Nat) : Bool :=
  match s.sessions[i]? with
  | none => false
  | some session => session.cancelled

def activationOver (s : State γ κ) (i : Nat) : Bool :=
  match s.sessions[i]? with
  | none => false
  | some session => session.stage == .ended

def teardownOver (s : State γ κ) (j : Nat) : Bool :=
  match s.teardowns[j]? with
  | none => false
  | some teardown => teardown.stage == .ended

def shown (s : State γ κ) : String :=
  Text.record "Gate"
    [("name", Text.quoted s.name), ("state", s.phase.shown), ("consumers", toString s.roster.count)]

def shownSession (s : State γ κ) (i : Nat) : String :=
  Text.record "Session"
    [("generation", toString ((s.sessions[i]?.map Session.generation).getD 0)),
      ("cancelled", Text.truth (s.isCancelled i))]

end State

end Lifecycle.Gate
