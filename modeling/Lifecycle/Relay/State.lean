import Lifecycle.Gate.Step
import Lifecycle.Value

/-!
# The state of a relay

A relay is a gate whose consumers are inboxes.  Every value that a current session emits goes into
the inboxes of all attached consumers.  A conflating relay keeps the last value for consumers that
come later.  A session that fails leaves its failure in the inboxes; one that completes closes them.
-/

namespace Lifecycle.Relay

inductive Item where
  | value (v : Value)
  | failure (e : ProducerError)
  deriving DecidableEq, Repr

/-- An inbox keeps everything that was put into it and how much of that has been taken out. -/
structure Inbox where
  delivered : List Item := []
  taken : Nat := 0
  closed : Bool := false
  abandoned : Bool := false
  deriving DecidableEq, Repr

namespace Inbox

def unread (b : Inbox) : List Item := b.delivered.drop b.taken

def put (b : Inbox) (item : Item) : Inbox :=
  if b.abandoned then b else { b with delivered := b.delivered ++ [item] }

def close (b : Inbox) : Inbox := { b with closed := true }

def abandon (b : Inbox) : Inbox := { b with abandoned := true }

inductive Taken where
  | item (i : Item)
  | pending
  | closed
  deriving DecidableEq, Repr

def take (b : Inbox) : Taken × Inbox :=
  match b.delivered[b.taken]? with
  | some i => (.item i, { b with taken := b.taken + 1 })
  | none => (if b.closed then .closed else .pending, b)

def takeAll (b : Inbox) : List Item × Inbox :=
  (b.unread, { b with taken := b.delivered.length })

end Inbox

/-- Inboxes are numbered from zero in the order in which they were made. -/
abbrev GateState := Gate.State Nat (Option Value)

abbrev Input := Gate.Input Nat (Option Value)

abbrev Effect := Gate.Effect Nat (Option Value)

structure State where
  gate : GateState
  conflate : Bool
  inboxes : List Inbox := []
  deriving DecidableEq, Repr

namespace State

def modifyInbox (s : State) (k : Nat) (f : Inbox → Inbox) : State :=
  { s with inboxes := s.inboxes.modify k f }

def deliver (s : State) : Effect → State
  | .replay (some v) k => s.modifyInbox k (·.put (.value v))
  | .offer k e => s.modifyInbox k fun b => (b.put (.failure e)).close
  | .close k | .part k => s.modifyInbox k (·.close)
  | _ => s

/-- A consumer accepts a failure while somebody reads its inbox. -/
def accepts (s : State) (k : Nat) : Bool :=
  match s.inboxes[k]? with
  | none => false
  | some b => !b.abandoned

def step (s : State) (i : Input) : State × List Effect :=
  let (gate, effects) := s.gate.step s.accepts i
  (effects.foldl deliver { s with gate }, effects)

/-- Makes the inbox for a new consumer.  It has the number `s.inboxes.length`. -/
def addInbox (s : State) : State := { s with inboxes := s.inboxes ++ [{}] }

def keep (s : State) (v : Value) : Option Value → Option Value :=
  fun last => if s.conflate then some v else last

/-- A session emits a value.  The value is refused when the session is over. -/
def emit (s : State) (i : Nat) (v : Value) : State × Except ProducerError Unit :=
  if s.gate.isCurrent i then
    let filled := s.gate.roster.members.foldl
      (fun s k => s.modifyInbox k (·.put (.value v))) s
    ((filled.step (.update i (s.keep v))).1, .ok ())
  else (s, .error .inactive)

def shown (s : State) : String := Text.record "Relay" [("gate", s.gate.shown)]

def shownEmitter (s : State) (i : Nat) : String :=
  Text.record "Emitter"
    [("session", s.gate.shownSession i), ("conflate", Text.truth s.conflate)]

end State

def shownConsumer (id : Gate.ConsumerId) : String :=
  Text.record "Consumer" [("id", Gate.shownId id)]

end Lifecycle.Relay
