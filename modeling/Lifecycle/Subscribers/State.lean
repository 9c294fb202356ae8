import Lifecycle.Bus

/-!
# The state of a subscriber set

A subscriber set hands events on to its subscribers.  Each subscriber has a queue of bounded length
and a worker that takes the events out of it, one at a time and in order.  A set may also have a
listener, which passes on what is published on a bus.  The workers go on until nobody is left who
could put events into their queues.
-/

namespace Lifecycle.Subscribers

inductive Work where
  | idle
  | handling
  | ended
  deriving DecidableEq, Repr

/-- The queue of a subscriber keeps all events that it has accepted; `handed` of them are behind the
subscriber. -/
structure Channel where
  subscriber : String
  capacity : Nat
  accepted : List Event := []
  handed : Nat := 0
  work : Work := .idle
  deriving DecidableEq, Repr

namespace Channel

def ofCapacity (subscriber : String) (capacity : Nat) : Channel :=
  { subscriber, capacity := max 1 capacity }

def waiting (c : Channel) : List Event := c.accepted.drop c.handed

def isFull (c : Channel) : Bool := c.capacity ≤ c.waiting.length

def offer (c : Channel) (e : Event) : Channel :=
  if c.isFull then c else { c with accepted := c.accepted ++ [e] }

end Channel

inductive Listener where
  | absent
  | listening (r : Receiver)
  | ended
  deriving DecidableEq, Repr

namespace Listener

def isListening : Listener → Bool
  | listening _ => true
  | _ => false

end Listener

structure State where
  channels : List Channel
  listener : Listener := .absent
  held : Bool := true
  stopping : Bool := false
  deriving DecidableEq, Repr

namespace State

def isOpen (s : State) : Bool := s.held || s.listener.isListening

def waiting (s : State) (k : Nat) : List Event :=
  match s.channels[k]? with
  | none => []
  | some c => c.waiting

def unfinished? (s : State) : Option Nat := s.channels.findIdx? fun c => c.work != .ended

end State

end Lifecycle.Subscribers
