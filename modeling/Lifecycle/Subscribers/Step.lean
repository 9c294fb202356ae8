import Lifecycle.Subscribers.State

/-!
# The steps of a subscriber set

A set takes one input at a time: what its holder asks of it, what the listener receives, and how the
workers get on.  A step changes the state and has effects, in order.  An input that does not fit the
state does nothing.

An event is offered to every queue.  A queue without room refuses it, and the refusal is published,
except when the refused event tells of a refusal itself.
-/

namespace Lifecycle.Subscribers

inductive Signal where
  | published
  | stop
  | listenerOver
  | queue (k : Nat)
  | workerOver (k : Nat)
  deriving DecidableEq, Repr

inductive Input where
  | emit (e : Event)
  | listen (r : Receiver)
  | hear (receipt : Receipt) (r : Receiver)
  | stop
  | unlisten
  | release
  | take (k : Nat)
  | handled (k : Nat) (panic : Option String)
  | finish (k : Nat)

inductive Effect where
  | publish (e : Event)
  | signal (s : Signal)
  | startListener
  | handle (k : Nat) (e : Event)
  deriving DecidableEq, Repr

def Channel.reply (c : Channel) (k : Nat) (e : Event) : List Effect :=
  if c.isFull then
    if e.isOverflow then [] else [.publish (.subscriberOverflow c.subscriber "full")]
  else [.signal (.queue k)]

/-- The notice that the listener publishes when events were overwritten. -/
def lagNotice : Event := .subscriberOverflow "listener" "lagged"

namespace State

def modifyChannel (s : State) (k : Nat) (f : Channel → Channel) : State :=
  { s with channels := s.channels.modify k f }

def fanOut (s : State) (e : Event) : State × List Effect :=
  ({ s with channels := s.channels.map (·.offer e) },
    s.channels.zipIdx.flatMap fun (c, k) => c.reply k e)

def farewell (s : State) : List Effect :=
  if s.isOpen then [] else (List.range s.channels.length).map fun k => .signal (.queue k)

/-- A set has at most one listener. -/
def listen (s : State) (r : Receiver) : State × List Effect :=
  match s.listener with
  | .absent => ({ s with listener := .listening r }, [.startListener])
  | .listening _ | .ended => (s, [])

def hear (s : State) (receipt : Receipt) (r : Receiver) : State × List Effect :=
  match s.listener with
  | .listening _ =>
      let moved := { s with listener := .listening r }
      match receipt with
      | .event e => moved.fanOut e
      | .lagged _ => (moved, [.publish lagNotice])
      | .nothing => (moved, [])
  | .absent | .ended => (s, [])

def unlisten (s : State) : State × List Effect :=
  match s.listener with
  | .listening _ =>
      let deaf := { s with listener := .ended }
      (deaf, .signal .listenerOver :: deaf.farewell)
  | .absent | .ended => (s, [])

def release (s : State) : State × List Effect :=
  if s.held then
    let left := { s with held := false }
    (left, left.farewell)
  else (s, [])

def take (s : State) (k : Nat) : State × List Effect :=
  match s.channels[k]? with
  | none => (s, [])
  | some c =>
      match c.work, c.waiting with
      | .idle, e :: _ =>
          (s.modifyChannel k fun c => { c with handed := c.handed + 1, work := .handling },
            [.handle k e])
      | _, _ => (s, [])

def handled (s : State) (k : Nat) (panic : Option String) : State × List Effect :=
  match s.channels[k]? with
  | none => (s, [])
  | some c =>
      if c.work == .handling then
        (s.modifyChannel k fun c => { c with work := .idle },
          panic.toList.map fun info => .publish (.subscriberPanicked c.subscriber info))
      else (s, [])

def finish (s : State) (k : Nat) : State × List Effect :=
  match s.channels[k]? with
  | none => (s, [])
  | some c =>
      if c.work == .idle && c.waiting.isEmpty && !s.isOpen then
        (s.modifyChannel k fun c => { c with work := .ended }, [.signal (.workerOver k)])
      else (s, [])

def step (s : State) : Input → State × List Effect
  | .emit e => if s.held then s.fanOut e else (s, [])
  | .listen r => s.listen r
  | .hear receipt r => s.hear receipt r
  | .stop => ({ s with stopping := true }, [.signal .stop])
  | .unlisten => s.unlisten
  | .release => s.release
  | .take k => s.take k
  | .handled k panic => s.handled k panic
  | .finish k => s.finish k

end State

end Lifecycle.Subscribers
