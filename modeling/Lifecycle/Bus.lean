import Lifecycle.Event

/-!
# The event bus

A bus numbers the events that are published on it and keeps the last of them for its receivers.
How many it keeps, its window, is the capacity asked for, at least one, rounded up to a power of
two.  A receiver that has fallen behind the window is told once how many events it lost and goes on
with the oldest event that is still kept.
-/

namespace Lifecycle

structure Bus where
  window : Nat
  published : Array Event := #[]

namespace Bus

def ofCapacity (capacity : Nat) : Bus :=
  { window := (max 1 capacity).nextPowerOfTwo }

def defaultCapacity : Nat := 1024

def publish (bus : Bus) (e : Event) : Bus :=
  { bus with published := bus.published.push { e with seq := bus.published.size + 1 } }

def count (bus : Bus) : Nat := bus.published.size

def overwritten (bus : Bus) : Nat := bus.count - bus.window

end Bus

/-- A receiver stands behind a number of the events of its bus. -/
structure Receiver where
  position : Nat
  deriving DecidableEq, Repr

inductive Receipt where
  | event (e : Event)
  | lagged (lost : Nat)
  | nothing
  deriving DecidableEq, Repr

namespace Bus

def subscribe (bus : Bus) : Receiver := ⟨bus.count⟩

def receive (bus : Bus) (r : Receiver) : Receipt × Receiver :=
  if r.position < bus.overwritten then
    (.lagged (bus.overwritten - r.position), ⟨bus.overwritten⟩)
  else
    match bus.published[r.position]? with
    | some e => (.event e, ⟨r.position + 1⟩)
    | none => (.nothing, r)

def drain (bus : Bus) : Nat → Receiver → List Receipt × Receiver
  | 0, r => ([], r)
  | fuel + 1, r =>
      match bus.receive r with
      | (.nothing, r) => ([], r)
      | (receipt, r) =>
          let (later, r) := bus.drain fuel r
          (receipt :: later, r)

/-- Everything the receiver can get now.  There is at most one receipt for each event that is kept
and one for the lost ones. -/
def receiveAll (bus : Bus) (r : Receiver) : List Receipt × Receiver :=
  bus.drain (bus.count - r.position + 1) r

end Bus

def Receipt.events (receipts : List Receipt) : List Event :=
  receipts.filterMap fun
    | .event e => some e
    | _ => none

end Lifecycle
