import Lifecycle.Span

/-!
# Settings

A grace period of zero means none at all: the producer is torn down with its last consumer.
-/

namespace Lifecycle

/-- The quiet period of debouncers and the grace period of gates unless set otherwise. -/
def defaultDelay : Span := .ofMs 500

structure DebounceSettings where
  delay : Span := defaultDelay
  leading : Bool := false
  deriving DecidableEq, Repr

def DebounceSettings.shown (s : DebounceSettings) : String :=
  Text.record "DebounceConfig"
    [("delay", s.delay.text), ("trigger_first_immediately", Text.truth s.leading)]

structure RelaySettings where
  name : String := "relay"
  grace : Span := defaultDelay
  conflate : Bool := false
  deriving DecidableEq, Repr

namespace RelaySettings

def gracePeriod (s : RelaySettings) : Option Span :=
  if s.grace.isZero then none else some s.grace

def shown (s : RelaySettings) : String :=
  Text.record "RelayConfig"
    [("name", Text.quoted s.name), ("grace", s.grace.text), ("conflate", Text.truth s.conflate)]

end RelaySettings

structure SupervisorSettings where
  name : String := "supervisor"
  deriving DecidableEq, Repr

def SupervisorSettings.shown (s : SupervisorSettings) : String :=
  Text.record "SupervisorConfig" [("name", Text.quoted s.name)]

end Lifecycle
