import Lifecycle.Span

/-!
# Lifecycle events

Gates, relays, supervisors and subscriber sets tell what happens to them in events.  Which of the
optional parts an event carries depends on its kind.  The sequence number is given by the bus.
-/

namespace Lifecycle

inductive EventKind where
  | subscriberPanicked
  | subscriberOverflow
  | consumerAttached
  | consumerDetached
  | producerActivating
  | producerActive
  | producerDraining
  | producerInactive
  | producerCompleted
  | producerFailed
  | errorReported
  | taskLaunched
  | taskStarted
  | taskSkipped
  | taskCancelRequested
  | taskFinished
  | taskCancelled
  | taskFailed
  deriving DecidableEq, Repr

namespace EventKind

def shown : EventKind → String
  | subscriberPanicked => "SubscriberPanicked"
  | subscriberOverflow => "SubscriberOverflow"
  | consumerAttached => "ConsumerAttached"
  | consumerDetached => "ConsumerDetached"
  | producerActivating => "ProducerActivating"
  | producerActive => "ProducerActive"
  | producerDraining => "ProducerDraining"
  | producerInactive => "ProducerInactive"
  | producerCompleted => "UpstreamCompleted"
  | producerFailed => "UpstreamFailed"
  | errorReported => "ErrorReported"
  | taskLaunched => "TaskLaunched"
  | taskStarted => "TaskStarted"
  | taskSkipped => "TaskSkipped"
  | taskCancelRequested => "TaskCancelRequested"
  | taskFinished => "TaskFinished"
  | taskCancelled => "TaskCancelled"
  | taskFailed => "TaskFailed"

def all : List EventKind :=
  [subscriberPanicked, subscriberOverflow, consumerAttached, consumerDetached, producerActivating,
    producerActive, producerDraining, producerInactive, producerCompleted, producerFailed,
    errorReported, taskLaunched, taskStarted, taskSkipped, taskCancelRequested, taskFinished,
    taskCancelled, taskFailed]

def ofName? (name : String) : Option EventKind :=
  all.find? fun kind => kind.shown == name

end EventKind

structure Event where
  kind : EventKind
  seq : Nat := 0
  source : Option String := none
  key : Option String := none
  taskId : Option Nat := none
  consumers : Option Nat := none
  delayMs : Option Nat := none
  error : Option String := none
  deriving DecidableEq, Repr

namespace Event

def of (kind : EventKind) : Event := { kind }

/-- Whole milliseconds, at most what fits into 32 bits. -/
def clampMs (d : Span) : Nat := min d.wholeMs 4294967295

def withDelay (e : Event) (d : Span) : Event := { e with delayMs := some (clampMs d) }

def subscriberOverflow (subscriber reason : String) : Event :=
  { kind := .subscriberOverflow, source := some subscriber, error := some reason }

def subscriberPanicked (subscriber info : String) : Event :=
  { kind := .subscriberPanicked, source := some subscriber, error := some info }

def isOverflow (e : Event) : Bool := e.kind == .subscriberOverflow

end Event

end Lifecycle
