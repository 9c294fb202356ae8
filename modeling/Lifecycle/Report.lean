import Lifecycle.Failure
import Lifecycle.Event

/-!
# Reports and log lines

A failure that no consumer can take goes to a reporter as a report.  Reports and events are also
written as log lines.
-/

namespace Lifecycle

structure Report where
  source : String
  key : Option String := none
  failure : Failure
  deriving DecidableEq, Repr

inductive LogLevel where
  | info
  | warn
  | error
  deriving DecidableEq, Repr

def LogLevel.shown : LogLevel → String
  | info => "INFO"
  | warn => "WARN"
  | error => "ERROR"

structure LogLine where
  level : LogLevel
  target : String
  message : String
  fields : List (String × String) := []
  deriving DecidableEq, Repr

/-- The line written for a failure that nobody could be given. -/
def Report.logLine (r : Report) : LogLine :=
  { level := .error
    target := "relayvisor::reporting"
    message := "undeliverable failure: " ++ r.failure.text
    fields := [("source", r.source), ("key", r.key.getD "-"), ("label", r.failure.label)] }

namespace Event

private def shownCount (n : Option Nat) : String := Text.optional (n.map toString)

private def shownText (s : Option String) : String := Text.optional (s.map Text.quoted)

def tag : EventKind → String
  | .consumerAttached => "attached"
  | .consumerDetached => "detached"
  | .producerActivating => "activating"
  | .producerActive => "active"
  | .producerDraining => "draining"
  | .producerInactive => "inactive"
  | .producerCompleted => "completed"
  | .producerFailed => "upstream-failed"
  | .errorReported => "reported"
  | .taskLaunched => "task-launched"
  | .taskStarted => "task-started"
  | .taskSkipped => "task-skipped"
  | .taskCancelRequested => "task-cancel-requested"
  | .taskFinished => "task-finished"
  | .taskCancelled => "task-cancelled"
  | .taskFailed => "task-failed"
  | .subscriberOverflow => "subscriber-overflow"
  | .subscriberPanicked => "subscriber-panicked"

def level : EventKind → LogLevel
  | .producerFailed | .errorReported | .taskFailed | .subscriberOverflow => .warn
  | .subscriberPanicked => .error
  | _ => .info

private def details (e : Event) : String :=
  let key := " key=" ++ Text.quoted (e.key.getD "-") ++ " id=" ++ shownCount e.taskId
  match e.kind with
  | .consumerAttached | .consumerDetached | .producerActive =>
      " consumers=" ++ shownCount e.consumers
  | .producerDraining => " grace_ms=" ++ shownCount e.delayMs
  | .producerCompleted => " closed=" ++ shownCount e.consumers
  | .producerFailed =>
      " delivered=" ++ shownCount e.consumers ++ " err=" ++ shownText e.error
  | .errorReported => " err=" ++ shownText e.error
  | .taskLaunched | .taskStarted | .taskSkipped | .taskCancelRequested | .taskFinished
  | .taskCancelled => key
  | .taskFailed => key ++ " err=" ++ shownText e.error
  | .subscriberOverflow => " reason=" ++ shownText e.error
  | .subscriberPanicked => " info=" ++ e.error.getD "unknown"
  | .producerActivating | .producerInactive => ""

/-- The source as it stands in the log line; a panicked subscriber is named without quotes. -/
private def origin (e : Event) : String :=
  let name := e.source.getD "-"
  match e.kind with
  | .subscriberOverflow => "subscriber=" ++ Text.quoted name
  | .subscriberPanicked => "subscriber=" ++ name
  | _ => "source=" ++ Text.quoted name

def logLine (e : Event) : LogLine :=
  { level := level e.kind
    target := "relayvisor::events"
    message := "[" ++ tag e.kind ++ "] " ++ e.origin ++ e.details }

def logWriterName : String := "LogWriter"

def defaultQueueCapacity : Nat := 1024

end Event

end Lifecycle
