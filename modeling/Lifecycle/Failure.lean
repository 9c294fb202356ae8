import Lifecycle.Text.Quoted

/-!
# Failures

A producer fails while it starts or later, or refuses a value because it has stopped.  A task fails
for good, fails and may be launched again, or gives in to a cancellation, which is no failure of
its own.  Each cause has a label for logs, a short message, a full text and a structured form.
-/

namespace Lifecycle

inductive ProducerError where
  | activation (detail : String)
  | failed (detail : String)
  | inactive
  deriving DecidableEq, Repr

namespace ProducerError

def label : ProducerError → String
  | activation _ => "relay_activation_failed"
  | failed _ => "relay_upstream_failed"
  | inactive => "relay_inactive"

def message : ProducerError → String
  | activation detail => "activation: " ++ detail
  | failed detail => "upstream: " ++ detail
  | inactive => "producer inactive"

def text : ProducerError → String
  | activation detail => "activation failed: " ++ detail
  | failed detail => "upstream failed: " ++ detail
  | inactive => "cannot send data when producer is inactive"

def shown : ProducerError → String
  | activation detail => Text.record "Activation" [("error", Text.quoted detail)]
  | failed detail => Text.record "Upstream" [("error", Text.quoted detail)]
  | inactive => "Inactive"

end ProducerError

inductive TaskError where
  | fatal (detail : String)
  | fail (detail : String)
  | canceled
  deriving DecidableEq, Repr

namespace TaskError

def label : TaskError → String
  | fatal _ => "task_fatal"
  | fail _ => "task_failed"
  | canceled => "task_canceled"

def message : TaskError → String
  | fatal detail => "fatal: " ++ detail
  | fail detail => "error: " ++ detail
  | canceled => "context cancelled"

def text : TaskError → String
  | fatal detail => "fatal error: " ++ detail
  | fail detail => "execution failed: " ++ detail
  | canceled => "context cancelled"

def shown : TaskError → String
  | fatal detail => Text.record "Fatal" [("error", Text.quoted detail)]
  | fail detail => Text.record "Fail" [("error", Text.quoted detail)]
  | canceled => "Canceled"

/-- Giving in to a cancellation is the normal way to stop early. -/
def isCancellation : TaskError → Bool
  | canceled => true
  | _ => false

def ofProducer (e : ProducerError) : TaskError := fail e.text

end TaskError

inductive Failure where
  | relay (e : ProducerError)
  | task (e : TaskError)
  deriving DecidableEq, Repr

namespace Failure

def label : Failure → String
  | relay e => e.label
  | task e => e.label

def text : Failure → String
  | relay e => e.text
  | task e => e.text

def shown : Failure → String
  | relay e => Text.applied "Relay" e.shown
  | task e => Text.applied "Task" e.shown

end Failure

end Lifecycle
