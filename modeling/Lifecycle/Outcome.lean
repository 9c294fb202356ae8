import Lifecycle.Failure

/-!
# Outcomes of a load

An outcome says how far a load has come and carries the data known so far.
-/

namespace Lifecycle

inductive Outcome (α : Type) where
  | progress (data : Option α)
  | success (data : α)
  | error (e : TaskError) (data : Option α)
  deriving DecidableEq, Repr

namespace Outcome

variable {α β : Type}

def initial : Outcome α := progress none

def data : Outcome α → Option α
  | progress d => d
  | success d => some d
  | error _ d => d

def error? : Outcome α → Option TaskError
  | error e _ => some e
  | _ => none

def isProgress : Outcome α → Bool
  | progress _ => true
  | _ => false

def isSuccess : Outcome α → Bool
  | success _ => true
  | _ => false

def map (f : α → β) : Outcome α → Outcome β
  | progress d => progress (d.map f)
  | success d => success (f d)
  | error e d => error e (d.map f)

def shown (show? : α → String) : Outcome α → String
  | progress d => Text.applied "Progress" (Text.optional (d.map show?))
  | success d => Text.applied "Success" (show? d)
  | error e d =>
      Text.record "Error" [("error", e.shown), ("data", Text.optional (d.map show?))]

end Outcome

end Lifecycle
