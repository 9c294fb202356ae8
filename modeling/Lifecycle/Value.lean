import Lifecycle.Text.Quoted

/-!
# Values and keys

Values travel through relays, fill resources and name the keys of a supervisor.  A number and the
text that spells it are different values.
-/

namespace Lifecycle

inductive Value where
  | number (n : Int)
  | text (s : String)
  deriving DecidableEq, Repr

namespace Value

def shown : Value → String
  | number n => toString n
  | text s => Text.quoted s

/-- Numbers come before texts; numbers go by size and texts by their characters. -/
def before : Value → Value → Bool
  | number m, number n => m < n
  | number _, text _ => true
  | text _, number _ => false
  | text s, text t => s < t

end Value

end Lifecycle
