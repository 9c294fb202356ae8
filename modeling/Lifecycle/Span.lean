import Lifecycle.Text.Quoted

/-!
# Lengths of time

A span is a whole number of nanoseconds.  Its text uses the largest unit that leaves a whole part,
with as many decimals as are needed and no trailing zeros.
-/

namespace Lifecycle

/-- A length of time, in nanoseconds. -/
structure Span where
  ns : Nat
  deriving DecidableEq, Repr

namespace Span

def zero : Span := ⟨0⟩

def ofMs (n : Nat) : Span := ⟨n * 1000000⟩

def ofParts (seconds nanoseconds : Nat) : Span := ⟨seconds * 1000000000 + nanoseconds⟩

def isZero (d : Span) : Bool := d.ns == 0

def wholeMs (d : Span) : Nat := d.ns / 1000000

/-- Milliseconds, a started one counted as whole.  A timer of length `d` rings after this many. -/
def ceilMs (d : Span) : Nat := (d.ns + 999999) / 1000000

/-- The fewest decimals that write `part / 10 ^ places`, with their point; empty for zero. -/
private def decimals (part places : Nat) : String :=
  let digits := Nat.toDigits 10 part
  let padded := List.replicate (places - digits.length) '0' ++ digits
  match (padded.reverse.dropWhile (· == '0')).reverse with
  | [] => ""
  | shown => "." ++ String.ofList shown

def text (d : Span) : String :=
  if d.ns ≥ 1000000000 then
    toString (d.ns / 1000000000) ++ decimals (d.ns % 1000000000) 9 ++ "s"
  else if d.ns ≥ 1000000 then
    toString (d.ns / 1000000) ++ decimals (d.ns % 1000000) 6 ++ "ms"
  else if d.ns ≥ 1000 then
    toString (d.ns / 1000) ++ decimals (d.ns % 1000) 3 ++ "µs"
  else
    toString d.ns ++ "ns"

theorem ceilMs_eq_zero_iff (d : Span) : d.ceilMs = 0 ↔ d = zero := by
  cases d
  simp only [ceilMs, zero, mk.injEq]
  omega

end Span

end Lifecycle
