import Wireform.Text.Digits

/-!
# The text of a duration

A duration is a count of nanoseconds.  Messages show it in the largest of the units second,
millisecond, microsecond and nanosecond of which it holds at least one, with exactly the decimals
that it needs.
-/
namespace Wireform.Time

/-- Nanoseconds in a second. -/
def nanosPerSecond : Nat := 1000000000

/-- A duration in its largest fitting unit. -/
def durationText (nanos : Nat) : String :=
  if nanosPerSecond ≤ nanos then
    toString (nanos / nanosPerSecond) ++ Text.fraction 9 (nanos % nanosPerSecond) ++ "s"
  else if 1000000 ≤ nanos then
    toString (nanos / 1000000) ++ Text.fraction 6 (nanos % 1000000) ++ "ms"
  else if 1000 ≤ nanos then
    toString (nanos / 1000) ++ Text.fraction 3 (nanos % 1000) ++ "µs"
  else toString nanos ++ "ns"

end Wireform.Time
