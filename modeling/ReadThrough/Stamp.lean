import ReadThrough.Duration
/-!
# Timestamps

A timestamp counts milliseconds since the epoch in a signed 64-bit word. Instants outside the
word's range and ages that overflow it are clamped to its ends, so neither ever changes sign.
-/

namespace ReadThrough

/-- Milliseconds since the epoch; negative before it. -/
abbrev Stamp := Int64

namespace Stamp

/-- How long before `now` the time `stamp` was, clamped. Negative if it lies in the future. -/
def age (now stamp : Stamp) : Int64 := Int64.ofIntClamp (now.toInt - stamp.toInt)

/-- That many milliseconds as a word, if it holds them: fewer than `2 ^ 63`. -/
def ofMillis? (millis : Nat) : Option Stamp :=
  if millis < 9223372036854775808 then some (Int64.ofNat millis) else none

/-- The timestamp of the instant `nanos` nanoseconds after the epoch. The distance from the epoch
is measured in whole milliseconds, before it as after it; one that the word does not hold is
clamped. -/
def ofNanos (nanos : Int) : Stamp :=
  let millis := nanos.natAbs / 1000000
  if 0 ≤ nanos then (ofMillis? millis).getD Int64.maxValue
  else (ofMillis? millis).elim Int64.minValue fun elapsed => -elapsed

end Stamp

end ReadThrough
