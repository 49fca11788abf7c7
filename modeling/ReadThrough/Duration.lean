import ReadThrough.Text.Inspect
/-!
# Durations

A length of time in whole seconds and nanoseconds. Ages are compared in whole milliseconds
(`wholeMillis`), which never exceed the exact length (`wholeMillis_le`).
-/

namespace ReadThrough

/-- A length of time with nanosecond resolution. -/
structure Duration where
  /-- The whole seconds. -/
  seconds : UInt64
  /-- The nanoseconds beyond them. -/
  nanos : Nat
  /-- Less than a second remains. -/
  nanos_lt : nanos < 1000000000
  deriving DecidableEq

namespace Duration

/-- The duration of that many milliseconds. -/
def ofMillis (millis : UInt64) : Duration where
  seconds := millis / 1000
  nanos := millis.toNat % 1000 * 1000000
  nanos_lt := by omega

/-- The exact length in nanoseconds. -/
def totalNanos (d : Duration) : Nat := d.seconds.toNat * 1000000000 + d.nanos

/-- The length in whole milliseconds, rounded down. -/
def wholeMillis (d : Duration) : Nat := d.seconds.toNat * 1000 + d.nanos / 1000000

/-- Rounding down loses less than a millisecond. -/
theorem wholeMillis_le (d : Duration) :
    d.wholeMillis * 1000000 ≤ d.totalNanos ∧ d.totalNanos < (d.wholeMillis + 1) * 1000000 := by
  have := d.nanos_lt
  unfold wholeMillis totalNanos
  omega

/-! ## Text -/

/-- The first `width` decimals of `n / 10 ^ width`, without zeros at the end. -/
def decimals : (width n : Nat) → List Char
  | 0, _ => []
  | width + 1, n =>
    if n = 0 then [] else Nat.digitChar (n / 10 ^ width) :: decimals width (n % 10 ^ width)

/-- The decimals behind a point, or nothing if there are none. -/
def fraction (width n : Nat) : String :=
  if n = 0 then "" else "." ++ String.ofList (decimals width n)

/-- The largest of the units s, ms, µs and ns that the duration reaches, and the exact number of
them. -/
def inspect (d : Duration) : String :=
  if 0 < d.seconds.toNat then toString d.seconds.toNat ++ fraction 9 d.nanos ++ "s"
  else if 1000000 ≤ d.nanos then
    toString (d.nanos / 1000000) ++ fraction 6 (d.nanos % 1000000) ++ "ms"
  else if 1000 ≤ d.nanos then toString (d.nanos / 1000) ++ fraction 3 (d.nanos % 1000) ++ "µs"
  else toString d.nanos ++ "ns"

end Duration

end ReadThrough
