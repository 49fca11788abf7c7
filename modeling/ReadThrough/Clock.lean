import ReadThrough.Stamp
/-!
# Clocks

Where timestamps come from. A reading may change the clock: the counter moves on at every
reading, so that the number of readings shows.
-/

namespace ReadThrough

/-- A source of timestamps. -/
inductive Clock where
  /-- Shows `next` and then moves on by `step`, wrapping around. -/
  | counter (next step : Stamp)
  /-- Stands at the instant `nanos` nanoseconds after the epoch until it is moved. -/
  | instant (nanos : Int)
  /-- Shows the same reading for ever and cannot be moved. -/
  | frozen (reading : Stamp)

namespace Clock

/-- The epoch. -/
def epoch : Clock := .instant 0

/-- The current time, and the clock after it was read. -/
def read : Clock → Stamp × Clock
  | .counter next step => (next, .counter (next + step) step)
  | .instant nanos => (Stamp.ofNanos nanos, .instant nanos)
  | .frozen reading => (reading, .frozen reading)

/-- Lets time pass. A counter moves by whole milliseconds. -/
def advance (c : Clock) (d : Duration) : Clock :=
  match c with
  | .counter next step => .counter (next + Int64.ofNat d.wholeMillis) step
  | .instant nanos => .instant (nanos + d.totalNanos)
  | .frozen reading => .frozen reading

/-- Moves the clock to a timestamp. -/
def set (c : Clock) (now : Stamp) : Clock :=
  match c with
  | .counter _ step => .counter now step
  | .instant _ => .instant (now.toInt * 1000000)
  | .frozen reading => .frozen reading

/-! ## Moving an adjustable clock -/

/-- A movement of an adjustable clock. -/
inductive Move where
  /-- Lets time pass. -/
  | advance (d : Duration)
  /-- Goes to the instant that long after the epoch. -/
  | afterEpoch (d : Duration)
  /-- Goes to the instant that long before the epoch. -/
  | beforeEpoch (d : Duration)

/-- The clock after a movement. -/
def move (c : Clock) : Move → Clock
  | .advance d => c.advance d
  | .afterEpoch d => .instant d.totalNanos
  | .beforeEpoch d => .instant (-(d.totalNanos : Int))

end Clock

end ReadThrough
