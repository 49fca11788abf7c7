import ReadThrough.Work
/-!
# The cache

What surrounds a read-through cache, together with the shared executions of loads that are under
way. Everything else about a request is kept by whoever makes it.
-/

namespace ReadThrough

/-- A read-through cache. -/
structure Cache (P A V E : Type) where
  /-- What the cache works on. -/
  env : Environment P A V E
  /-- The shared loads. -/
  flights : Flights (Key P A) (Work P A V E) (Result V E)

namespace Cache

variable {P A V E : Type}

/-- Adds an event to the trace. -/
def note (c : Cache P A V E) (event : Event P A V E) : Cache P A V E :=
  { c with env := c.env.note event }

/-- Adds changes of the registry to the trace. -/
def noteRegistry (c : Cache P A V E) (notices : List Notice) : Cache P A V E :=
  { c with env := c.env.noteRegistry notices }

/-- Notes that a subscriber of the named channel missed messages, if it did. -/
def noteMissed (c : Cache P A V E) (channel : String) (missed : Nat) : Cache P A V E :=
  if missed = 0 then c else c.note (.lagged channel missed)

/-- Empties the store. Loads under way go on and still write their results. -/
def clear (c : Cache P A V E) : Cache P A V E := { c with env := c.env.clearStore }

/-- How many shared loads are under way. -/
def ongoing (c : Cache P A V E) : Nat := c.flights.ongoing

/-- Accounts for work that was dropped: a call of the source in progress is cancelled. -/
def discard (c : Cache P A V E) (work : Work P A V E) : Cache P A V E :=
  let cancelled := if work.callsSource then c.env.cancelled + 1 else c.env.cancelled
  { c with env.cancelled := cancelled }.note (.abandoned work.key)

/-- The inspection text. -/
def inspect (c : Cache P A V E) : String :=
  Text.partialRecord "CachedSource"
    [("store", Text.quoted "STORE"), ("flights", c.flights.inspect)]

variable [DecidableEq P] [DecidableEq A]

/-- Looks for a usable entry. Answers none while the store makes the read wait. -/
def lookup (c : Cache P A V E) (key : Key P A) (maxAge : Option Duration) :
    Option (Option (Delivery V) × Cache P A V E) :=
  if c.env.store.readable c.env.gates then
    let (found, env) := c.env.lookup key maxAge
    some (found, { c with env })
  else none

end Cache

end ReadThrough
