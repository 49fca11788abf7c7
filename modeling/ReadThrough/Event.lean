import ReadThrough.Key
import ReadThrough.Delivery
import ReadThrough.Flights
/-!
# Events

Everything that a cache does, in the order in which it does it. A part of the events is written to
the log, each as one line; the others are the actions that the log says nothing about: calls of the
source, how they end and who receives the result, work that is dropped, readings of the clock, reads
and writes of the store, publications.

An execution is one piece of work for a key: a shared one has a number in the registry, one that is
done for a single caller has none. Once it has called the source, it is known by the number of that
call as well.
-/

namespace ReadThrough

/-- Something that a cache does. -/
inductive Event (P A V E : Type) where
  /-- The source is called, for the time with this number. -/
  | called (number : Nat) (key : Key P A)
  /-- An execution ends, which has made the call of the source with this number. -/
  | settled (execution : Option Nat) (number : Nat) (key : Key P A) (outcome : Outcome (Result V E))
  /-- A caller receives the result of an execution. -/
  | received (execution : Option Nat) (result : Result V E)
  /-- Work for a key is dropped before it is done. -/
  | abandoned (key : Key P A)
  /-- The clock is read. -/
  | clockRead (now : Stamp)
  /-- The store is read. -/
  | storeRead (key : Key P A) (found : Option (Entry V))
  /-- The store is written. -/
  | storeWritten (key : Key P A) (entry : Entry V)
  /-- A result of the source is published. -/
  | updatePublished (params : P) (delivery : Delivery V)
  /-- A failure of the source is published. -/
  | failurePublished (params : P) (failure : Failure E)
  /-- The registry of executions changes. -/
  | registry (notice : Notice)
  /-- A full store displaces an entry. -/
  | evicted (key : Key P A) (capacity : Nat)
  /-- Nothing is stored for a key. -/
  | miss (key : Key P A)
  /-- A stored entry is used. -/
  | hit (key : Key P A) (entry : Entry V)
  /-- A stored entry is too old. -/
  | stale (key : Key P A) (entry : Entry V) (maxAge : Option Duration)
  /-- A request to the store alone goes unanswered. -/
  | unanswered (key : Key P A)
  /-- A stored entry answers for the failed source. -/
  | rescued (key : Key P A)
  /-- A stored value is not accepted. -/
  | rejected (key : Key P A)
  /-- A result of the source is stored. -/
  | succeeded (key : Key P A) (now : Stamp)
  /-- A call of the source fails. -/
  | failed (key : Key P A) (failure : Failure E)
  /-- A result is published and nobody listens. -/
  | updateUnheard
  /-- A failure is published and nobody listens. -/
  | failureUnheard
  /-- A failed call is tried again. -/
  | retried (attempt retries : Nat)
  /-- A subscriber of the named channel missed messages. -/
  | lagged (channel : String) (skipped : Nat)
  /-- The store is emptied. -/
  | cleared

namespace Event

variable {P A V E : Type}

/-- The timestamp of an entry as a field of a log line; an entry without one has no such field. -/
def stampField (e : Entry V) : String :=
  match e.stamp with
  | none => ""
  | some stamp => " inserted_at=" ++ toString stamp.toInt

/-- The log line of an event, if it has one. -/
def line? : Event P A V E → Option String
  | .called _ _ | .settled _ _ _ _ | .received _ _ | .abandoned _ | .clockRead _ | .storeRead _ _
  | .storeWritten _ _ | .updatePublished _ _ | .failurePublished _ _ => none
  | .registry notice => notice.line
  | .evicted _ capacity =>
    "TRACE sourcecache_memory::bounded: evicted oldest cache entry capacity=" ++ toString capacity
  | .miss _ => "DEBUG sourcecache::source: cache miss"
  | .hit _ entry => "DEBUG sourcecache::source: cache hit" ++ stampField entry
  | .stale _ entry maxAge =>
    "DEBUG sourcecache::source: cached entry too old" ++ stampField entry ++ " max_age=" ++
      Text.optional (maxAge.map Duration.inspect)
  | .unanswered _ => "DEBUG sourcecache::source: no usable cache entry, not calling source"
  | .rescued _ => "DEBUG sourcecache::source: source failed, serving cached value instead"
  | .rejected _ => "DEBUG sourcecache::ext: cached value rejected, calling source"
  | .succeeded _ now =>
    "DEBUG sourcecache::source: source call succeeded, cache updated inserted_at=" ++
      toString now.toInt
  | .failed _ failure =>
    "DEBUG sourcecache::source: source call failed panicked=" ++ Text.boolean failure.isPanic
  | .updateUnheard => "TRACE sourcecache::source: no update subscribers"
  | .failureUnheard => "TRACE sourcecache::source: no error subscribers"
  | .retried attempt retries =>
    "DEBUG sourcecache::ext: source call failed, retrying attempt=" ++ toString attempt ++
      " retries=" ++ toString retries
  | .lagged channel skipped =>
    "DEBUG sourcecache::observe: subscriber lagged, messages dropped channel=" ++
      Text.quoted channel ++ " skipped=" ++ toString skipped
  | .cleared => "DEBUG sourcecache::source: cache cleared"

/-- The log of a list of events. -/
def log (events : List (Event P A V E)) : List String := events.filterMap line?

end Event

end ReadThrough
