import ReadThrough.Channel
import ReadThrough.Clock
import ReadThrough.Event
import ReadThrough.Store
/-!
# The environment of a cache

All that a call of the source touches: the source itself, the store that the result is written to,
the clock that stamps it and the two channels on which it is published. Each action on one of
them is a function here, and each leaves an event in the trace.
-/

namespace ReadThrough

/-! ## The source -/

/-- How a call of the source ends. -/
inductive Ending (V E : Type) where
  /-- It returns a value. -/
  | value (value : V)
  /-- It returns an error. -/
  | error (error : E)
  /-- It panics. -/
  | panic (message : String)

/-- A call of the source in progress. -/
structure Reply (V E : Type) where
  /-- What it still waits for. -/
  wait : Wait
  /-- How much time it takes once it has waited. -/
  took : Option Duration
  /-- How it ends. -/
  ending : Ending V E

/-- What a call of the source does. -/
inductive Behaviour (V E : Type) where
  /-- The call itself panics, before anything is in progress. -/
  | refuses (message : String)
  /-- The call is in progress. -/
  | replies (reply : Reply V E)

/-- Calls of the source by their number, counted from one, and their parameters. -/
abbrev Source (P V E : Type) := Nat → P → Behaviour V E

/-! ## The environment -/

/-- What surrounds a cache. -/
structure Environment (P A V E : Type) where
  /-- The source. -/
  source : Source P V E
  /-- The store. -/
  store : Store (Key P A) V
  /-- The clock. -/
  clock : Clock
  /-- The gates that the source and the store may wait for. -/
  gates : Gates
  /-- The channel of results. -/
  updates : Channel (P × Delivery V)
  /-- The channel of failures. -/
  errors : Channel (P × Failure E)
  /-- The parameters of all calls of the source so far, in order. -/
  called : List P
  /-- How many calls of the source were dropped before they ended. -/
  cancelled : Nat
  /-- How often a caller was asked whether it accepts a stored value. -/
  asked : Nat
  /-- What has happened since the trace was last emptied. -/
  trace : List (Event P A V E)

namespace Environment

variable {P A V E : Type}

/-- Adds an event to the trace. -/
def note (env : Environment P A V E) (event : Event P A V E) : Environment P A V E :=
  { env with trace := env.trace ++ [event] }

/-- Adds events to the trace. -/
def noteAll (env : Environment P A V E) (events : List (Event P A V E)) : Environment P A V E :=
  { env with trace := env.trace ++ events }

/-- Adds changes of the registry to the trace. -/
def noteRegistry (env : Environment P A V E) (notices : List Notice) : Environment P A V E :=
  env.noteAll (notices.map .registry)

/-- Calls the source for a key; the source sees the parameters only. -/
def callSource (env : Environment P A V E) (key : Key P A) :
    Behaviour V E × Environment P A V E :=
  let number := env.called.length + 1
  let env := { env with called := env.called ++ [key.params] }.note (.called number key)
  (env.source number key.params, env)

/-- Reads the clock. -/
def readClock (env : Environment P A V E) : Stamp × Environment P A V E :=
  let (now, clock) := env.clock.read
  (now, { env with clock }.note (.clockRead now))

/-- Lets time pass. -/
def advance (env : Environment P A V E) (d : Duration) : Environment P A V E :=
  { env with clock := env.clock.advance d }

/-- Publishes a result. -/
def publishUpdate (env : Environment P A V E) (params : P) (delivery : Delivery V) :
    Environment P A V E :=
  let (heard, updates) := env.updates.publish (params, delivery)
  let env := { env with updates }.note (.updatePublished params delivery)
  if heard then env else env.note .updateUnheard

/-- Publishes a failure. -/
def publishFailure (env : Environment P A V E) (params : P) (failure : Failure E) :
    Environment P A V E :=
  let (heard, errors) := env.errors.publish (params, failure)
  let env := { env with errors }.note (.failurePublished params failure)
  if heard then env else env.note .failureUnheard

/-- Empties the store. -/
def clearStore (env : Environment P A V E) : Environment P A V E :=
  { env with store := env.store.clear }.note .cleared

variable [DecidableEq P] [DecidableEq A]

/-- Reads the store. -/
def readStore (env : Environment P A V E) (key : Key P A) :
    Option (Entry V) × Environment P A V E :=
  let (found, store) := env.store.get key
  (found, { env with store }.note (.storeRead key found))

/-- Writes the store. -/
def writeStore (env : Environment P A V E) (key : Key P A) (entry : Entry V) :
    Environment P A V E :=
  let (store, gone) := env.store.put key entry
  ({ env with store }.note (.storeWritten key entry)).noteAll
    (gone.map fun (k, capacity) => .evicted k capacity)

/-- Looks for a usable entry: one that is stored and fresh. The clock is read whenever an entry is
stored, whether or not its age matters. -/
def lookup (env : Environment P A V E) (key : Key P A) (maxAge : Option Duration) :
    Option (Delivery V) × Environment P A V E :=
  match env.readStore key with
  | (none, env) => (none, env.note (.miss key))
  | (some entry, env) =>
    let (now, env) := env.readClock
    if entry.isFresh maxAge now then (some (Delivery.cached entry), env.note (.hit key entry))
    else (none, env.note (.stale key entry maxAge))

end Environment

end ReadThrough
