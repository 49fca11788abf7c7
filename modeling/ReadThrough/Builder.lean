import ReadThrough.Cache
/-!
# Building a cache

A builder collects the settings of a cache. The last setting of each kind counts; the choice of a
store and the capacity of the store that is used otherwise are one kind. A capacity of zero is
remembered, a later setting of its kind repairs it, and `build` reports what is left, the store
first.

While no store has been chosen, the capacity and the type of the tags can be set (`Draft.standard`);
afterwards they cannot (`Draft.custom`).
-/

namespace ReadThrough

/-- The settings of a cache over stores of type `S`. -/
structure Builder (S : Type) where
  /-- The store, or why there is none. -/
  store : Except SetupError S
  /-- The clock. -/
  clock : Clock
  /-- How many messages the channels keep. -/
  broadcastCapacity : Nat

/-- The parts of a cache, checked. -/
structure Setup (S : Type) where
  /-- The store. -/
  store : S
  /-- The clock. -/
  clock : Clock
  /-- How many messages the channels keep. -/
  broadcastCapacity : Nat

namespace Builder

variable {P A B V S T : Type}

/-- How many messages the channels keep unless told otherwise. -/
def standardBroadcastCapacity : Nat := 64

/-- The settings to begin with: a store of one entry and the given clock. -/
def standard (clock : Clock) : Builder (Bounded (Key P A) V) :=
  { store := .ok Bounded.standard, clock, broadcastCapacity := standardBroadcastCapacity }

/-- Sets how many entries the store keeps. -/
def capacity (b : Builder (Bounded (Key P A) V)) (capacity : Nat) :
    Builder (Bounded (Key P A) V) :=
  { b with store := Bounded.create capacity }

/-- Sets the type of the tags. The capacity stays. -/
def keyedBy (b : Builder (Bounded (Key P A) V)) : Builder (Bounded (Key P B) V) :=
  { store := b.store.map fun s => Bounded.ofCapacity s.capacity s.capacity_pos,
    clock := b.clock, broadcastCapacity := b.broadcastCapacity }

/-- Sets the store. -/
def withStore (b : Builder S) (store : T) : Builder T :=
  { store := .ok store, clock := b.clock, broadcastCapacity := b.broadcastCapacity }

/-- Sets the clock. -/
def withClock (b : Builder S) (clock : Clock) : Builder S := { b with clock }

/-- Sets how many messages the channels keep. -/
def withBroadcastCapacity (b : Builder S) (broadcastCapacity : Nat) : Builder S :=
  { b with broadcastCapacity }

/-- Checks the settings. -/
def build (b : Builder S) : Except SetupError (Setup S) :=
  match b.store with
  | .error error => .error error
  | .ok store =>
    if b.broadcastCapacity = 0 then .error (.zeroCapacity "broadcast")
    else .ok { store, clock := b.clock, broadcastCapacity := b.broadcastCapacity }

/-- The inspection text. -/
def inspect (b : Builder S) : String :=
  let store :=
    match b.store with
    | .ok _ => Text.applied "Ok" (Text.quoted "STORE")
    | .error error => Text.applied "Err" error.inspect
  Text.partialRecord "CachedSourceBuilder"
    [("store", store), ("broadcast_capacity", toString b.broadcastCapacity)]

end Builder

/-! ## Settings in any order -/

/-- One setting. -/
inductive Setting (P A V : Type) where
  /-- How many entries the store keeps. -/
  | capacity (capacity : Nat)
  /-- How many messages the channels keep. -/
  | broadcastCapacity (capacity : Nat)
  /-- The type of the tags. -/
  | keyedBy
  /-- The clock. -/
  | clock (clock : Clock)
  /-- The store. -/
  | store (store : Store (Key P A) V)

/-- A builder with some settings made. -/
inductive Draft (P A V : Type) where
  /-- No store has been chosen. -/
  | standard (b : Builder (Bounded (Key P A) V))
  /-- A store has been chosen. -/
  | custom (b : Builder (Store (Key P A) V))

namespace Draft

variable {P A V : Type}

/-- No setting has been made. -/
def create (clock : Clock) : Draft P A V := .standard (Builder.standard clock)

/-- Makes a setting. After a store has been chosen there is no capacity and no type of tags to
set. -/
def apply : Draft P A V → Setting P A V → Option (Draft P A V)
  | .standard b, .capacity n => some (.standard (b.capacity n))
  | .standard b, .broadcastCapacity n => some (.standard (b.withBroadcastCapacity n))
  | .standard b, .keyedBy => some (.standard b.keyedBy)
  | .standard b, .clock clock => some (.standard (b.withClock clock))
  | .standard b, .store store => some (.custom (b.withStore store))
  | .custom b, .broadcastCapacity n => some (.custom (b.withBroadcastCapacity n))
  | .custom b, .clock clock => some (.custom (b.withClock clock))
  | .custom b, .store store => some (.custom (b.withStore store))
  | .custom _, .capacity _ | .custom _, .keyedBy => none

/-- Makes settings in order. -/
def applyAll (d : Draft P A V) (settings : List (Setting P A V)) : Option (Draft P A V) :=
  settings.foldlM apply d

/-- Checks the settings. -/
def build : Draft P A V → Except SetupError (Setup (Store (Key P A) V))
  | .standard b => b.build.map fun s => { s with store := .bounded s.store }
  | .custom b => b.build

/-- The inspection text. -/
def inspect : Draft P A V → String
  | .standard b => b.inspect
  | .custom b => b.inspect

end Draft

/-! ## The cache of a setup -/

/-- The cache over a source: nothing has been called, and nobody listens. -/
def Cache.create {P A V E : Type} (setup : Setup (Store (Key P A) V)) (source : Source P V E) :
    Cache P A V E where
  env :=
    { source, store := setup.store, clock := setup.clock, gates := {}, called := [],
      updates := Channel.ofCapacity setup.broadcastCapacity,
      errors := Channel.ofCapacity setup.broadcastCapacity,
      cancelled := 0, asked := 0, trace := [] }
  flights := Flights.empty

end ReadThrough
