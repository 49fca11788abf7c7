import ReadThrough.Failure
import ReadThrough.Table
import ReadThrough.Store.Operation
/-!
# The bounded store

A store of at most `capacity` entries. When it is full, a new key displaces the oldest one. The
age of a key is the time since it was inserted: overwriting an entry and reading it leave the
order alone.

The order of the keys and their entries are kept side by side, so that the oldest key is found
without a search and an entry without a walk through the order.
-/

namespace ReadThrough

/-- A store that forgets its oldest keys. -/
structure Bounded (K V : Type) where
  /-- How many entries it keeps. -/
  capacity : Nat
  /-- It keeps at least one. -/
  capacity_pos : 0 < capacity
  /-- The stored keys, oldest first. -/
  order : List K
  /-- The entries of the stored keys. -/
  entries : Table K (Entry V)

namespace Bounded

variable {K V : Type}

/-- The empty store of a capacity. -/
def ofCapacity (capacity : Nat) (capacity_pos : 0 < capacity) : Bounded K V :=
  { capacity, capacity_pos, order := [], entries := Table.empty }

/-- The empty store of a capacity, which must not be zero. -/
def create (capacity : Nat) : Except SetupError (Bounded K V) :=
  if h : 0 < capacity then .ok (ofCapacity capacity h) else .error (.zeroCapacity "cache")

/-- Without a capacity of its own a store keeps a single entry. -/
def standard : Bounded K V := ofCapacity 1 Nat.one_pos

/-- The stored keys, oldest first. -/
def keys (s : Bounded K V) : List K := s.order

/-- How many entries are stored. -/
def size (s : Bounded K V) : Nat := s.order.length

/-- The empty store of the same capacity. -/
def clear (s : Bounded K V) : Bounded K V := { s with order := [], entries := Table.empty }

/-- The inspection text. -/
def inspect (s : Bounded K V) : String :=
  Text.record "BoundedCache" [("capacity", toString s.capacity), ("len", toString s.size)]

variable [DecidableEq K]

/-- The entry of a key. -/
def get? (s : Bounded K V) (key : K) : Option (Entry V) := s.entries.get? key

/-- Takes keys from the front of the order, and their entries with them, until at most `capacity`
keys are left. Answers the order and the entries that stay, and the keys that went. -/
def evict (capacity : Nat) : List K → Table K (Entry V) → List K × Table K (Entry V) × List K
  | [], entries => ([], entries, [])
  | oldest :: rest, entries =>
    if capacity < (oldest :: rest).length then
      let (order, entries, gone) := evict capacity rest (entries.erase oldest)
      (order, entries, oldest :: gone)
    else (oldest :: rest, entries, [])

/-- Writes an entry. A stored key keeps its place; a new one comes last and may displace others.
Answers the displaced keys. -/
def put (s : Bounded K V) (key : K) (entry : Entry V) : Bounded K V × List K :=
  if s.entries.contains key then ({ s with entries := s.entries.insert key entry }, [])
  else
    let (order, entries, gone) := evict s.capacity (s.order ++ [key]) (s.entries.insert key entry)
    ({ s with order, entries }, gone)

/-- Answers an operation: the entry found by a read, and the store afterwards. -/
def answer (s : Bounded K V) : Operation K V → Option (Entry V) × Bounded K V
  | .get key => (s.get? key, s)
  | .put key entry => (none, (s.put key entry).1)
  | .clear => (none, s.clear)

/-- The store after a list of operations. -/
def run (s : Bounded K V) (ops : List (Operation K V)) : Bounded K V :=
  ops.foldl (fun s op => (s.answer op).2) s

end Bounded

end ReadThrough
