import ReadThrough.Table
import ReadThrough.Store.Operation
/-!
# The recording store

A store without bound that keeps a record of every operation it was asked for, reads included.
The entries it starts with are not recorded.
-/

namespace ReadThrough

/-- A store that records what it is asked for. -/
structure Recorded (K V : Type) where
  /-- The stored entries. -/
  data : Table K (Entry V)
  /-- The operations since the record was last emptied, oldest first. -/
  record : List (Operation K V)

namespace Recorded

variable {K V : Type}

/-- The empty store. -/
def empty : Recorded K V := ⟨Table.empty, []⟩

/-- How many entries are stored. -/
def size (s : Recorded K V) : Nat := s.data.size

/-- The recorded operations. -/
def operations (s : Recorded K V) : List (Operation K V) := s.record

/-- The recorded writes. -/
def puts (s : Recorded K V) : List (K × Entry V) := s.record.filterMap Operation.write?

/-- Empties the record; the entries stay. -/
def forget (s : Recorded K V) : Recorded K V := { s with record := [] }

/-- The inspection text, given those of keys and values. -/
def inspect (showKey : K → String) (showValue : V → String) (s : Recorded K V) : String :=
  let entries := s.data.pairs.map fun p => (showKey p.1, p.2.inspect showValue)
  let record := s.record.map (Operation.inspect showKey showValue)
  Text.record "MockStore"
    [("data", Text.record "Mutex" [("data", Text.mapping entries)]),
     ("operations", Text.record "Mutex" [("data", Text.sequence record)])]

variable [DecidableEq K]

/-- The store of the given entries, with nothing recorded. -/
def ofList (seed : List (K × Entry V)) : Recorded K V := ⟨Table.ofList seed, []⟩

/-- Whether an entry is stored for a key; not recorded. -/
def contains (s : Recorded K V) (key : K) : Bool := s.data.contains key

/-- Reads the entry of a key. -/
def get (s : Recorded K V) (key : K) : Option (Entry V) × Recorded K V :=
  (s.data.get? key, { s with record := s.record ++ [.get key] })

/-- Writes an entry. -/
def put (s : Recorded K V) (key : K) (entry : Entry V) : Recorded K V :=
  { data := s.data.insert key entry, record := s.record ++ [.put key entry] }

/-- Empties the store. -/
def clear (s : Recorded K V) : Recorded K V :=
  { data := Table.empty, record := s.record ++ [.clear] }

/-- Answers an operation: the entry found by a read, and the store afterwards. -/
def answer (s : Recorded K V) : Operation K V → Option (Entry V) × Recorded K V
  | .get key => s.get key
  | .put key entry => (none, s.put key entry)
  | .clear => (none, s.clear)

/-- The store after a list of operations. -/
def run (s : Recorded K V) (ops : List (Operation K V)) : Recorded K V :=
  ops.foldl (fun s op => (s.answer op).2) s

end Recorded

end ReadThrough
