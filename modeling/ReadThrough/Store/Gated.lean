import ReadThrough.Table
import ReadThrough.Entry
/-!
# The gated store

A store without bound whose reads and writes may have to wait for a gate, and whose writes may be
told to panic. It answers neither its size nor whether it is empty.
-/

namespace ReadThrough

/-- A store that makes its callers wait. -/
structure Gated (K V : Type) where
  /-- The gate that reads wait for. -/
  readGate : Option String := none
  /-- The gate that writes wait for. -/
  writeGate : Option String := none
  /-- Whether writes panic instead. -/
  refusing : Bool := false
  /-- The stored entries. -/
  entries : Table K (Entry V)

namespace Gated

variable {K V : Type}

/-- The message with which a refused write panics. -/
def refusal : String := "put failed"

/-- The inspection text. -/
def inspect (s : Gated K V) : String :=
  Text.partialRecord "Gated" [("len", toString s.entries.size)]

/-- Makes writes panic, or lets them through. -/
def setRefusing (s : Gated K V) (refusing : Bool) : Gated K V := { s with refusing }

/-- The empty store with the same gates. -/
def clear (s : Gated K V) : Gated K V := { s with entries := Table.empty }

variable [DecidableEq K]

/-- The entry of a key, read at once. -/
def get? (s : Gated K V) (key : K) : Option (Entry V) := s.entries.get? key

/-- Writes an entry at once. -/
def put (s : Gated K V) (key : K) (entry : Entry V) : Gated K V :=
  { s with entries := s.entries.insert key entry }

end Gated

end ReadThrough
