import ReadThrough.Entry
/-!
# Store operations

The three requests that every store answers.
-/

namespace ReadThrough

/-- A request to a store. -/
inductive Operation (K V : Type) where
  /-- Reads the entry of a key. -/
  | get (key : K)
  /-- Writes an entry. -/
  | put (key : K) (entry : Entry V)
  /-- Empties the store. -/
  | clear
  deriving DecidableEq

namespace Operation

variable {K V : Type}

/-- The write that an operation is. -/
def write? : Operation K V → Option (K × Entry V)
  | .put key entry => some (key, entry)
  | _ => none

/-- The inspection text, given those of keys and values. -/
def inspect (showKey : K → String) (showValue : V → String) : Operation K V → String
  | .get key => Text.applied "Get" (showKey key)
  | .put key entry =>
    Text.record "Put" [("key", showKey key), ("entry", entry.inspect showValue)]
  | .clear => "Clear"

end Operation

end ReadThrough
