import ReadThrough.Stamp
/-!
# Entries

A stored value with the time at which it was stored. An entry may be served as long as it is
fresh: younger than the age that the reader allows. Without a limit every entry is fresh; with
one, an entry without a timestamp is not, and one from the future is.
-/

namespace ReadThrough

/-- A stored value. -/
structure Entry (V : Type) where
  /-- The value. -/
  value : V
  /-- When it was stored, if that is known. -/
  stamp : Option Stamp
  deriving DecidableEq

namespace Entry

variable {V : Type}

/-- An entry without a timestamp. -/
def unstamped (value : V) : Entry V := ⟨value, none⟩

/-- An entry stored at `stamp`. -/
def stamped (value : V) (stamp : Stamp) : Entry V := ⟨value, some stamp⟩

/-- Whether the entry may be served at `now` to a reader who accepts ages below `maxAge`. An age
equal to the limit is too much; a negative age, of an entry from the future, never is. -/
def isFresh (e : Entry V) (maxAge : Option Duration) (now : Stamp) : Bool :=
  match maxAge, e.stamp with
  | none, _ => true
  | some _, none => false
  | some limit, some stamp => (Stamp.age now stamp).toInt < limit.wholeMillis

/-- The inspection text, given that of the value. -/
def inspect (showValue : V → String) (e : Entry V) : String :=
  Text.record "CacheEntry"
    [("value", showValue e.value),
     ("inserted_at", Text.optional (e.stamp.map fun s => toString s.toInt))]

end Entry

end ReadThrough
