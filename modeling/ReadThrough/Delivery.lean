import ReadThrough.Entry
import ReadThrough.Failure
/-!
# Deliveries

What a caller receives: a value, whether it came out of the store or from the source, and the
time at which it was first stored.
-/

namespace ReadThrough

/-- A value on its way to a caller. -/
structure Delivery (V : Type) where
  /-- The value. -/
  value : V
  /-- Whether it was read from the store. -/
  fromCache : Bool
  /-- When the value was stored, if that is known. -/
  stamp : Option Stamp
  deriving DecidableEq

namespace Delivery

variable {V : Type}

/-- The delivery of a value that the source has just returned. -/
def loaded (value : V) (now : Stamp) : Delivery V := ⟨value, false, some now⟩

/-- The delivery of a stored entry. -/
def cached (e : Entry V) : Delivery V := ⟨e.value, true, e.stamp⟩

/-- The inspection text, given that of the value. -/
def inspect (showValue : V → String) (d : Delivery V) : String :=
  Text.record "CachedSourceResult"
    [("value", showValue d.value), ("from_cache", Text.boolean d.fromCache),
     ("origin_timestamp", Text.optional (d.stamp.map fun s => toString s.toInt))]

end Delivery

/-- The result of a load. -/
abbrev Result (V E : Type) := Except (Failure E) (Delivery V)

end ReadThrough
