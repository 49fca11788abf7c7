import ReadThrough.Text.Inspect
/-!
# Keys

What a cached value is filed under: the parameters of the request and, optionally, a tag that
separates values which one and the same request may have. Keys with different tags are different
keys, and so is a key without one.
-/

namespace ReadThrough

/-- The address of a cached value. -/
structure Key (P A : Type) where
  /-- The parameters of the request. -/
  params : P
  /-- What separates values of the same parameters. -/
  tag : Option A
  deriving DecidableEq

namespace Key

variable {P A : Type}

/-- The key of the parameters alone. -/
def ofParams (params : P) : Key P A := ⟨params, none⟩

/-- No tag comes before any tag. -/
def compareTags [Ord A] : Option A → Option A → Ordering
  | none, none => .eq
  | none, some _ => .lt
  | some _, none => .gt
  | some a, some b => compare a b

/-- Keys are ordered by their parameters, then by their tags. -/
def order [Ord P] [Ord A] (a b : Key P A) : Ordering :=
  (compare a.params b.params).then (compareTags a.tag b.tag)

/-- The keys from least to greatest. -/
def sort [Ord P] [Ord A] (keys : List (Key P A)) : List (Key P A) :=
  keys.mergeSort fun a b => (order a b).isLE

/-- The inspection text, given those of the parts. -/
def inspect (showParams : P → String) (showTag : A → String) (k : Key P A) : String :=
  Text.record "CacheKey"
    [("params", showParams k.params), ("additional", Text.optional (k.tag.map showTag))]

end Key

end ReadThrough
