import ReadThrough.Store
/-!
# Store queries

What one can ask a store directly, past any cache in front of it, and what it finds. No question
changes what is stored. Not every store answers every question.
-/

namespace ReadThrough

/-- A question to a store. -/
inductive Query (K : Type) where
  /-- How many entries it has, and whether it has none. -/
  | size
  /-- Its keys, oldest first. -/
  | keys
  /-- How many entries it can have. -/
  | capacity
  /-- What it recorded. -/
  | operations
  /-- The writes among that. -/
  | puts
  /-- To forget what it recorded. -/
  | forget
  /-- Whether it has a key. -/
  | contains (key : K)
  /-- The number of its entries. -/
  | count
  /-- To make its writes panic, or to let them through. -/
  | refuse (refusing : Bool)
  /-- The store itself. -/
  | snapshot

/-- What a store finds. -/
inductive Finding (K V : Type) where
  /-- There is nothing to say. -/
  | nothing
  /-- The entry of a key. -/
  | entry (found : Option (Entry V))
  /-- A write was done and displaced these keys, each with the capacity that displaced it. -/
  | written (displaced : List (K × Nat))
  /-- The number of entries and whether it is zero, if the store tells. -/
  | size (size : Option Nat) (isEmpty : Option Bool)
  /-- Keys. -/
  | keys (keys : List K)
  /-- Operations. -/
  | operations (operations : List (Operation K V))
  /-- Writes. -/
  | puts (puts : List (K × Entry V))
  /-- A number. -/
  | number (number : Nat)
  /-- Yes or no. -/
  | flag (flag : Bool)
  /-- The store as it is. -/
  | snapshot (store : Store K V)
  /-- The store has no answer to this question. -/
  | unsupported

namespace Store

variable {K V : Type} [DecidableEq K]

/-- Performs one of the three operations. Gates and refusals do not apply. -/
def operate (s : Store K V) : Operation K V → Finding K V × Store K V
  | .get key => let (found, s) := s.get key; (.entry found, s)
  | .put key entry => let (s, displaced) := s.put key entry; (.written displaced, s)
  | .clear => (.nothing, s.clear)

/-- Answers a question. -/
def ask (s : Store K V) (query : Query K) : Finding K V × Store K V :=
  match query, s with
  | .size, s => (.size s.size? s.isEmpty?, s)
  | .snapshot, s => (.snapshot s, s)
  | .keys, .bounded b => (.keys b.keys, s)
  | .capacity, .bounded b => (.number b.capacity, s)
  | .operations, .recorded r => (.operations r.operations, s)
  | .puts, .recorded r => (.puts r.puts, s)
  | .forget, .recorded r => (.nothing, .recorded r.forget)
  | .contains key, .recorded r => (.flag (r.contains key), s)
  | .count, .recorded r => (.number r.size, s)
  | .refuse refusing, .gated g => (.nothing, .gated (g.setRefusing refusing))
  | _, s => (.unsupported, s)

/-- The inspection text, given those of keys and values. -/
def inspect (showKey : K → String) (showValue : V → String) : Store K V → String
  | .bounded s => s.inspect
  | .recorded s => s.inspect showKey showValue
  | .gated s => s.inspect

end Store

end ReadThrough
