import ReadThrough.Gate
import ReadThrough.Store.Bounded
import ReadThrough.Store.Recorded
import ReadThrough.Store.Gated
/-!
# Stores

The store behind a cache is one of three. All answer reads, writes and clearing; they differ in
what they keep, in what a caller has to wait for and in what they tell about themselves.
-/

namespace ReadThrough

/-- A store of entries. -/
inductive Store (K V : Type) where
  /-- Keeps a limited number of entries. -/
  | bounded (s : Bounded K V)
  /-- Keeps all entries and records its use. -/
  | recorded (s : Recorded K V)
  /-- Keeps all entries and makes its callers wait. -/
  | gated (s : Gated K V)

namespace Store

variable {K V : Type}

/-- Whether a read goes through at once. -/
def readable (gates : Gates) : Store K V → Bool
  | .gated s => gates.lets s.readGate
  | _ => true

/-- Whether a write goes through at once. -/
def writable (gates : Gates) : Store K V → Bool
  | .gated s => gates.lets s.writeGate
  | _ => true

/-- The message with which a write panics when it is begun. -/
def refusal? : Store K V → Option String
  | .gated s => if s.refusing then some Gated.refusal else none
  | _ => none

/-- How many entries are stored, if the store tells. -/
def size? : Store K V → Option Nat
  | .bounded s => some s.size
  | .recorded s => some s.size
  | .gated _ => none

/-- Whether nothing is stored, if the store tells. -/
def isEmpty? (s : Store K V) : Option Bool := s.size?.map (· == 0)

variable [DecidableEq K]

/-- Reads the entry of a key. -/
def get (key : K) : Store K V → Option (Entry V) × Store K V
  | .bounded s => (s.get? key, .bounded s)
  | .recorded s => let (found, s) := s.get key; (found, .recorded s)
  | .gated s => (s.get? key, .gated s)

/-- Writes an entry. Answers the displaced keys, each with the capacity that displaced it. -/
def put (key : K) (entry : Entry V) : Store K V → Store K V × List (K × Nat)
  | .bounded s => let (s', gone) := s.put key entry; (.bounded s', gone.map (·, s.capacity))
  | .recorded s => (.recorded (s.put key entry), [])
  | .gated s => (.gated (s.put key entry), [])

/-- Empties the store. -/
def clear : Store K V → Store K V
  | .bounded s => .bounded s.clear
  | .recorded s => .recorded s.clear
  | .gated s => .gated s.clear

end Store

end ReadThrough
