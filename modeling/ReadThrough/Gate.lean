/-!
# Gates

Named flags that asynchronous code waits for, and what such code has yet to wait for: first a
gate, then a number of polls.
-/

namespace ReadThrough

/-- The gates that are open; every other gate is closed. -/
structure Gates where
  /-- The names of the open gates. -/
  opened : List String := []

namespace Gates

/-- Whether a gate is open. -/
def isOpen (g : Gates) (name : String) : Bool := g.opened.contains name

/-- Whether nothing is in the way: there is no gate, or it is open. -/
def lets (g : Gates) (gate : Option String) : Bool := gate.all g.isOpen

/-- Opens a gate. -/
def opening (g : Gates) (name : String) : Gates := ⟨name :: g.opened⟩

/-- Closes a gate. -/
def closing (g : Gates) (name : String) : Gates := ⟨g.opened.filter (· ≠ name)⟩

end Gates

/-- What a computation waits for before it goes on. -/
structure Wait where
  /-- A gate that must be found open once. -/
  gate : Option String := none
  /-- How many polls are in vain after that. -/
  yields : Nat := 0

/-- One poll: what is left to wait for, or none if the computation goes on. A gate that was found
open is not looked at again. -/
def Wait.poll (w : Wait) (gates : Gates) : Option Wait :=
  if gates.lets w.gate then
    match w.yields with
    | 0 => none
    | n + 1 => some ⟨none, n⟩
  else some w

end ReadThrough
