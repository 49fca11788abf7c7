import ReadThrough.Call
/-!
# Scripts

A source whose calls are written down beforehand: one line for each call, in order; when there are
more calls than lines the last line is repeated. Likewise acceptance tests that are written down.
-/

namespace ReadThrough

/-- What a script says about a call of the source. -/
structure ScriptLine (E : Type) where
  /-- The message with which the call itself panics. -/
  refusal : Option String := none
  /-- What the call waits for. -/
  wait : Wait := {}
  /-- How much time it takes once it has waited. -/
  took : Option Duration := none
  /-- How it ends; otherwise it returns its own number. -/
  ending : Option (Ending Int64 E) := none

namespace ScriptLine

variable {E : Type}

/-- What the call with a number does. -/
def behaviour (line : ScriptLine E) (number : Nat) : Behaviour Int64 E :=
  match line.refusal with
  | some message => .refuses message
  | none =>
    .replies
      { wait := line.wait, took := line.took,
        ending := line.ending.getD (.value (Int64.ofNat number)) }

end ScriptLine

/-- The source of a script. Its calls do not depend on their parameters, and an empty script is
one whose calls return their numbers. -/
def scriptedSource {P E : Type} (script : List (ScriptLine E)) : Source P Int64 E :=
  fun number _ => (script[number - 1]?.getD (script.getLast?.getD {})).behaviour number

/-! ## Acceptance tests -/

/-- A test of a stored number. -/
inductive NumberTest where
  /-- Every number passes, or none does. -/
  | always (verdict : Bool)
  /-- Numbers greater than the bound pass. -/
  | greater (bound : Int64)
  /-- The number itself passes. -/
  | equal (number : Int64)
  /-- The test panics. -/
  | panics (message : String)

/-- The verdict of a test. -/
def NumberTest.judge (test : NumberTest) (value : Int64) : Verdict :=
  let passes (b : Bool) : Verdict := if b then .accept else .reject
  match test with
  | .always verdict => passes verdict
  | .greater bound => passes (bound < value)
  | .equal number => passes (value = number)
  | .panics message => .panic message

end ReadThrough
