import ReadThrough.Cache
/-!
# Loads

A load asks the source for the value of a key. It joins the execution that is under way for the
key, or starts one; a load that does not share does its work alone. Either way nothing happens
before the load is first polled.
-/

namespace ReadThrough

/-- A load, as its caller holds it. -/
inductive Load (P A V E : Type) where
  /-- It has not been polled. -/
  | unstarted (key : Key P A) (share : Bool)
  /-- It waits for a shared execution. -/
  | attached (execution : Nat)
  /-- It does its work alone. -/
  | alone (work : Work P A V E)

namespace Load

variable {P A V E : Type}

/-- What one poll of a load leaves, and the cache afterwards. -/
abbrev Polled (P A V E : Type) := Progress (Load P A V E) (Result V E) × Cache P A V E

/-- What a caller makes of the outcome of the work: a panic that escaped the work is a failure
like any other. -/
def resultOf : Outcome (Result V E) → Result V E
  | .value result => result
  | .panicked message => .error (.panicked message)

variable [DecidableEq P] [DecidableEq A]

/-- The caller receives the outcome of an execution. -/
def receive (execution : Option Nat) (outcome : Outcome (Result V E)) (c : Cache P A V E) :
    Polled P A V E :=
  let result := resultOf outcome
  (.finished result, c.note (.received execution result))

/-- Polls a shared execution. -/
def pollAttached (execution : Nat) (c : Cache P A V E) : Polled P A V E :=
  match c.flights.poll (Work.pollAs (some execution)) execution c.env with
  | (some outcome, flights, env, notices) =>
    receive (some execution) outcome ⟨env.noteRegistry notices, flights⟩
  | (none, flights, env, notices) =>
    (.waiting (.attached execution), ⟨env.noteRegistry notices, flights⟩)

/-- Polls work that is not shared. -/
def pollAlone (work : Work P A V E) (c : Cache P A V E) : Polled P A V E :=
  match work.pollAs none c.env with
  | (.finished outcome, env) => receive none outcome { c with env }
  | (.waiting rest, env) => (.waiting (.alone rest), { c with env })

/-- One poll of a load. -/
def poll : Load P A V E → Cache P A V E → Polled P A V E
  | .unstarted key true, c =>
    let (execution, flights, notice) := c.flights.enter key (.fresh key)
    pollAttached execution ⟨c.env.noteRegistry [notice], flights⟩
  | .unstarted key false, c => pollAlone (.fresh key) c
  | .attached execution, c => pollAttached execution c
  | .alone work, c => pollAlone work c

/-- The caller drops a load. -/
def drop : Load P A V E → Cache P A V E → Cache P A V E
  | .unstarted _ _, c => c
  | .attached execution, c =>
    match c.flights.leave execution with
    | (some work, flights, notices) => ({ c with flights }.discard work).noteRegistry notices
    | (none, flights, notices) => { c with flights }.noteRegistry notices
  | .alone work, c => c.discard work

end Load

end ReadThrough
