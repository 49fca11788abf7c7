import ReadThrough.Flights
import ReadThrough.Gate
/-!
# Coalescing, step by step

A registry of executions together with the producers that do their work and the named jobs that
wait for them. Every possible interleaving of calls, polls and drops is a list of steps (`Step`),
and `run` says what each step answers.

A producer is called at the first poll of its job, and never for a job that attached to an
execution which another job had started. A job that runs alone keeps off the registry, and goes
away with it.
-/

namespace ReadThrough

/-! ## Producers -/

/-- Work that a job brings along. -/
structure Producer (V : Type) where
  /-- The message with which the call of the producer itself panics. -/
  refusal : Option String := none
  /-- What the work waits for. -/
  wait : Wait := {}
  /-- How the work ends, given how many producers have been called, this one included. -/
  ending : Nat → Outcome V

/-- How far the work of a producer is. The name is that of the job which brought it. -/
inductive Production (V : Type) where
  /-- The producer has not been called. -/
  | uncalled (id : String) (producer : Producer V)
  /-- The work waits, and it is known how it will end. -/
  | working (id : String) (wait : Wait) (outcome : Outcome V)

/-- What the producers share. -/
structure Workshop where
  /-- The gates that their work may wait for. -/
  gates : Gates := {}
  /-- The jobs whose producers were called, in order. -/
  started : List String := []
  /-- The jobs whose work was dropped before it ended, in order. -/
  cancelled : List String := []

namespace Production

variable {V : Type}

/-- Polls work that has begun. -/
def proceed (id : String) (wait : Wait) (outcome : Outcome V) (shop : Workshop) :
    Progress (Production V) (Outcome V) × Workshop :=
  match wait.poll shop.gates with
  | some wait => (.waiting (.working id wait outcome), shop)
  | none => (.finished outcome, shop)

/-- One poll of the work. -/
def poll : Production V → Workshop → Progress (Production V) (Outcome V) × Workshop
  | .uncalled id producer, shop =>
    let shop := { shop with started := shop.started ++ [id] }
    match producer.refusal with
    | some message => (.finished (.panicked message), shop)
    | none => proceed id producer.wait (producer.ending shop.started.length) shop
  | .working id wait outcome, shop => proceed id wait outcome shop

/-- The work is dropped. -/
def discard : Production V → Workshop → Workshop
  | .uncalled _ _, shop => shop
  | .working id _ _, shop => { shop with cancelled := shop.cancelled ++ [id] }

end Production

/-! ## Jobs -/

/-- A job, as it is kept under its name. -/
inductive Job (V : Type) where
  /-- It waits for an execution. -/
  | shared (execution : Nat)
  /-- It runs alone. -/
  | exclusive (production : Production V)
  /-- It has received its outcome. -/
  | ended

/-- Whether a job runs alone and has not ended. -/
def Job.isExclusive {V : Type} : Job V → Bool
  | .exclusive _ => true
  | _ => false

/-- A registry and the jobs that use it. -/
structure Coalescing (K V : Type) where
  /-- The registry and its executions. -/
  flights : Flights K (Production V) V := Flights.empty
  /-- What the producers share. -/
  shop : Workshop := {}
  /-- The jobs by name. -/
  jobs : Table String (Job V) := Table.empty
  /-- Whether the registry has gone away. -/
  closed : Bool := false
  /-- What happened to the registry during the current step. -/
  notices : List Notice := []

namespace Coalescing

variable {K V : Type}

/-- A step of a run. -/
inductive Step (K V : Type) where
  /-- A job calls for a key; it attaches to the execution under way, or starts its producer's. -/
  | shared (id : String) (key : K) (producer : Producer V)
  /-- A job runs its producer alone. -/
  | exclusive (id : String) (producer : Producer V)
  /-- Polls a job. -/
  | poll (id : String)
  /-- Polls jobs in passes, until a pass gives nothing. -/
  | join (ids : List String)
  /-- Drops a job. -/
  | drop (id : String)
  /-- Opens a gate. -/
  | openGate (gate : String)
  /-- Closes a gate. -/
  | closeGate (gate : String)
  /-- Asks for the inspection text of the registry. -/
  | inspect
  /-- Drops the jobs that run alone, and the registry. -/
  | dropRegistry

/-- Whether a step makes no sense without the registry. -/
def Step.needsRegistry : Step K V → Bool
  | .shared _ _ _ | .exclusive _ _ | .inspect | .dropRegistry => true
  | .poll _ | .join _ | .drop _ | .openGate _ | .closeGate _ => false

/-- What a step answers. -/
inductive Response (V : Type) where
  /-- Nothing. -/
  | nothing
  /-- The job has begun. -/
  | begun
  /-- Yes or no. -/
  | flag (flag : Bool)
  /-- The answer of a job. -/
  | answer (answer : TaskAnswer (Outcome V))
  /-- The answers of several jobs. -/
  | joined (answers : List (String × TaskAnswer (Outcome V)))
  /-- A text. -/
  | text (text : String)
  /-- The registry that the step needs has gone away. -/
  | invalid

/-- What is known after a step. -/
structure Report (V : Type) where
  /-- What the step answers. -/
  response : Response V
  /-- How many executions are registered, while there is a registry. -/
  ongoing : Option Nat
  /-- The jobs whose producers were called so far. -/
  started : List String
  /-- The jobs whose work was dropped so far. -/
  cancelled : List String
  /-- What happened to the registry during the step. -/
  notices : List Notice

/-- Keeps a job under its name. -/
def keep (r : Coalescing K V) (id : String) (job : Job V) : Coalescing K V :=
  { r with jobs := r.jobs.insert id job }

variable [DecidableEq K]

/-- Polls a job. -/
def pollJob (id : String) (r : Coalescing K V) : TaskAnswer (Outcome V) × Coalescing K V :=
  match r.jobs.get? id with
  | none => (.unknown, r)
  | some .ended => (.finished, r)
  | some (.shared execution) =>
    match r.flights.poll Production.poll execution r.shop with
    | (some outcome, flights, shop, notices) =>
      (.answer (.item outcome),
        { r with flights, shop, notices := r.notices ++ notices }.keep id .ended)
    | (none, flights, shop, notices) =>
      (.answer .pending, { r with flights, shop, notices := r.notices ++ notices })
  | some (.exclusive production) =>
    match production.poll r.shop with
    | (.finished outcome, shop) => (.answer (.item outcome), { r with shop }.keep id .ended)
    | (.waiting rest, shop) => (.answer .pending, { r with shop }.keep id (.exclusive rest))

/-- Drops a job. -/
def dropJob (id : String) (r : Coalescing K V) : Coalescing K V :=
  let gone := { r with jobs := r.jobs.erase id }
  match r.jobs.get? id with
  | some (.shared execution) =>
    match r.flights.leave execution with
    | (some production, flights, notices) =>
      { gone with flights, shop := production.discard r.shop, notices := r.notices ++ notices }
    | (none, flights, notices) => { gone with flights, notices := r.notices ++ notices }
  | some (.exclusive production) => { gone with shop := production.discard r.shop }
  | some .ended | none => gone

/-- Keeps a new job under its name, and drops the one that had the name before. -/
def replace (r : Coalescing K V) (id : String) (job : Job V) : Coalescing K V :=
  (r.dropJob id).keep id job

/-- A job calls for a key. -/
def call (r : Coalescing K V) (id : String) (key : K) (producer : Producer V) :
    Coalescing K V :=
  let (execution, flights, notice) := r.flights.enter key (.uncalled id producer)
  { r with flights, notices := r.notices ++ [notice] }.replace id (.shared execution)

/-- The names of the jobs that run alone and have not ended, in alphabetical order. -/
def exclusives (r : Coalescing K V) : List String := r.jobs.keysWhere (· ≤ ·) Job.isExclusive

/-- Drops the jobs that run alone, and the registry. -/
def dropRegistry (r : Coalescing K V) : Coalescing K V :=
  let r := r.exclusives.foldl (fun r id => r.dropJob id) r
  { r with flights := r.flights.close, closed := true }

/-- Performs a step. -/
def perform (r : Coalescing K V) : Step K V → Response V × Coalescing K V
  | .shared id key producer => (.begun, r.call id key producer)
  | .exclusive id producer => (.begun, r.replace id (.exclusive (.uncalled id producer)))
  | .poll id => let (answer, r) := r.pollJob id; (.answer answer, r)
  | .join ids => let (answers, r) := join pollJob (ids.length + 1) ids r; (.joined answers, r)
  | .drop id => (.flag (r.jobs.contains id), r.dropJob id)
  | .openGate gate => (.nothing, { r with shop.gates := r.shop.gates.opening gate })
  | .closeGate gate => (.nothing, { r with shop.gates := r.shop.gates.closing gate })
  | .inspect => (.text r.flights.inspect, r)
  | .dropRegistry => (.nothing, r.dropRegistry)

/-- Performs a step and reports. A step that needs the registry is refused once it has gone
away. -/
def step (r : Coalescing K V) (s : Step K V) : Report V × Coalescing K V :=
  let r := { r with notices := [] }
  let (response, r) := if r.closed && s.needsRegistry then (.invalid, r) else r.perform s
  ({ response, ongoing := if r.closed then none else some r.flights.ongoing,
     started := r.shop.started, cancelled := r.shop.cancelled, notices := r.notices }, r)

/-- Performs steps in order. -/
def run : Coalescing K V → List (Step K V) → List (Report V) × Coalescing K V
  | r, [] => ([], r)
  | r, s :: rest =>
    let (report, r) := r.step s
    let (reports, r) := run r rest
    (report :: reports, r)

end Coalescing

end ReadThrough
