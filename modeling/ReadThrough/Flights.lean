import ReadThrough.Polling
import ReadThrough.Table
import ReadThrough.Text.Inspect
/-!
# Flights

Coalescing of work: callers that ask for the same key while work for it is under way share one
execution of it. The first caller starts an execution, later ones attach to it, and all of them
receive the one outcome it settles with.

An execution makes progress only when one of its callers polls it. It is on the registry from the
call that starts it until it settles or its last caller goes away, and it is taken off exactly
once. Going away has two steps: the caller detaches, which abandons the execution if the caller
was its last, and an abandoned execution is then released from the registry. Between the two steps
the registry names an execution that nobody can attach to any more; a call for its key then starts
a new execution in its place, and the release that is still to come must leave that one alone.
Therefore executions are numbered, and a release only removes an entry with its own number.
-/

namespace ReadThrough

/-- How a piece of work ends. -/
inductive Outcome (T : Type) where
  /-- It returns a value. -/
  | value (value : T)
  /-- It panics. -/
  | panicked (message : String)
  deriving DecidableEq

/-- The stages of an execution. -/
inductive Stage (W T : Type) where
  /-- It is not finished. -/
  | running (work : W)
  /-- It is finished; callers that have not yet seen the outcome still may. -/
  | settled (outcome : Outcome T)
  /-- Its last caller went away before it was finished. -/
  | abandoned

/-- One execution of a piece of work. -/
structure Execution (K W T : Type) where
  /-- What it was started for. -/
  key : K
  /-- How many callers wait for its outcome. -/
  callers : Nat
  /-- How far it is. -/
  stage : Stage W T
  /-- Whether it has been released from the registry. -/
  released : Bool

/-- An entry of the registry. -/
structure Ticket where
  /-- The number of the execution, counted in 64 bits. -/
  number : UInt64
  /-- The execution. -/
  execution : Nat
  deriving DecidableEq

/-- The number of an execution. -/
def flightNumber (execution : Nat) : UInt64 := UInt64.ofNat execution

/-- What happens to the registry. -/
inductive Notice where
  /-- An execution was started; afterwards that many are registered. -/
  | started (execution ongoing : Nat)
  /-- A caller attached to an execution; that many are registered. -/
  | attached (execution ongoing : Nat)
  /-- An execution was removed; afterwards that many are registered. -/
  | removed (execution ongoing : Nat)
  deriving DecidableEq

/-- The log line of a notice. -/
def Notice.line : Notice → String
  | .started execution ongoing =>
    "TRACE sourcecache_flight: started execution flight=" ++
      toString (flightNumber execution).toNat ++ " ongoing=" ++ toString ongoing
  | .attached _ ongoing =>
    "TRACE sourcecache_flight: attached to in-flight execution ongoing=" ++ toString ongoing
  | .removed execution ongoing =>
    "TRACE sourcecache_flight: removed execution flight=" ++
      toString (flightNumber execution).toNat ++ " ongoing=" ++ toString ongoing

/-- The registry of executions by key, and every execution ever started, in order. -/
structure Flights (K W T : Type) where
  /-- The registered executions. -/
  registry : Table K Ticket
  /-- All executions; the position of one is its identity. -/
  executions : List (Execution K W T)

namespace Flights

variable {K W T σ : Type}

/-- Nothing is under way. -/
def empty : Flights K W T := ⟨Table.empty, []⟩

/-- How many executions are registered. -/
def ongoing (f : Flights K W T) : Nat := f.registry.size

/-- The inspection text. -/
def inspect (f : Flights K W T) : String :=
  Text.partialRecord "Deduplicator" [("ongoing", toString f.ongoing)]

/-- Replaces an execution. -/
def set (f : Flights K W T) (execution : Nat) (x : Execution K W T) : Flights K W T :=
  { f with executions := f.executions.set execution x }

/-- The registry itself goes away. Executions live on for their callers, unregistered. -/
def close (f : Flights K W T) : Flights K W T := { f with registry := Table.empty }

variable [DecidableEq K]

/-- The registered execution of a key that a caller can attach to: one with a caller left. -/
def joinable? (f : Flights K W T) (key : K) : Option (Nat × Execution K W T) :=
  match f.registry.get? key with
  | none => none
  | some ticket =>
    match f.executions[ticket.execution]? with
    | none => none
    | some x => if 0 < x.callers then some (ticket.execution, x) else none

/-- Starts an execution and registers it, in the place of whatever was registered for the key. -/
def start (f : Flights K W T) (key : K) (work : W) : Nat × Flights K W T × Notice :=
  let execution := f.executions.length
  let registry := f.registry.insert key ⟨flightNumber execution, execution⟩
  let x := { key, callers := 1, stage := .running work, released := false }
  (execution, { registry, executions := f.executions ++ [x] },
    .started execution registry.size)

/-- A call for a key: attaches to the execution under way, or starts `work` as a new one. Answers
the execution. -/
def enter (f : Flights K W T) (key : K) (work : W) : Nat × Flights K W T × Notice :=
  match f.joinable? key with
  | some (execution, x) =>
    (execution, f.set execution { x with callers := x.callers + 1 },
      .attached execution f.ongoing)
  | none => f.start key work

/-- Takes an execution off the registry. Only the first release of an execution does anything,
and it only removes an entry with the execution's own number. -/
def release (f : Flights K W T) (execution : Nat) : Flights K W T × List Notice :=
  match f.executions[execution]? with
  | none => (f, [])
  | some x =>
    if x.released then (f, [])
    else
      let f := f.set execution { x with released := true }
      match f.registry.get? x.key with
      | some ticket =>
        if ticket.number = flightNumber execution then
          let registry := f.registry.erase x.key
          ({ f with registry }, [.removed execution registry.size])
        else (f, [])
      | none => (f, [])

/-- One caller polls its execution: `step` is one poll of the work, on a state that the work may
change. An execution that finishes is released at once; a caller that receives the outcome no
longer waits. Answers the outcome, if there is one. -/
def poll (step : W → σ → Progress W (Outcome T) × σ) (f : Flights K W T) (execution : Nat)
    (s : σ) : Option (Outcome T) × Flights K W T × σ × List Notice :=
  match f.executions[execution]? with
  | none => (none, f, s, [])
  | some x =>
    match x.stage with
    | .running work =>
      match step work s with
      | (.waiting rest, s) => (none, f.set execution { x with stage := .running rest }, s, [])
      | (.finished outcome, s) =>
        let x := { x with stage := .settled outcome, callers := x.callers - 1 }
        let (f, notices) := (f.set execution x).release execution
        (some outcome, f, s, notices)
    | .settled outcome => (some outcome, f.set execution { x with callers := x.callers - 1 }, s, [])
    | .abandoned => (none, f, s, [])

/-- A caller that has not received the outcome goes away. The last one to go abandons an execution
that is not finished. Answers the abandoned work. -/
def detach (f : Flights K W T) (execution : Nat) : Option W × Flights K W T :=
  match f.executions[execution]? with
  | none => (none, f)
  | some x =>
    let callers := x.callers - 1
    match x.stage with
    | .running work =>
      if callers = 0 then (some work, f.set execution { x with callers, stage := .abandoned })
      else (none, f.set execution { x with callers })
    | _ => (none, f.set execution { x with callers })

/-- A caller goes away, and an execution that it abandons is released at once. -/
def leave (f : Flights K W T) (execution : Nat) : Option W × Flights K W T × List Notice :=
  match f.detach execution with
  | (some work, f) =>
    let (f, notices) := f.release execution
    (some work, f, notices)
  | (none, f) => (none, f, [])

end Flights

end ReadThrough
