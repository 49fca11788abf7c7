import ReadThrough.Builder
import ReadThrough.Fetch
import ReadThrough.Watch
import ReadThrough.Store.Query
/-!
# Sessions

A cache together with the named tasks that use it: requests, watches and subscriptions. Every
possible interleaving of their polls and drops, with gates that open and close, time that passes
and the store being emptied meanwhile, is a list of steps (`Step`), and `run` says what each step
answers.
-/

namespace ReadThrough

/-! ## Tasks -/

/-- What a task asks for. -/
inductive Request (P A V : Type) where
  /-- The results of a request, whole or their values alone. -/
  | stream (whole : Bool) (key : Key P A) (plan : Plan V) (terms : Terms)
  /-- The last value of a request. -/
  | fetch (params : P) (policy : Policy) (terms : Terms)
  /-- The values of the parameters from now on. -/
  | watch (params : P) (retries : Nat)
  /-- All results from now on. -/
  | updates
  /-- All failures from now on. -/
  | errors

/-- An item that a task yields. -/
inductive Item (P V E : Type) where
  /-- A value. -/
  | value (value : V)
  /-- A result. -/
  | delivery (delivery : Delivery V)
  /-- A failure. -/
  | failure (failure : Failure E)
  /-- A published result. -/
  | update (params : P) (delivery : Delivery V)
  /-- A published failure. -/
  | error (params : P) (failure : Failure E)

namespace Item

variable {P V E : Type}

/-- The item for a result, whole or its value alone. -/
def ofResult (whole : Bool) : Result V E → Item P V E
  | .ok d => if whole then .delivery d else .value d.value
  | .error e => .failure e

/-- The item for a value or a failure. -/
def ofValue : Except (Failure E) V → Item P V E
  | .ok v => .value v
  | .error e => .failure e

end Item

/-- A task, as it is kept under its name. -/
inductive Task (P A V E : Type) where
  /-- A request. -/
  | call (whole : Bool) (call : Call P A V E)
  /-- A request of which only the last value matters. -/
  | fetch (fetch : Fetch P A V E)
  /-- A watch. -/
  | watch (watch : Watch P A V E)
  /-- A subscriber of results at a position. -/
  | updates (position : Nat)
  /-- A subscriber of failures at a position. -/
  | errors (position : Nat)
  /-- Its end has been told. -/
  | ended

namespace Task

variable {P A V E : Type}

/-- Begins a task. Subscriptions are made at once; everything else waits for the first poll. -/
def create (c : Cache P A V E) : Request P A V → Task P A V E × Cache P A V E
  | .stream whole key plan terms => (.call whole (Call.create key plan terms), c)
  | .fetch params policy terms => (.fetch (Fetch.create (Key.ofParams params) policy terms), c)
  | .watch params retries =>
    let (w, c) := Watch.create params retries c
    (.watch w, c)
  | .updates =>
    let (position, channel) := c.env.updates.subscribe
    (.updates position, { c with env.updates := channel })
  | .errors =>
    let (position, channel) := c.env.errors.subscribe
    (.errors position, { c with env.errors := channel })

/-- Whether a task needs the cache: all but subscriptions and tasks that have ended do. -/
def needsCache : Task P A V E → Bool
  | .call _ _ | .fetch _ | .watch _ => true
  | .updates _ | .errors _ | .ended => false

/-- A bound on the number of times that a task has something new to tell, unless other tasks
publish meanwhile. -/
def patience (c : Cache P A V E) : Task P A V E → Nat
  | .call _ _ | .fetch _ => 4
  | .watch w => (c.env.updates.unread w.position).length + w.retries + 4
  | .updates position => (c.env.updates.unread position).length + 2
  | .errors position => (c.env.errors.unread position).length + 2
  | .ended => 1

/-- The task after an answer: one that has told its end, or panicked, has ended. -/
def after {I : Type} (answer : Answer I) (task : Task P A V E) : Task P A V E :=
  match answer with
  | .done | .panicked _ => .ended
  | .pending | .item _ => task

variable [DecidableEq P] [DecidableEq A]

/-- The owner drops a task. -/
def drop (task : Task P A V E) (c : Cache P A V E) : Cache P A V E :=
  match task with
  | .call _ request => request.drop c
  | .fetch request => request.drop c
  | .watch w => w.drop c
  | .updates _ => { c with env.updates := c.env.updates.unsubscribe }
  | .errors _ => { c with env.errors := c.env.errors.unsubscribe }
  | .ended => c

variable [DecidableEq V]

/-- One poll of a task. -/
def poll (task : Task P A V E) (c : Cache P A V E) :
    TaskAnswer (Item P V E) × Task P A V E × Cache P A V E :=
  match task with
  | .call whole request =>
    let (answer, request, c) := request.poll c
    (.answer (answer.map (Item.ofResult whole)), after answer (.call whole request), c)
  | .fetch request =>
    let (answer, request, c) := request.poll c
    (.answer (answer.map (Item.ofResult false)), after answer (.fetch request), c)
  | .watch w =>
    let (answer, w, c) := w.poll c
    (.answer (answer.map Item.ofValue), after answer (.watch w), c)
  | .updates position =>
    let (missed, received) := c.env.updates.receive (fun _ => true) position
    let c := c.noteMissed "updates" missed
    match received with
    | .message (params, delivery) position =>
      (.answer (.item (.update params delivery)), .updates position, c)
    | .nothing position => (.answer .pending, .updates position, c)
    | .ended => (.answer .done, .ended, { c with env.updates := c.env.updates.unsubscribe })
  | .errors position =>
    let (missed, received) := c.env.errors.receive (fun _ => true) position
    let c := c.noteMissed "errors" missed
    match received with
    | .message (params, failure) position =>
      (.answer (.item (.error params failure)), .errors position, c)
    | .nothing position => (.answer .pending, .errors position, c)
    | .ended => (.answer .done, .ended, { c with env.errors := c.env.errors.unsubscribe })
  | .ended => (.finished, .ended, c)

end Task

/-! ## Sessions -/

/-- A cache and its tasks. -/
structure Session (P A V E : Type) where
  /-- The cache. -/
  cache : Cache P A V E
  /-- The tasks by name. -/
  tasks : Table String (Task P A V E) := Table.empty
  /-- Whether the cache has been dropped. -/
  closed : Bool := false

namespace Session

variable {P A V E : Type}

/-- A step of a run. -/
inductive Step (P A V : Type) where
  /-- Begins a task. -/
  | begin (id : String) (request : Request P A V)
  /-- Begins a task without a name, polls it until it has nothing more to give and drops it. -/
  | run (request : Request P A V)
  /-- Polls a task. -/
  | poll (id : String)
  /-- Polls a task until it has nothing more to give. -/
  | drain (id : String)
  /-- Polls tasks in passes, until a pass gives nothing. -/
  | join (ids : List String)
  /-- Drops a task. -/
  | drop (id : String)
  /-- Opens a gate. -/
  | openGate (gate : String)
  /-- Closes a gate. -/
  | closeGate (gate : String)
  /-- Lets time pass. -/
  | advance (d : Duration)
  /-- Moves the clock. -/
  | setTime (now : Stamp)
  /-- Empties the store through the cache. -/
  | clear
  /-- Writes an entry past the cache. -/
  | put (key : Key P A) (entry : Entry V)
  /-- Asks the store a question past the cache. -/
  | ask (query : Query (Key P A))
  /-- Asks for an overview. -/
  | overview
  /-- Drops the tasks that need the cache, and the cache. -/
  | close

/-- Whether a step makes no sense without the cache. Tasks that have outlived it can be polled and
dropped. -/
def Step.needsCache : Step P A V → Bool
  | .begin _ _ | .run _ | .clear | .put _ _ | .ask _ | .overview | .close => true
  | .poll _ | .drain _ | .join _ | .drop _ | .openGate _ | .closeGate _ | .advance _
  | .setTime _ => false

/-- What a session tells about itself. -/
structure Overview (P : Type) where
  /-- How many entries are stored, if the store tells. -/
  size : Option Nat
  /-- Whether nothing is stored, if the store tells. -/
  isEmpty : Option Bool
  /-- The parameters of all calls of the source so far, in order. -/
  called : List P
  /-- How often an acceptance test was made. -/
  asked : Nat
  /-- The inspection text of the cache. -/
  text : String

/-- What a step answers. -/
inductive Response (P A V E : Type) where
  /-- Nothing. -/
  | nothing
  /-- Yes or no. -/
  | flag (flag : Bool)
  /-- The answer of a task. -/
  | answer (answer : TaskAnswer (Item P V E))
  /-- The answers of a task, in order. -/
  | answers (answers : List (TaskAnswer (Item P V E)))
  /-- The answers of several tasks. -/
  | joined (answers : List (String × TaskAnswer (Item P V E)))
  /-- What the store found. -/
  | finding (finding : Finding (Key P A) V)
  /-- An overview. -/
  | overview (overview : Overview P)
  /-- The cache that the step needs has been dropped. -/
  | invalid

/-- What is known after a step. -/
structure Report (P A V E : Type) where
  /-- What the step answers. -/
  response : Response P A V E
  /-- How many calls of the source were made so far. -/
  calls : Nat
  /-- How many of them were dropped before they ended. -/
  cancelled : Nat
  /-- How many shared loads are under way, while there is a cache. -/
  ongoing : Option Nat
  /-- What happened during the step. -/
  events : List (Event P A V E)

/-- A session over a cache, without tasks. -/
def create (cache : Cache P A V E) : Session P A V E := { cache }

/-- Replaces what surrounds the cache. -/
def withEnv (s : Session P A V E) (env : Environment P A V E) : Session P A V E :=
  { s with cache.env := env }

/-- The overview of a session. -/
def summary (s : Session P A V E) : Overview P :=
  let env := s.cache.env
  { size := env.store.size?, isEmpty := env.store.isEmpty?, called := env.called,
    asked := env.asked, text := s.cache.inspect }

/-- A bound on the number of answers that tell something when these tasks are polled together:
what each of them has to tell, and each of them may publish to all the others. -/
def patience (s : Session P A V E) (ids : List String) : Nat :=
  let each := ids.map fun id => ((s.tasks.get? id).map (Task.patience s.cache)).getD 0
  each.foldr (· + ·) 0 * (ids.length + 1) + 1

variable [DecidableEq P] [DecidableEq A]

/-- Drops a task. -/
def dropTask (id : String) (s : Session P A V E) : Session P A V E :=
  match s.tasks.get? id with
  | none => s
  | some task => { s with cache := task.drop s.cache, tasks := s.tasks.erase id }

/-- The names of the tasks that need the cache, in alphabetical order. -/
def dependents (s : Session P A V E) : List String := s.tasks.keysWhere (· ≤ ·) Task.needsCache

/-- Begins a task under a name, and drops the one that had the name before. -/
def beginTask (id : String) (request : Request P A V) (s : Session P A V E) : Session P A V E :=
  let (task, cache) := Task.create s.cache request
  let s := { s with cache }.dropTask id
  { s with tasks := s.tasks.insert id task }

/-- Drops the tasks that need the cache, and the cache. Subscribers still receive what is in the
channels. -/
def close (s : Session P A V E) : Session P A V E :=
  let s := s.dependents.foldl (fun s id => s.dropTask id) s
  let c := s.cache
  { s with
    closed := true,
    cache :=
      { env := { c.env with updates := c.env.updates.close, errors := c.env.errors.close },
        flights := c.flights.close } }

/-- Writes an entry past the cache. -/
def put (s : Session P A V E) (key : Key P A) (entry : Entry V) : Session P A V E :=
  s.withEnv (s.cache.env.writeStore key entry)

/-- Asks the store a question past the cache. -/
def ask (s : Session P A V E) (query : Query (Key P A)) :
    Finding (Key P A) V × Session P A V E :=
  let (finding, store) := s.cache.env.store.ask query
  (finding, { s with cache.env.store := store })

variable [DecidableEq V]

/-- Polls a task. -/
def pollTask (id : String) (s : Session P A V E) :
    TaskAnswer (Item P V E) × Session P A V E :=
  match s.tasks.get? id with
  | none => (.unknown, s)
  | some task =>
    let (answer, task, cache) := task.poll s.cache
    (answer, { s with cache, tasks := s.tasks.insert id task })

/-- Polls a task until it has nothing more to give. -/
def drainTask (id : String) (s : Session P A V E) :
    List (TaskAnswer (Item P V E)) × Session P A V E :=
  drain (pollTask id) (s.patience [id]) s

/-- Begins a task without a name, polls it until it has nothing more to give and drops it. -/
def runTask (request : Request P A V) (s : Session P A V E) :
    List (TaskAnswer (Item P V E)) × Session P A V E :=
  let (task, cache) := Task.create s.cache request
  let (answers, task, cache) :=
    drain (fun (task, cache) => task.poll cache) (task.patience cache) (task, cache)
  (answers, { s with cache := task.drop cache })

/-- Performs a step. -/
def perform (s : Session P A V E) : Step P A V → Response P A V E × Session P A V E
  | .begin id request => (.nothing, s.beginTask id request)
  | .run request => let (answers, s) := s.runTask request; (.answers answers, s)
  | .poll id => let (answer, s) := s.pollTask id; (.answer answer, s)
  | .drain id => let (answers, s) := s.drainTask id; (.answers answers, s)
  | .join ids =>
    let (answers, s) := join pollTask (s.patience ids) ids s
    (.joined answers, s)
  | .drop id => (.flag (s.tasks.contains id), s.dropTask id)
  | .openGate gate =>
    (.nothing, { s with cache.env.gates := s.cache.env.gates.opening gate })
  | .closeGate gate =>
    (.nothing, { s with cache.env.gates := s.cache.env.gates.closing gate })
  | .advance d => (.nothing, s.withEnv (s.cache.env.advance d))
  | .setTime now => (.nothing, { s with cache.env.clock := s.cache.env.clock.set now })
  | .clear => (.nothing, { s with cache := s.cache.clear })
  | .put key entry => (.nothing, s.put key entry)
  | .ask query => let (finding, s) := s.ask query; (.finding finding, s)
  | .overview => (.overview s.summary, s)
  | .close => (.nothing, s.close)

/-- Performs a step and reports. A step that needs the cache is refused once the cache has been
dropped. -/
def step (s : Session P A V E) (st : Step P A V) : Report P A V E × Session P A V E :=
  let s := { s with cache.env.trace := [] }
  let (response, s) := if s.closed && st.needsCache then (.invalid, s) else s.perform st
  let env := s.cache.env
  ({ response, calls := env.called.length, cancelled := env.cancelled,
     ongoing := if s.closed then none else some s.cache.ongoing, events := env.trace }, s)

/-- Performs steps in order. -/
def run : Session P A V E → List (Step P A V) → List (Report P A V E) × Session P A V E
  | s, [] => ([], s)
  | s, st :: rest =>
    let (report, s) := s.step st
    let (reports, s) := run s rest
    (report :: reports, s)

end Session

end ReadThrough
