import ReadThrough.Environment
/-!
# The work of a load

A load calls the source, and what the source returns is stamped, written to the store and
published, in this order; a failure is published. However many callers share the load, this work
is done once. It can be interrupted where the source waits and where the store makes the write
wait: whoever drops it there leaves the store and the channel of results untouched.
-/

namespace ReadThrough

/-- How far the work of a load is. -/
inductive Work (P A V E : Type) where
  /-- The source has not been called. -/
  | fresh (key : Key P A)
  /-- The call of the source with this number is in progress. -/
  | calling (key : Key P A) (number : Nat) (reply : Reply V E)
  /-- The value that the call with this number returned waits to be written to the store. -/
  | storing (key : Key P A) (number : Nat) (value : V) (now : Stamp)

namespace Work

variable {P A V E : Type}

/-- What one poll of the work leaves, and the environment afterwards. -/
abbrev Polled (P A V E : Type) :=
  Progress (Work P A V E) (Outcome (Result V E)) × Environment P A V E

/-- What the work is done for. -/
def key : Work P A V E → Key P A
  | .fresh key | .calling key _ _ | .storing key _ _ _ => key

/-- The number of its call of the source, once that has been made. -/
def number? : Work P A V E → Option Nat
  | .fresh _ => none
  | .calling _ number _ | .storing _ number _ _ => some number

/-- Whether a call of the source is in progress: then dropping the work cancels it. -/
def callsSource : Work P A V E → Bool
  | .calling _ _ _ => true
  | _ => false

/-- Publishes a failure of the source. -/
def fail (key : Key P A) (failure : Failure E) (env : Environment P A V E) : Polled P A V E :=
  let env := env.note (.failed key failure)
  (.finished (.value (.error failure)), env.publishFailure key.params failure)

variable [DecidableEq P] [DecidableEq A]

/-- Writes a value as soon as the store lets it through, and publishes it. -/
def finishStoring (key : Key P A) (number : Nat) (value : V) (now : Stamp)
    (env : Environment P A V E) : Polled P A V E :=
  if env.store.writable env.gates then
    let env := (env.writeStore key (Entry.stamped value now)).note (.succeeded key now)
    let delivery := Delivery.loaded value now
    (.finished (.value (.ok delivery)), env.publishUpdate key.params delivery)
  else (.waiting (.storing key number value now), env)

/-- Stamps a value and begins to write it. -/
def store (key : Key P A) (number : Nat) (value : V) (env : Environment P A V E) :
    Polled P A V E :=
  let (now, env) := env.readClock
  match env.store.refusal? with
  | some message => (.finished (.panicked message), env)
  | none => finishStoring key number value now env

/-- The source has ended. -/
def conclude (key : Key P A) (number : Nat) (ending : Ending V E) (env : Environment P A V E) :
    Polled P A V E :=
  match ending with
  | .value value => store key number value env
  | .error error => fail key (.source error) env
  | .panic message => fail key (.panicked message) env

/-- Polls a call of the source. -/
def proceed (key : Key P A) (number : Nat) (reply : Reply V E) (env : Environment P A V E) :
    Polled P A V E :=
  match reply.wait.poll env.gates with
  | some wait => (.waiting (.calling key number { reply with wait }), env)
  | none => conclude key number reply.ending (reply.took.elim env env.advance)

/-- Calls the source and polls the call. -/
def begin (key : Key P A) (env : Environment P A V E) : Polled P A V E :=
  match env.callSource key with
  | (.refuses message, env) => (.finished (.panicked message), env)
  | (.replies reply, env) => proceed key env.called.length reply env

/-- One poll of the work. -/
def poll : Work P A V E → Environment P A V E → Polled P A V E
  | .fresh key, env => begin key env
  | .calling key number reply, env => proceed key number reply env
  | .storing key number value now, env => finishStoring key number value now env

/-- One poll of the work as an execution, which leaves an event when it ends. -/
def pollAs (execution : Option Nat) (work : Work P A V E) (env : Environment P A V E) :
    Polled P A V E :=
  match work.poll env with
  | (.finished outcome, env') =>
    let number := work.number?.getD (env.called.length + 1)
    (.finished outcome, env'.note (.settled execution number work.key outcome))
  | (.waiting rest, env') => (.waiting rest, env')

end Work

end ReadThrough
