import ReadThrough.Load
import ReadThrough.Policy
/-!
# Calls

A request to a cache, as a stream of results that does nothing until it is polled. A policy says
which of the store and the source is consulted first and what is made of the answer; a request
with an acceptance test uses a stored value only if the test approves it. Every request yields one
result, except that `Policy.cachedThenLoad` yields a second one after a usable stored value.
-/

namespace ReadThrough

/-- What an acceptance test says about a stored value. -/
inductive Verdict where
  /-- The value will do. -/
  | accept
  /-- The source is to be called. -/
  | reject
  /-- The test panics. -/
  | panic (message : String)
  deriving DecidableEq

/-- How a request uses the store and the source. -/
inductive Plan (V : Type) where
  /-- As a policy says. -/
  | policy (policy : Policy)
  /-- A usable stored value that passes a test, otherwise the source. -/
  | judged (test : V → Verdict)

/-- Whether a request consults the store first. -/
def Plan.looksFirst {V : Type} : Plan V → Bool
  | .policy .never | .policy .ifFailed => false
  | _ => true

/-- How far a request is. -/
inductive CallStage (P A V E : Type) where
  /-- The store is to be read. -/
  | looking
  /-- The source is being called. -/
  | loading (load : Load P A V E)
  /-- The source failed and the store is to be read. -/
  | rescuing (failure : Failure E)
  /-- The last result has been yielded. -/
  | spent

/-- A request. -/
structure Call (P A V E : Type) where
  /-- What is requested. -/
  key : Key P A
  /-- What the request allows. -/
  terms : Terms
  /-- How it uses the store and the source. -/
  plan : Plan V
  /-- How far it is. -/
  stage : CallStage P A V E

namespace Call

variable {P A V E : Type}

/-- What one poll of a request answers, the request and the cache afterwards. -/
abbrev Polled (P A V E : Type) :=
  Answer (Result V E) × Call P A V E × Cache P A V E

/-- A request that has not been polled. -/
def create (key : Key P A) (plan : Plan V) (terms : Terms) : Call P A V E :=
  { key, terms, plan,
    stage := if plan.looksFirst then .looking else .loading (.unstarted key terms.share) }

/-- The request with a load that has not been polled. -/
def toLoad (call : Call P A V E) : Call P A V E :=
  { call with stage := .loading (.unstarted call.key call.terms.share) }

/-- Yields the last result. -/
def yieldLast (call : Call P A V E) (result : Result V E) (c : Cache P A V E) : Polled P A V E :=
  (.item result, { call with stage := .spent }, c)

variable [DecidableEq P] [DecidableEq A]

/-- Reads the store for a failed load: a usable entry takes the place of the failure. -/
def rescue (call : Call P A V E) (failure : Failure E) (c : Cache P A V E) : Polled P A V E :=
  match c.lookup call.key call.terms.maxAge with
  | none => (.pending, { call with stage := .rescuing failure }, c)
  | some (some delivery, c) => call.yieldLast (.ok delivery) (c.note (.rescued call.key))
  | some (none, c) => call.yieldLast (.error failure) c

/-- The load has ended. -/
def settle (call : Call P A V E) (result : Result V E) (c : Cache P A V E) : Polled P A V E :=
  match call.plan, result with
  | .policy .ifFailed, .error failure => call.rescue failure c
  | _, result => call.yieldLast result c

/-- Polls a load. -/
def pollLoad (call : Call P A V E) (load : Load P A V E) (c : Cache P A V E) : Polled P A V E :=
  match load.poll c with
  | (.waiting load, c) => (.pending, { call with stage := .loading load }, c)
  | (.finished result, c) => call.settle result c

/-- Begins a load and polls it. -/
def beginLoad (call : Call P A V E) (c : Cache P A V E) : Polled P A V E :=
  call.pollLoad (.unstarted call.key call.terms.share) c

/-- Uses a usable stored value. -/
def useStored (call : Call P A V E) (delivery : Delivery V) (c : Cache P A V E) :
    Polled P A V E :=
  match call.plan with
  | .policy .cachedThenLoad => (.item (.ok delivery), call.toLoad, c)
  | .policy _ => call.yieldLast (.ok delivery) c
  | .judged test =>
    let c := { c with env.asked := c.env.asked + 1 }
    match test delivery.value with
    | .accept => call.yieldLast (.ok delivery) c
    | .reject => call.beginLoad (c.note (.rejected call.key))
    | .panic message => (.panicked message, { call with stage := .spent }, c)

/-- Goes on without a usable stored value. -/
def goWithout (call : Call P A V E) (c : Cache P A V E) : Polled P A V E :=
  match call.plan with
  | .policy .only => call.yieldLast (.error .notCached) (c.note (.unanswered call.key))
  | _ => call.beginLoad c

/-- Reads the store. -/
def look (call : Call P A V E) (c : Cache P A V E) : Polled P A V E :=
  match c.lookup call.key call.terms.maxAge with
  | none => (.pending, call, c)
  | some (some delivery, c) => call.useStored delivery c
  | some (none, c) => call.goWithout c

/-- One poll of a request. -/
def poll (call : Call P A V E) (c : Cache P A V E) : Polled P A V E :=
  match call.stage with
  | .looking => call.look c
  | .loading load => call.pollLoad load c
  | .rescuing failure => call.rescue failure c
  | .spent => (.done, call, c)

/-- The caller drops a request. -/
def drop (call : Call P A V E) (c : Cache P A V E) : Cache P A V E :=
  match call.stage with
  | .loading load => load.drop c
  | _ => c

end Call

end ReadThrough
