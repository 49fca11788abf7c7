import ReadThrough.Call
/-!
# The last result of a request

A request of which only the last result is wanted. One poll takes the request as far as it goes:
results that are not the last are passed over without a pause.
-/

namespace ReadThrough

/-- A request of which only the last result matters, yielded as the only item. -/
structure Fetch (P A V E : Type) where
  /-- The request. -/
  call : Call P A V E
  /-- Its latest result. -/
  latest : Option (Result V E)
  /-- Whether the result has been yielded. -/
  spent : Bool

namespace Fetch

variable {P A V E : Type}

/-- What one poll answers, the request and the cache afterwards. -/
abbrev Polled (P A V E : Type) :=
  Answer (Result V E) × Fetch P A V E × Cache P A V E

/-- A request that has not been polled. -/
def create (key : Key P A) (policy : Policy) (terms : Terms) : Fetch P A V E :=
  { call := Call.create key (.policy policy) terms, latest := none, spent := false }

/-- The result of a request that has yielded nothing more. A request yields at least one result,
so that the second case does not arise. -/
def resultOf : Option (Result V E) → Result V E
  | some result => result
  | none => .error .notCached

variable [DecidableEq P] [DecidableEq A]

/-- Polls the request until it has to wait or has ended, at most as often as the first argument
says. -/
def collect : Nat → Fetch P A V E → Cache P A V E → Polled P A V E
  | 0, f, c => (.pending, f, c)
  | polls + 1, f, c =>
    match f.call.poll c with
    | (.pending, call, c) => (.pending, { f with call }, c)
    | (.item result, call, c) => collect polls { f with call, latest := some result } c
    | (.done, call, c) => (.item (resultOf f.latest), { f with call, spent := true }, c)
    | (.panicked message, call, c) => (.panicked message, { f with call, spent := true }, c)

/-- One poll. A request has at most two results, so three polls reach its end. -/
def poll (f : Fetch P A V E) (c : Cache P A V E) : Polled P A V E :=
  if f.spent then (.done, f, c) else collect 3 f c

/-- The caller drops the request. -/
def drop (f : Fetch P A V E) (c : Cache P A V E) : Cache P A V E := f.call.drop c

end Fetch

end ReadThrough
