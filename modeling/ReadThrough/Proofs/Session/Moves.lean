import ReadThrough.Proofs.Load.Course
import ReadThrough.Proofs.Session.Tasks
import Mathlib.Logic.Relation
/-!
# Proofs: a session as moves of its loads

Whatever a session does is a sequence of small moves: a load begins, comes to an execution, is
polled or dropped, or something is done to the cache that concerns no load (`Move`). So what every
move keeps holds throughout every run (`kept_run`), however requests, fetches and watches are made
up of loads, and however they are polled.
-/

namespace ReadThrough

variable {P A V E : Type}

/-- A cache, with the loads that its tasks hold. -/
structure World (P A V E : Type) where
  cache : Cache P A V E
  loads : Multiset (Load P A V E)

/-- Whether an event only remarks on what becomes of a request or a subscription. -/
def Event.isRemark : Event P A V E → Bool
  | .unanswered _ | .rescued _ | .rejected _ | .retried _ _ | .lagged _ _ => true
  | _ => false

/-- Whether nothing comes after an answer. -/
def Answer.isLast {I : Type} : Answer I → Bool
  | .done | .panicked _ => true
  | .pending | .item _ => false

/-- The cache is left by the last one who could publish anything. -/
def Cache.close (c : Cache P A V E) : Cache P A V E where
  env := { c.env with updates := c.env.updates.close, errors := c.env.errors.close }
  flights := c.flights.close

variable [DecidableEq P] [DecidableEq A]

/-- What is done to a cache that concerns no load. -/
inductive Acts (c : Cache P A V E) : Cache P A V E → Prop where
  | looks {key : Key P A} {maxAge : Option Duration} {found : Option (Delivery V)}
      {c' : Cache P A V E} (hlook : c.lookup key maxAge = some (found, c')) : Acts c c'
  /-- An acceptance test is made. -/
  | judges : Acts c { c with env.asked := c.env.asked + 1 }
  | notes {event : Event P A V E} (hremark : event.isRemark = true) : Acts c (c.note event)
  | subscribesUpdates : Acts c { c with env.updates := c.env.updates.subscribe.2 }
  | subscribesErrors : Acts c { c with env.errors := c.env.errors.subscribe.2 }
  | unsubscribesUpdates : Acts c { c with env.updates := c.env.updates.unsubscribe }
  | unsubscribesErrors : Acts c { c with env.errors := c.env.errors.unsubscribe }
  | gates (gates : Gates) : Acts c { c with env.gates := gates }
  | advances (d : Duration) : Acts c { c with env := c.env.advance d }
  | setsTime (now : Stamp) : Acts c { c with env.clock := c.env.clock.set now }
  | clears : Acts c c.clear
  /-- The store is asked past the cache. -/
  | asks (query : Query (Key P A)) : Acts c { c with env.store := (c.env.store.ask query).2 }

/-- One small move. -/
inductive Move : World P A V E → World P A V E → Prop where
  | acts {c c' : Cache P A V E} {loads : Multiset (Load P A V E)} (hacts : Acts c c') :
      Move ⟨c, loads⟩ ⟨c', loads⟩
  | begins {c : Cache P A V E} {loads : Multiset (Load P A V E)} (key : Key P A) (share : Bool) :
      Move ⟨c, loads⟩ ⟨c, .unstarted key share ::ₘ loads⟩
  /-- A load that may share comes to an execution. -/
  | enters {c : Cache P A V E} {loads : Multiset (Load P A V E)} (key : Key P A) :
      Move ⟨c, .unstarted key true ::ₘ loads⟩
        ⟨⟨c.env.noteRegistry [(c.flights.enter key (.fresh key)).2.2],
            (c.flights.enter key (.fresh key)).2.1⟩,
          .attached (c.flights.enter key (.fresh key)).1 ::ₘ loads⟩
  /-- A load that may not share begins its work. -/
  | detours {c : Cache P A V E} {loads : Multiset (Load P A V E)} (key : Key P A) :
      Move ⟨c, .unstarted key false ::ₘ loads⟩ ⟨c, .alone (.fresh key) ::ₘ loads⟩
  | pollsAttached {c : Cache P A V E} {loads : Multiset (Load P A V E)} (e : Nat) :
      Move ⟨c, .attached e ::ₘ loads⟩
        ⟨(Load.pollAttached e c).2, held (Load.pollAttached e c).1.rest? loads⟩
  | pollsAlone {c : Cache P A V E} {loads : Multiset (Load P A V E)} (work : Work P A V E) :
      Move ⟨c, .alone work ::ₘ loads⟩
        ⟨(Load.pollAlone work c).2, held (Load.pollAlone work c).1.rest? loads⟩
  | drops {c : Cache P A V E} {loads : Multiset (Load P A V E)} (load : Load P A V E) :
      Move ⟨c, load ::ₘ loads⟩ ⟨load.drop c, loads⟩
  /-- The cache is left, once there are no loads. -/
  | closes {c : Cache P A V E} : Move ⟨c, 0⟩ ⟨c.close, 0⟩

/-- Any number of moves. -/
abbrev Moves : World P A V E → World P A V E → Prop := Relation.ReflTransGen Move

namespace Moves

variable {c c' : Cache P A V E} {loads : Multiset (Load P A V E)}

/-- What a session does to its cache besides the loads takes moves. -/
theorem act (hacts : Acts c c') : Moves ⟨c, loads⟩ ⟨c', loads⟩ := .single (.acts hacts)

/-- To note a remark takes moves. -/
theorem note {event : Event P A V E} (hremark : event.isRemark = true) :
    Moves ⟨c, loads⟩ ⟨c.note event, loads⟩ := act (.notes hremark)

end Moves

/-- A poll of any load takes moves. -/
theorem Load.moves_poll (load : Load P A V E) (c : Cache P A V E)
    (loads : Multiset (Load P A V E)) :
    Moves ⟨c, load ::ₘ loads⟩ ⟨(load.poll c).2, held (load.poll c).1.rest? loads⟩ := by
  cases load with
  | attached e => exact .single (.pollsAttached e)
  | alone work => exact .single (.pollsAlone work)
  | unstarted key share =>
    cases share with
    | true => exact .head (.enters key) (.single (.pollsAttached _))
    | false => exact .head (.detours key) (.single (.pollsAlone _))

end ReadThrough
