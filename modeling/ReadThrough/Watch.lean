import ReadThrough.Call
/-!
# Watches

A watch asks for the parameters once, trying again while the source fails, and goes on observing
the results that are published for them. What comes from both sides is merged into one stream:
the sides take turns in being asked first, one that has nothing gives way to the other, and a value
equal to the last one shown is passed over. A watch ends only with its cache.
-/

namespace ReadThrough

/-! ## Loads with retries -/

namespace Load

variable {P A V E : Type} [DecidableEq P] [DecidableEq A]

/-- Polls a load and, when it has failed, the next one, as long as tries remain. `retries` is the
number of tries after the first. -/
def pollRetrying (key : Key P A) (retries : Nat) :
    (remaining : Nat) → Load P A V E → Cache P A V E →
      Progress (Nat × Load P A V E) (Result V E) × Cache P A V E
  | remaining, load, c =>
    match load.poll c with
    | (.waiting load, c) => (.waiting (remaining, load), c)
    | (.finished (.ok delivery), c) => (.finished (.ok delivery), c)
    | (.finished (.error failure), c) =>
      match remaining with
      | 0 => (.finished (.error failure), c)
      | remaining + 1 =>
        pollRetrying key retries remaining (.unstarted key true)
          (c.note (.retried (retries - remaining) retries))

end Load

/-! ## Watches -/

/-- The sides of a watch. -/
inductive Side where
  /-- The published results. -/
  | updates
  /-- The watch's own request. -/
  | request
  deriving DecidableEq

/-- The other side. -/
def Side.other : Side → Side
  | .updates => .request
  | .request => .updates

/-- How far the watch's own request is. -/
inductive Inquiry (P A V E : Type) where
  /-- A load is under way, and so many more may follow. -/
  | loading (remaining : Nat) (load : Load P A V E)
  /-- The result has been yielded, and there is nothing more to ask for. -/
  | answered

/-- A watch. -/
structure Watch (P A V E : Type) where
  /-- What is watched. -/
  params : P
  /-- How often a failed load is tried again. -/
  retries : Nat
  /-- The position on the channel of results. -/
  position : Nat
  /-- The side to be asked first. -/
  turn : Side
  /-- The watch's own request. -/
  inquiry : Inquiry P A V E
  /-- The last value shown. -/
  last : Option V

namespace Watch

variable {P A V E : Type}

/-- What a side of a watch yields. -/
abbrev Item (V E : Type) := Except (Failure E) V

/-- A watch that has not been polled, subscribed to the channel of results. -/
def create (params : P) (retries : Nat) (c : Cache P A V E) : Watch P A V E × Cache P A V E :=
  let (position, updates) := c.env.updates.subscribe
  ({ params, retries, position, turn := .updates, last := none,
     inquiry := .loading retries (.unstarted (Key.ofParams params) true) },
    { c with env.updates := updates })

variable [DecidableEq P]

/-- Asks the channel for the next result of the parameters. -/
def nextUpdate (w : Watch P A V E) (c : Cache P A V E) :
    Option (Item V E) × Watch P A V E × Cache P A V E :=
  let (missed, received) := c.env.updates.receive (·.1 = w.params) w.position
  let c := c.noteMissed "updates" missed
  match received with
  | .message (_, delivery) position => (some (.ok delivery.value), { w with position }, c)
  | .nothing position => (none, { w with position }, c)
  | .ended => (none, w, c)

variable [DecidableEq A]

/-- Asks the watch's own request. -/
def nextAnswer (w : Watch P A V E) (c : Cache P A V E) :
    Option (Item V E) × Watch P A V E × Cache P A V E :=
  match w.inquiry with
  | .loading remaining load =>
    match load.pollRetrying (Key.ofParams w.params) w.retries remaining c with
    | (.waiting (remaining, load), c) => (none, { w with inquiry := .loading remaining load }, c)
    | (.finished result, c) =>
      (some (result.map (·.value)), { w with inquiry := .answered }, c)
  | .answered => (none, w, c)

/-- Asks the side whose turn it is, and then the other one if the first has nothing. -/
def next (w : Watch P A V E) (c : Cache P A V E) :
    Option (Item V E) × Watch P A V E × Cache P A V E :=
  let after := { w with turn := w.turn.other }
  match w.turn with
  | .updates =>
    match after.nextUpdate c with
    | (some item, w, c) => (some item, w, c)
    | (none, w, c) => w.nextAnswer c
  | .request =>
    match after.nextAnswer c with
    | (some item, w, c) => (some item, w, c)
    | (none, w, c) => w.nextUpdate c

variable [DecidableEq V]

/-- Asks until there is something to show or neither side has anything, at most as often as the
first argument says. -/
def showNext : Nat → Watch P A V E → Cache P A V E →
    Answer (Item V E) × Watch P A V E × Cache P A V E
  | 0, w, c => (.pending, w, c)
  | asks + 1, w, c =>
    match w.next c with
    | (none, w, c) => (.pending, w, c)
    | (some (.error failure), w, c) => (.item (.error failure), w, c)
    | (some (.ok value), w, c) =>
      if w.last = some value then showNext asks w c
      else (.item (.ok value), { w with last := some value }, c)

/-- One poll of a watch. Only values can be passed over: those that are unread, the one that the
request may publish meanwhile and the one that it returns. -/
def poll (w : Watch P A V E) (c : Cache P A V E) :
    Answer (Item V E) × Watch P A V E × Cache P A V E :=
  w.showNext ((c.env.updates.unread w.position).length + 3) c

/-- The caller drops a watch. -/
def drop (w : Watch P A V E) (c : Cache P A V E) : Cache P A V E :=
  let c := { c with env.updates := c.env.updates.unsubscribe }
  match w.inquiry with
  | .loading _ load => load.drop c
  | _ => c

end Watch

end ReadThrough
