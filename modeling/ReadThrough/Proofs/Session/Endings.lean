import ReadThrough.Proofs.Load.Lives
import ReadThrough.Proofs.Session.Attendance
import ReadThrough.Proofs.Session.Contents
import ReadThrough.Proofs.Session.Deliveries
/-!
# Proofs: how executions end

An execution that ends without a result, or that loses all its callers, leaves nothing behind: no
write, no publication, no entry of the registry, so that the next load calls the source again. One
that ends with a result has written and published it.
-/

namespace ReadThrough

variable {P A V E : Type}

/-- What was written and published is what the executions have ended with: an execution that has not
ended, or has ended without a result, has neither written nor published anything. -/
structure AllOrNothing (T : List (Event P A V E)) : Prop where
  written : writes T = (books T).settled.filterMap fun s =>
    s.outcome.delivery?.map fun d => (s.key, d.entry)
  published : updates T = (books T).settled.filterMap fun s =>
    s.outcome.delivery?.map fun d => (s.key.params, d)
  all : ∀ s ∈ (books T).settled, ∀ d, s.outcome = .value (.ok d) →
    (s.key, d.entry) ∈ writes T ∧ (s.key.params, d) ∈ updates T

/-- Where writes and updates are matched, executions deliver all or nothing. -/
theorem Matched.allOrNothing {T : List (Event P A V E)} (h : Matched T) : AllOrNothing T := by
  refine ⟨?_, ?_, fun s hs d => published_of_settled h hs⟩
  · rw [h.writes, deliveries, List.map_filterMap]
    refine List.filterMap_congr fun s _ => ?_
    rw [Settlement.delivery?, Option.map_map]
    rfl
  · rw [h.updates, deliveries, List.map_filterMap]
    refine List.filterMap_congr fun s _ => ?_
    rw [Settlement.delivery?, Option.map_map]
    rfl

variable [DecidableEq P] [DecidableEq A]

/-- An execution that is over is not registered, nor is one without callers; a load that begins
while no execution runs for its key calls the source. -/
structure Unregistered (w : World P A V E) : Prop where
  ended : ∀ e stage, w.cache.flights.stage? e = some stage → stage.isRunning = false →
    ∀ key ticket, w.cache.flights.registry.get? key = some ticket → ticket.execution ≠ e
  deserted : ∀ e, .attached e ∉ w.loads →
    ∀ key ticket, w.cache.flights.registry.get? key = some ticket → ticket.execution ≠ e
  again : ∀ key, w.cache.flights.Vacant key →
    let polled := ((Load.unstarted key true).poll w.cache).2.env
    polled.called = w.cache.env.called ++ [key.params] ∧
      .called (w.cache.env.called.length + 1) key ∈ polled.trace

/-- Where the registry holds the running executions, none that is over is in it, and a load for a
key that is not in it calls the source. -/
theorem Attended.unregistered {w : World P A V E} (h : Attended w) : Unregistered w := by
  refine ⟨fun e stage hstage hover key ticket hget => h.not_registered hstage hover hget,
    fun e hnobody key ticket hget => ?_, fun key hvacant => h.calls hvacant⟩
  rintro rfl
  exact hnobody (h.runs_of_registered hget).2

/-! ## Moves in the life of an execution -/

section Fares

variable {w w' : World P A V E} {c : Cache P A V E} {loads : Multiset (Load P A V E)} {e : Nat}
  {work : Work P A V E}

/-- What a move does to a running execution: nothing, or it is abandoned, or its work is polled. -/
inductive Fares (w w' : World P A V E) (e : Nat) (work : Work P A V E) : Prop where
  | rests (hstage : w'.cache.flights.stage? e = some (.running work))
  | forsaken (hstage : w'.cache.flights.stage? e = some .abandoned)
      (hcache : Untouched w.cache.env w'.cache.env)
  | polled {progress : Progress (Work P A V E) (Outcome (Result V E))}
      {env : Environment P A V E} (hpoll : work.pollAs (some e) w.cache.env = (progress, env))
      (hstage : w'.cache.flights.stage? e = some (.ofProgress progress))
      (htold : Untouched env w'.cache.env)

/-- A poll of a shared load polls the work of its execution, and lets all others rest. -/
theorem fares_pollsAttached (h : c.flights.stage? e = some (.running work)) (e' : Nat) :
    Fares ⟨c, .attached e' ::ₘ loads⟩
      ⟨(Load.pollAttached e' c).2, held (Load.pollAttached e' c).1.rest? loads⟩ e work := by
  unfold Load.pollAttached
  rcases Flights.poll_cases (Work.pollAs (some e')) c.flights e' c.env with ⟨-, hidle⟩ | hpolls
  · rw [hidle]
    exact .rests h
  rcases hpoll : c.flights.poll (Work.pollAs (some e')) e' c.env with ⟨answer, f', env', ns⟩
  rw [hpoll] at hpolls
  -- Only the execution that is polled advances.
  by_cases he : e = e'
  · subst he
    obtain ⟨stage, stage', hstage, hstage', hadvances⟩ := hpolls.advances
    obtain rfl : stage = .running work := Option.some.inj (hstage.symm.trans h)
    have hnotices : ∀ event ∈ (ns.map .registry : List (Event P A V E)), event.touches = false :=
      fun event hevent => Event.touches_of_isQuiet (isQuiet_registry ns event hevent)
    cases hadvances with
    | @works _ progress _ hwork =>
      cases progress with
      | waiting left => exact .polled hwork hstage' ⟨rfl, rfl, _, rfl, hnotices⟩
      | finished outcome =>
        refine .polled hwork hstage' ⟨rfl, rfl, _, List.append_assoc .., ?_⟩
        exact List.forall_mem_append.mpr ⟨hnotices, List.forall_mem_singleton.mpr rfl⟩
  · have hsame := (hpolls.stage?_of_ne he).trans h
    cases answer with
    | none => exact .rests hsame
    | some outcome => exact .rests hsame

/-- A load that is dropped lets its execution rest, or abandons it as its last caller. -/
theorem fares_drops (h : c.flights.stage? e = some (.running work)) (load : Load P A V E) :
    Fares ⟨c, load ::ₘ loads⟩ ⟨load.drop c, loads⟩ e work := by
  have huntouched := load.untouched_drop c
  cases load with
  | unstarted key share => exact .rests h
  | alone other => exact .rests h
  | attached e' =>
    rcases c.flights.stage?_leave e' e with hsame | ⟨-, habandoned⟩
    · refine .rests ?_
      show (Load.drop (.attached e') c).flights.stage? e = _
      rw [Load.flights_drop_attached, hsame, h]
    · refine .forsaken ?_ huntouched
      show (Load.drop (.attached e') c).flights.stage? e = _
      rw [Load.flights_drop_attached, habandoned]

/-- Every move is one of the life of a running execution, or does nothing to it. -/
theorem Move.fares (hmove : Move w w') (h : w.cache.flights.stage? e = some (.running work)) :
    Fares w w' e work := by
  cases hmove with
  | acts hacts =>
    refine .rests ?_
    rw [show World.cache ⟨_, _⟩ = _ from rfl, hacts.flights_eq]
    exact h
  | begins key share => exact .rests h
  | enters key =>
    refine .rests ?_
    exact (Flights.stage?_enter_of_lt _ key _ (Flights.lt_of_stage? h)).trans h
  | detours key => exact .rests h
  | pollsAttached e' => exact fares_pollsAttached h e'
  | pollsAlone work' =>
    refine .rests ?_
    show (Load.pollAlone work' _).2.flights.stage? e = _
    rw [Load.flights_pollAlone]
    exact h
  | drops load => exact fares_drops h load
  | closes => exact .rests h

end Fares

/-! ## Runs -/

/-- The lives of executions, whatever else happens between their polls: one that ends without a
result, or in which the work is dropped, touches neither the store nor the channel of results; one
that ends with a result writes and publishes it, in its last poll. -/
structure LivesFully (P A V E : Type) [DecidableEq P] [DecidableEq A] : Prop where
  nothing : ∀ (execution : Option Nat) (key : Key P A)
    (polls : List (Environment P A V E × Environment P A V E))
    (ended : Option (Outcome (Result V E))),
    Work.Lives execution (.fresh key) polls ended →
    (∀ d, ended ≠ some (.value (.ok d))) → ∀ p ∈ polls, Untouched p.1 p.2
  all : ∀ (execution : Option Nat) (key : Key P A)
    (polls : List (Environment P A V E × Environment P A V E)) (d : Delivery V),
    Work.Lives execution (.fresh key) polls (some (.value (.ok d))) →
    ∃ earlier env env', polls = earlier ++ [(env, env')] ∧
      (∀ p ∈ earlier, Untouched p.1 p.2) ∧ Work.Hands key d env env'
  dropped : ∀ (load : Load P A V E) (c : Cache P A V E), Untouched c.env (load.drop c).env

/-- An execution writes and publishes its result in its last poll, and touches nothing otherwise. -/
theorem livesFully (P A V E : Type) [DecidableEq P] [DecidableEq A] : LivesFully P A V E :=
  ⟨fun _ _ _ _ h hnone => h.nothing hnone, fun _ _ _ _ h => h.all, Load.untouched_drop⟩

namespace Session

variable [DecidableEq V]

/-- The callers and the registry agree throughout every run from the beginning. -/
theorem attended_run (setup : Setup (Store (Key P A) V)) (source : Source P V E)
    (steps : List (Step P A V)) :
    Attended ((create (Cache.create setup source)).run steps).2.world := by
  have hsound : (create (Cache.create setup source)).Sound := sound_create _
  have hstart : Attended (create (Cache.create setup source)).world := by
    refine ⟨⟨nofun, fun hpos => absurd hpos (Nat.lt_irrefl 0)⟩, fun key ticket => ?_⟩
    constructor
    · intro hget
      cases hget
    · rintro ⟨-, x, hx, -⟩
      cases hx
  have hmove : ∀ {T : List (Event P A V E)} {w w' : World P A V E}, Move w w' → Attended w →
      Leads (fun _ => Attended) T w w' := by
    intro T w w' hmove h
    obtain ⟨events, htrace, -⟩ := hmove.reaches
    exact ⟨events, htrace, h.move hmove⟩
  exact kept_run (T := []) (I := fun _ => Attended) hmove
    (fun h => ⟨h.tracked, h.registered⟩)
    (fun h key entry => ⟨_, Environment.trace_writeStore _ key entry, h.tracked, h.registered⟩)
    steps hsound hstart

/-- In every run of a session over a new cache each execution does all or nothing. What the cache
has written and published are the results that executions have ended with, and the store has exactly
what was written and not displaced or cleared since. An execution that is over is not registered, so
that the next load of its key calls the source again. -/
theorem executions_all_or_nothing (setup : Setup (Store (Key P A) V)) (source : Source P V E)
    (steps : List (Step P A V)) :
    let run := (create (Cache.create setup source)).run steps
    AllOrNothing (ownEvents steps run.1) ∧
      Stocked setup.store (eventsOf run.1) run.2.cache.env ∧
      (∀ s ∈ (books (ownEvents steps run.1)).settled, ∀ e, s.execution = some e →
        run.2.cache.flights.stage? e = some (.settled s.outcome)) ∧
      Unregistered run.2.world ∧
      (∀ w w' : World P A V E, Move w w' → ∀ e work,
        w.cache.flights.stage? e = some (.running work) → Fares w w' e work) ∧
      LivesFully P A V E := by
  have hrecounts := Recounts.run setup source steps
  have hattended := attended_run setup source steps
  exact ⟨hrecounts.delivered.matched.allOrNothing, stocked_run setup source steps,
    hrecounts.told.answered.settled, hattended.unregistered, fun _ _ hmove _ _ h => hmove.fares h,
    livesFully P A V E⟩

/-- Two callers of an execution go away while its write waits, and a third one calls again. -/
def forsaken : List (Step String Unit Int64) :=
  [.begin "a" (.stream true (Key.ofParams "x") (.policy .never) {}),
    .begin "b" (.stream true (Key.ofParams "x") (.policy .never) {}),
    .poll "a", .poll "b", .drop "a", .drop "b", .openGate "write",
    .run (.stream true (Key.ofParams "x") (.policy .never) {})]

example :
    let setup : Setup (Store (Key String Unit) Int64) :=
      { store := .gated { writeGate := some "write", entries := Table.empty },
        clock := .counter 1000 1, broadcastCapacity := 64 }
    let source : Source String Int64 String := scriptedSource []
    let reports := ((create (Cache.create setup source)).run forsaken).1
    reports.map (·.ongoing) = [0, 0, 1, 1, 1, 0, 0, 0].map some ∧
      writes (eventsOf reports) = [(Key.ofParams "x", Entry.stamped 2 1001)] ∧
      updates (eventsOf reports) = [("x", Delivery.loaded 2 1001)] :=
  ⟨rfl, rfl, rfl⟩

end Session

end ReadThrough
