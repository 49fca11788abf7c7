import ReadThrough.Proofs.Session.Watches
/-!
# Proofs: a request that is tried again

The request of a watch makes at most one load more than it may be tried again, and each of its loads
comes to an execution of its own (`Session.retries_spend_distinct_executions`), whoever else shares
the executions, and whatever else happens between the polls of the watch.
-/

namespace ReadThrough

variable {P A V E : Type}

namespace Session

variable [DecidableEq P] [DecidableEq A] [DecidableEq V]

/-- The request of a watch spends one execution after another. The watch is begun in any session
over a new cache, as long as the cache has not been dropped, and any steps follow, of which none
takes its name. The record belongs to the run: it leaves the same session, and has the events that
the run reports.

What happens in the polls of the watch, but for what it was told to have missed, is the course of
its loads: each begins when the one before has failed, as long as tries remain, and the first that
returns a value, or the last one, gives the outcome. There are at most `retries + 1` loads, and they
come to as many executions. All but the last have received an outcome, and the last one has as well
if the request has come to its outcome. If that is a failure, all loads were made. The tries are
counted from one up to `retries` at most. The outcome is what the watch yields: the failure, if it
is one, and no other, or the value, unless it has just been yielded. As long as a poll has nothing
to yield and there is no outcome, the last execution that a load has come to is running. -/
theorem retries_spend_distinct_executions (setup : Setup (Store (Key P A) V))
    (source : Source P V E) (before after : List (Step P A V)) (id : String) (params : P)
    (retries : Nat) (hopen : ((create (Cache.create setup source)).run before).2.closed = false)
    (hbegins : ∀ st ∈ after, ¬ st.begins id) :
    let begun := (((create (Cache.create setup source)).run before).2.step
      (.begin id (.watch params retries))).2
    let record := runObserved id begun after
    let own := efforts (ticksOf record.2)
    let entered := own.filterMap Event.entered?
    record.1 = (begun.run after).2 ∧ eventsSeen record.2 = eventsOf (begun.run after).1 ∧
      ∃ inquiry received outcome,
        Tries (Key.ofParams params) retries inquiry received own outcome ∧
        entered.Nodup ∧ entered.length ≤ retries + 1 ∧
        own.filterMap Event.source? = received ∧ received.Nodup ∧
        (∃ last : Option Nat, entered = received ++ last.toList ∧
          (last = none → own ≠ [] → outcome.isSome = true)) ∧
        (∀ failure, outcome = some (.error failure) → received.length = retries + 1) ∧
        (∃ tries ≤ retries, own.filterMap Event.retry? =
          (List.range tries).map fun n => (n + 1, retries)) ∧
        (yielded record.2).filterMap Item.failure? = failuresOf outcome.toList ∧
        (∀ delivery, outcome = some (.ok delivery) → .value delivery.value ∈ yielded record.2) ∧
        ∀ earlier events, record.2 = earlier ++ [.polled events (.answer .pending)] →
          outcome = none → ∃ e work, entered = received ++ [e] ∧
            record.1.cache.flights.stage? e = some (.running work) := by
  intro begun record own entered
  obtain ⟨hsame, hevents, hkeeps⟩ :=
    keeps_run setup source before after id params retries hopen hbegins
  obtain ⟨d, hshown, hholds, -⟩ := hkeeps.diary
  obtain ⟨inquiry, htries⟩ := hholds.tries
  obtain ⟨hsource, ⟨last, hentered, hlast, hcount⟩, htried⟩ := htries.reads
  have hdistinct : d.received.Nodup := by
    have hall := hholds.nodup
    rw [hentered] at hall
    exact hall.sublist (List.sublist_append_left _ _)
  refine ⟨hsame, hevents, inquiry, d.received, d.outcome, htries, hholds.nodup, hcount, hsource,
    hdistinct, ⟨last, hentered, hlast⟩, fun failure hfailed => ?_, htried, hholds.failures hshown,
    fun delivery hok => ?_, fun earlier events hlog => (hshown.idle earlier events hlog).2⟩
  · rw [hfailed] at htries
    exact htries.length_of_failed
  · have hmem : .ok delivery.value ∈ Side.request.items d.taken := by
      rw [hholds.fromRequest, hok]
      exact List.mem_singleton_self _
    exact hshown.mem_yielded (List.mem_map.mpr ⟨_, Side.mem_items.mp hmem, rfl⟩)

/-- A source whose first call returns an error, and whose second one panics. -/
def falteringSource : Source Nat Nat Nat := fun number _ =>
  .replies
    { wait := { yields := 1 }, took := none,
      ending :=
        if number = 1 then .error 9 else if number = 2 then .panic "lost" else .value number }

/-- The watch shares each of its loads with a request. -/
def trials : List (Step Nat Unit Nat) :=
  let request : Request Nat Unit Nat := .stream true (Key.ofParams 7) (.policy .never) {}
  [.begin "b" request, .poll "b", .poll "w", .begin "c" request, .poll "c", .begin "d" request,
    .poll "d", .poll "w", .poll "w"]

/-- The first execution was started by another request, the second one has failed meanwhile, and the
third one was started by another request, too. -/
theorem retries_spend_distinct_executions_trials :
    let start := ((create (Cache.create numberingSetup falteringSource)).run []).2
    let record := runObserved "w" (start.step (.begin "w" (.watch 7 3))).2 trials
    let own := efforts (ticksOf record.2)
    start.closed = false ∧ (∀ st ∈ trials, ¬ st.begins "w") ∧
      own.filterMap Event.entered? = [0, 1, 2] ∧
      own.filterMap Event.retry? = [(1, 3), (2, 3)] ∧
      (yielded record.2).filterMap Item.value? = [3] ∧
      ∃ inquiry outcome, Tries (Key.ofParams 7) 3 inquiry [0, 1, 2] own outcome ∧
        outcome.isSome = true ∧ failuresOf outcome.toList = [] := by
  intro start record own
  have hbegins : ∀ st ∈ trials, ¬ st.begins "w" := by decide
  have hentered : own.filterMap Event.entered? = [0, 1, 2] := by decide +kernel
  have hretry : own.filterMap Event.retry? = [(1, 3), (2, 3)] := by decide +kernel
  have hsource : own.filterMap Event.source? = [0, 1, 2] := by decide +kernel
  have hvalues : (yielded record.2).filterMap Item.value? = [3] := by decide +kernel
  have hfailures : (yielded record.2).filterMap Item.failure? = [] := by decide +kernel
  obtain ⟨-, -, inquiry, received, outcome, htries, -, -, hreceived, -, ⟨last, hall, hlast⟩, -, -,
    hfailed, -⟩ := retries_spend_distinct_executions numberingSetup falteringSource [] trials "w" 7
      3 rfl hbegins
  obtain rfl : received = [0, 1, 2] := hreceived.symm.trans hsource
  have hnone : last = none := by
    have hlength := congrArg List.length (hentered.symm.trans hall)
    cases last with
    | none => rfl
    | some e => cases hlength
  have hbusy : own ≠ [] := by
    intro hnil
    rw [hnil] at hentered
    cases hentered
  exact ⟨rfl, hbegins, hentered, hretry, hvalues, inquiry, outcome, htries, hlast hnone hbusy,
    hfailed.symm.trans hfailures⟩

end Session

end ReadThrough
