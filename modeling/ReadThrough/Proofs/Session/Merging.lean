import ReadThrough.Proofs.Session.Watches
/-!
# Proofs: a watch merges its two sides

A watch reads the results that are published for its parameters, and the outcome of its own request.
What it yields is a merge of the two in which no value is equal to the one before, with one failure
at most (`Session.watch_merges_without_repeats`).
-/

namespace ReadThrough

variable {P A V E : Type}

/-- A value that is taken is that of a result that was read, or of the request. -/
theorem Diary.Holds.source_of_value [DecidableEq P] {room : Nat} {params : P} {retries : Nat}
    {d : Diary P V E} {ticks : List (Tick P A V E)}
    (h : d.Holds room params retries ticks) {value : V} (htaken : .ok value ∈ d.taken.map (·.2)) :
    (∃ m ∈ d.read, m.1 = params ∧ m.2.value = value) ∨
      ∃ delivery, d.outcome = some (.ok delivery) ∧ delivery.value = value := by
  obtain ⟨⟨side, item⟩, hentry, rfl⟩ := List.mem_map.mp htaken
  cases side with
  | updates =>
    have hmem := Side.mem_items.mpr hentry
    rw [h.fromUpdates] at hmem
    obtain ⟨m, hm, hvalue⟩ := List.mem_map.mp hmem
    obtain ⟨hread, hparams⟩ := List.mem_filter.mp hm
    exact .inl ⟨m, hread, of_decide_eq_true hparams, Except.ok.inj hvalue⟩
  | request =>
    have hmem := Side.mem_items.mpr hentry
    rw [h.fromRequest] at hmem
    obtain ⟨result, hresult, hvalue⟩ := List.mem_map.mp hmem
    have houtcome : d.outcome = some result := Option.mem_toList.mp hresult
    rcases result with failure | delivery
    · cases hvalue
    · exact .inr ⟨delivery, houtcome, Except.ok.inj hvalue⟩

namespace Session

variable [DecidableEq P] [DecidableEq A] [DecidableEq V]

/-- A watch yields the de-duplicated merge of its two sides. It is begun in any session over a new
cache, as long as the cache has not been dropped, and any steps follow, of which none takes its
name. The record belongs to the run: it leaves the same session, and has the events that the run
reports.

The watch reads the results that are published since it began, in order and each once, but for those
that the ring had no room for when it looked (`Peruses`); if it was never told of any, it reads all
of them. It takes the values of those that are for its parameters, and the outcome of its request,
if there is one yet. It yields what it takes, without the values that are equal to the last one
yielded before. So no two values in a row are equal, whatever failure is between them, each value
that it takes is yielded or is the last one yielded, it yields at most one failure, and every value
that it yields is that of a result for its parameters which it has read, or of its own request. If a
poll has nothing to yield then nothing is left to read. The watch never ends: unless it is dropped,
each poll of it answers an item or that there is none yet. -/
theorem watch_merges_without_repeats (setup : Setup (Store (Key P A) V))
    (source : Source P V E) (before after : List (Step P A V)) (id : String) (params : P)
    (retries : Nat) (hopen : ((create (Cache.create setup source)).run before).2.closed = false)
    (hbegins : ∀ st ∈ after, ¬ st.begins id) :
    let begun := (((create (Cache.create setup source)).run before).2.step
      (.begin id (.watch params retries))).2
    let record := runObserved id begun after
    record.1 = (begun.run after).2 ∧ eventsSeen record.2 = eventsOf (begun.run after).1 ∧
      (∃ read unread taken outcome,
        Peruses (ringLength setup.broadcastCapacity) (ticksOf record.2) read unread ∧
        (read ++ unread).Sublist (updates (eventsSeen record.2)) ∧
        ((∀ event ∈ ownSeen record.2, event.lags = false) →
          read ++ unread = updates (eventsSeen record.2)) ∧
        (∃ inquiry received, Tries (Key.ofParams params) retries inquiry received
          (efforts (ticksOf record.2)) outcome) ∧
        Side.updates.items taken = (read.filter (·.1 = params)).map (fun m => .ok m.2.value) ∧
        Side.request.items taken = outcome.toList.map (·.map (·.value)) ∧
        yielded record.2 = (unrepeated none (taken.map (·.2))).map Item.ofValue ∧
        (∀ earlier value later, taken.map (·.2) = earlier ++ .ok value :: later →
          (valuesOf (unrepeated none earlier)).getLast? = some value ∨
            unrepeated none earlier ++ [.ok value] <+: unrepeated none (taken.map (·.2))) ∧
        (∀ value, .value value ∈ yielded record.2 →
          (∃ m ∈ read, m.1 = params ∧ m.2.value = value) ∨
            ∃ delivery, outcome = some (.ok delivery) ∧ delivery.value = value) ∧
        ∀ earlier events, record.2 = earlier ++ [.polled events (.answer .pending)] →
          unread = []) ∧
      ((yielded record.2).filterMap Item.value?).IsChain (· ≠ ·) ∧
      ((yielded record.2).filterMap Item.failure?).length ≤ 1 ∧
      ∀ events answer, .polled events answer ∈ record.2 →
        answer.isLively = true ∨ .drop id ∈ after ∨ .close ∈ after := by
  intro begun record
  obtain ⟨hsame, hevents, hkeeps⟩ :=
    keeps_run setup source before after id params retries hopen hbegins
  obtain ⟨d, hshown, hholds, -⟩ := hkeeps.diary
  have hticks : (ticksOf record.2).map (·.2) = eventsSeen record.2 := map_ticksOf _
  refine ⟨hsame, hevents, ⟨d.read, d.unread, d.taken, d.outcome, hholds.peruses, ?_, ?_, ?_,
    hholds.fromUpdates, hholds.fromRequest, hshown.yields, ?_, ?_,
    fun earlier events hlog => (hshown.idle earlier events hlog).1⟩, ?_, ?_, hkeeps.lively⟩
  · rw [← hticks]
    exact hholds.peruses.sublist
  · intro hlags
    rw [← hticks]
    exact hholds.peruses.complete (lags_ticksOf hlags)
  · obtain ⟨inquiry, htries⟩ := hholds.tries
    exact ⟨inquiry, d.received, htries⟩
  · intro earlier value later htaken
    rw [htaken, shows_or_repeats]
    -- A value that is taken is shown, unless it is the last one that was shown.
    by_cases hlast : (valuesOf (unrepeated none earlier)).getLast? = some value
    · exact .inl hlast
    · refine .inr ⟨unrepeated (some value) later, ?_⟩
      rw [if_neg hlast, List.append_assoc]
      rfl
  · intro value hvalue
    rw [hshown.yields] at hvalue
    obtain ⟨item, hitem, hof⟩ := List.mem_map.mp hvalue
    rcases item with failure | shown
    · cases hof
    · cases hof
      exact hholds.source_of_value ((unrepeated_sublist none _).subset hitem)
  · rw [hshown.yields, values_ofValue, valuesOf_unrepeated]
    exact List.isChain_destutter _ _
  · rw [hholds.failures hshown]
    cases d.outcome with
    | none => exact Nat.zero_le 1
    | some result => cases result <;> simp [failuresOf]

/-- A source whose first call fails. Its values stay the same for three calls. -/
def steppingSource : Source Nat Nat Nat := fun number _ =>
  .replies
    { wait := {}, took := none, ending := if number = 1 then .error 9 else .value (number / 3) }

/-- The request of the watch fails. Then seven results are published, one of them for other
parameters. -/
def flood : List (Step Nat Unit Nat) :=
  [.poll "w", .poll "w"] ++ List.replicate 4 (.run (.fetch 7 .never {})) ++
    [.run (.fetch 8 .never {}), .run (.fetch 7 .never {}), .run (.fetch 7 .never {}), .drain "w"]

/-- The ring has room for four of the seven results. Of the four values the last repeats the one
before, and another one is for other parameters. -/
theorem watch_merges_without_repeats_flood :
    let start := ((create (Cache.create numberingSetup steppingSource)).run []).2
    let record := runObserved "w" (start.step (.begin "w" (.watch 7 0))).2 flood
    start.closed = false ∧ (∀ st ∈ flood, ¬ st.begins "w") ∧
      (updates (eventsSeen record.2)).map (fun m => (m.1, m.2.value)) =
        [(7, 0), (7, 1), (7, 1), (7, 1), (8, 2), (7, 2), (7, 2)] ∧
      skips record.2 = [3] ∧
      (yielded record.2).filterMap Item.value? = [1, 2] ∧
      (yielded record.2).filterMap Item.failure? = [.source 9] ∧
      ∃ read unread taken, Peruses 4 (ticksOf record.2) read unread ∧
        Side.updates.items taken = (read.filter (·.1 = 7)).map (fun m => .ok m.2.value) ∧
        yielded record.2 = (unrepeated none (taken.map (·.2))).map Item.ofValue := by
  intro start record
  have hbegins : ∀ st ∈ flood, ¬ st.begins "w" := by decide
  have hupdates : (updates (eventsSeen record.2)).map (fun m => (m.1, m.2.value)) =
      [(7, 0), (7, 1), (7, 1), (7, 1), (8, 2), (7, 2), (7, 2)] := by decide +kernel
  have hskips : skips record.2 = [3] := by decide +kernel
  have hvalues : (yielded record.2).filterMap Item.value? = [1, 2] := by decide +kernel
  have hfailures : (yielded record.2).filterMap Item.failure? = [.source 9] := by decide +kernel
  obtain ⟨-, -, ⟨read, unread, taken, outcome, hperuses, -, -, -, htaken, -, hyielded, -⟩, -⟩ :=
    watch_merges_without_repeats numberingSetup steppingSource [] flood "w" 7 0 rfl hbegins
  exact ⟨rfl, hbegins, hupdates, hskips, hvalues, hfailures, read, unread, taken, hperuses, htaken,
    hyielded⟩

end Session

end ReadThrough
