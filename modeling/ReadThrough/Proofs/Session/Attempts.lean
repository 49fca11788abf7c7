import ReadThrough.Proofs.Session.Publications
/-!
# Proofs: the loads of the request of a watch

The request of a watch makes its loads one after another: the next one begins when the one before
has failed, as long as tries remain (`Tries`). Each of them receives the outcome of another
execution (`Inquiry.Spends`): an execution that has ended is off the registry before anybody
receives its outcome, so that the next load comes to one that is still running.
-/

namespace ReadThrough

variable {P A V E : Type}

/-! ## The course of the loads -/

/-- Loads that have failed one after another, by the executions whose outcomes they received, with
their events. After each of them the next try is noted. -/
inductive Fails (retries : Nat) : List Nat → List (Event P A V E) → Prop where
  | none : Fails retries [] []
  | again {received : List Nat} {failures ls : List (Event P A V E)} {e : Nat} {notice : Notice}
      {failure : Failure E} (hfails : Fails retries received failures)
      (hentered : notice.entered? = some e) (hloading : ∀ event ∈ ls, event.isLoading = true)
      (hmore : received.length < retries) :
      Fails retries (received ++ [e]) (failures ++ (.registry notice :: ls ++
        [.received (some e) (.error failure), .retried (received.length + 1) retries]))

/-- How far a request is, by its events so far, the executions whose outcomes it has received, and
the result that it has come to. -/
inductive Tries (key : Key P A) (retries : Nat) :
    Inquiry P A V E → List Nat → List (Event P A V E) → Option (Result V E) → Prop where
  | unasked : Tries key retries (.loading retries (.unstarted key true)) [] [] none
  /-- A load is under way, after those that have failed. -/
  | trying {received : List Nat} {failures ls : List (Event P A V E)} {e remaining : Nat}
      {notice : Notice} (hfails : Fails retries received failures)
      (hcount : received.length + remaining = retries) (hentered : notice.entered? = some e)
      (hloading : ∀ event ∈ ls, event.isLoading = true) :
      Tries key retries (.loading remaining (.attached e)) received
        (failures ++ .registry notice :: ls) none
  /-- The last load has ended, well or as the last one that was allowed. -/
  | answered {received : List Nat} {failures ls : List (Event P A V E)} {e : Nat} {notice : Notice}
      {result : Result V E} (hfails : Fails retries received failures)
      (hentered : notice.entered? = some e) (hloading : ∀ event ∈ ls, event.isLoading = true)
      (hwithin : received.length ≤ retries)
      (hlast : ∀ failure, result = .error failure → received.length = retries) :
      Tries key retries .answered (received ++ [e])
        (failures ++ (.registry notice :: ls ++ [.received (some e) result])) (some result)

/-! ## What can be read off the events -/

/-- The execution that a load comes to through the registry. -/
def Event.entered? : Event P A V E → Option Nat
  | .registry notice => notice.entered?
  | _ => none

/-- The execution whose outcome is received. -/
def Event.source? : Event P A V E → Option Nat
  | .received execution _ => execution
  | _ => none

/-- The number of a try after the first, and how many there may be. -/
def Event.retry? : Event P A V E → Option (Nat × Nat)
  | .retried attempt retries => some (attempt, retries)
  | _ => none

section Events

variable {event : Event P A V E} {events ls : List (Event P A V E)} {retries e : Nat}
  {received : List Nat} {notice : Notice}

/-- An event of loading enters no execution. -/
theorem Event.entered?_of_isLoading (h : event.isLoading = true) : event.entered? = none := by
  cases event with
  | registry notice =>
    cases notice with
    | started | attached => cases h
    | removed => rfl
  | _ => rfl

/-- An event of loading receives nothing. -/
theorem Event.source?_of_isLoading (h : event.isLoading = true) : event.source? = none := by
  cases event with
  | received => cases h
  | _ => rfl

/-- An event of loading is no retry. -/
theorem Event.retry?_of_isLoading (h : event.isLoading = true) : event.retry? = none := by
  cases event with
  | retried => cases h
  | _ => rfl

/-- The events of a load that it makes before it ends, as they can be read in three ways. -/
theorem filterMap_load (hentered : notice.entered? = some e)
    (hloading : ∀ event ∈ ls, event.isLoading = true) :
    (.registry notice :: ls).filterMap Event.entered? = [e] ∧
      (.registry notice :: ls : List (Event P A V E)).filterMap Event.source? = [] ∧
      (.registry notice :: ls : List (Event P A V E)).filterMap Event.retry? = [] := by
  have hnone : ∀ {T : Type} {f : Event P A V E → Option T},
      (∀ {event}, event.isLoading = true → f event = none) → ls.filterMap f = [] :=
    fun hf => List.filterMap_eq_nil_iff.mpr fun event hevent => hf (hloading event hevent)
  refine ⟨?_, ?_, ?_⟩
  · have hfirst : (.registry notice : Event P A V E).entered? = some e := hentered
    rw [List.filterMap_cons_some hfirst, hnone Event.entered?_of_isLoading]
  · rw [List.filterMap_cons_none rfl, hnone Event.source?_of_isLoading]
  · rw [List.filterMap_cons_none rfl, hnone Event.retry?_of_isLoading]

/-- There are at most as many failures before the last load as there are retries. -/
theorem Fails.length_le (h : Fails retries received events) : received.length ≤ retries := by
  cases h with
  | none => exact Nat.zero_le _
  | again hfails hentered hloading hmore =>
    rw [List.length_append]
    exact hmore

/-- The loads that have failed have come to the executions whose outcomes they received, and each
of them was followed by a try. -/
theorem Fails.reads (h : Fails retries received events) :
    events.filterMap Event.entered? = received ∧ events.filterMap Event.source? = received ∧
      events.filterMap Event.retry? = (List.range received.length).map fun n =>
        (n + 1, retries) := by
  induction h with
  | none => exact ⟨rfl, rfl, rfl⟩
  | @again received failures ls e notice failure hfails hentered hloading hmore ih =>
    obtain ⟨hcame, hsource, hretry⟩ := ih
    obtain ⟨hcame', hsource', hretry'⟩ := filterMap_load (P := P) (A := A) (V := V) (E := E)
      hentered hloading
    refine ⟨?_, ?_, ?_⟩
    · rw [List.filterMap_append, List.filterMap_append, hcame, hcame']
      rfl
    · rw [List.filterMap_append, List.filterMap_append, hsource, hsource']
      rfl
    · rw [List.filterMap_append, List.filterMap_append, hretry, hretry', List.length_append,
        List.length_singleton, List.range_succ, List.map_append]
      rfl

end Events

namespace Tries

variable {key : Key P A} {retries : Nat} {inquiry : Inquiry P A V E} {received : List Nat}
  {events : List (Event P A V E)} {result : Option (Result V E)}

/-- The loads of a request: the executions that they have come to, those whose outcomes they have
received, and the tries after the first. All but the last have received an outcome, and the last one
as well if there is a result. -/
theorem reads (h : Tries key retries inquiry received events result) :
    events.filterMap Event.source? = received ∧
      (∃ last : Option Nat, events.filterMap Event.entered? = received ++ last.toList ∧
        (last = none → events ≠ [] → result.isSome = true) ∧
        (events.filterMap Event.entered?).length ≤ retries + 1) ∧
      ∃ tries ≤ retries, events.filterMap Event.retry? =
        (List.range tries).map fun n => (n + 1, retries) := by
  cases h with
  | unasked =>
    exact ⟨rfl, ⟨none, rfl, fun _ h => absurd rfl h, Nat.zero_le _⟩, 0, Nat.zero_le _, rfl⟩
  | @trying _ failures ls e remaining notice hfails hcount hentered hloading =>
    obtain ⟨hcame, hsource, hretry⟩ := hfails.reads
    obtain ⟨hcame', hsource', hretry'⟩ := filterMap_load (P := P) (A := A) (V := V) (E := E)
      hentered hloading
    refine ⟨?_, ⟨some e, ?_, nofun, ?_⟩, received.length, hfails.length_le, ?_⟩
    · rw [List.filterMap_append, hsource, hsource', List.append_nil]
    · rw [List.filterMap_append, hcame, hcame', Option.toList_some]
    · rw [List.filterMap_append, hcame, hcame', List.length_append]
      exact Nat.succ_le_succ hfails.length_le
    · rw [List.filterMap_append, hretry, hretry', List.append_nil]
  | @answered received failures ls e notice result hfails hentered hloading hwithin hlast =>
    obtain ⟨hcame, hsource, hretry⟩ := hfails.reads
    obtain ⟨hcame', hsource', hretry'⟩ := filterMap_load (P := P) (A := A) (V := V) (E := E)
      hentered hloading
    have hentries : List.filterMap Event.entered?
        (failures ++ (.registry notice :: ls ++ [.received (some e) result])) =
          received ++ [e] := by
      rw [List.filterMap_append, List.filterMap_append, hcame, hcame']
      rfl
    refine ⟨?_, ⟨none, ?_, fun _ _ => rfl, ?_⟩, received.length, hwithin, ?_⟩
    · rw [List.filterMap_append, List.filterMap_append, hsource, hsource']
      rfl
    · rw [hentries, Option.toList_none, List.append_nil]
    · rw [hentries, List.length_append]
      exact Nat.succ_le_succ hwithin
    · rw [List.filterMap_append, List.filterMap_append, hretry, hretry']
      exact List.append_nil _

/-- A request that has failed has made all its loads. -/
theorem length_of_failed {failure : Failure E}
    (h : Tries key retries inquiry received events (some (.error failure))) :
    received.length = retries + 1 := by
  cases h with
  | answered hfails hentered hloading hwithin hlast =>
    rw [List.length_append, hlast failure rfl]
    rfl

end Tries

/-! ## Executions that have ended -/

section Settled

variable [DecidableEq P] [DecidableEq A] {w w' : World P A V E} {e : Nat}
  {outcome : Outcome (Result V E)}

/-- An execution that has ended stays so. -/
theorem Move.settled (hmove : Move w w')
    (h : w.cache.flights.stage? e = some (.settled outcome)) :
    w'.cache.flights.stage? e = some (.settled outcome) := by
  cases hmove with
  | @acts c c' loads hacts =>
    show c'.flights.stage? e = _
    rw [hacts.flights_eq]
    exact h
  | enters key => exact (Flights.settledAlike_enter _ key _ e outcome).mpr h
  | @pollsAttached c loads e' =>
    show (Load.pollAttached e' c).2.flights.stage? e = _
    rw [Load.flights_pollAttached]
    rcases Flights.poll_cases (Work.pollAs (some e')) c.flights e' c.env with ⟨-, hidle⟩ | hpolls
    · rw [hidle]
      exact h
    · rcases hpoll : c.flights.poll (Work.pollAs (some e')) e' c.env with ⟨answer, f', env', ns⟩
      rw [hpoll] at hpolls
      by_cases he : e = e'
      · subst he
        obtain ⟨stage, stage', hstage, hstage', hadvances⟩ := hpolls.advances
        obtain rfl : stage = .settled outcome := Option.some.inj (hstage.symm.trans h)
        cases hadvances with
        | receives => exact hstage'
      · exact (hpolls.stage?_of_ne he).trans h
  | @pollsAlone c loads work =>
    show (Load.pollAlone work c).2.flights.stage? e = _
    rw [Load.flights_pollAlone]
    exact h
  | @drops c loads load =>
    cases load with
    | unstarted key share => exact h
    | alone work => exact h
    | attached e' =>
      show (Load.drop (.attached e') c).flights.stage? e = _
      rw [Load.flights_drop_attached]
      exact (Flights.settledAlike_leave _ e' e outcome).mpr h
  | closes => exact h
  | begins | detours => exact h

/-- An execution that has settled keeps its outcome. -/
theorem Moves.settled (hmoves : Moves w w')
    (h : w.cache.flights.stage? e = some (.settled outcome)) :
    w'.cache.flights.stage? e = some (.settled outcome) := by
  induction hmoves with
  | refl => exact h
  | tail _ hlast ih => exact hlast.settled ih

/-- Whoever waits for an execution after a poll waits for one that runs, and whoever receives its
outcome does so after its end. -/
theorem Load.stage?_pollAttached {c : Cache P A V E} {loads : Multiset (Load P A V E)}
    (hattended : Attended ⟨c, .attached e ::ₘ loads⟩) :
    match (pollAttached e c).1 with
    | .waiting _ => ∃ work, (pollAttached e c).2.flights.stage? e = some (.running work)
    | .finished _ =>
      ∃ outcome, (pollAttached e c).2.flights.stage? e = some (.settled outcome) := by
  have hpolls := Flights.polls_of_waiting (Work.pollAs (some e)) hattended.tracked
    (waitingAmong_attached_pos loads e) c.env
  unfold pollAttached
  rcases hpoll : c.flights.poll (Work.pollAs (some e)) e c.env with ⟨answer, f', env', ns⟩
  rw [hpoll] at hpolls
  obtain ⟨stage, stage', -, hstage', hadvances⟩ := hpolls.advances
  cases hadvances with
  | receives => exact ⟨_, hstage'⟩
  | @works work progress _ hwork =>
    cases progress with
    | waiting rest => exact ⟨rest, hstage'⟩
    | finished outcome => exact ⟨outcome, hstage'⟩

end Settled

/-! ## Polls -/

/-- The outcomes of these executions have been received, each once, and the request waits for none
of them. -/
structure Inquiry.Spends (inquiry : Inquiry P A V E) (received : List Nat)
    (f : Flights (Key P A) (Work P A V E) (Result V E)) : Prop where
  nodup : received.Nodup
  settled : ∀ e ∈ received, ∃ outcome, f.stage? e = some (.settled outcome)
  other : ∀ remaining e, inquiry = .loading remaining (.attached e) → e ∉ received

/-- A request that has not come to a result waits for an execution that runs. -/
def Inquiry.Waits (inquiry : Inquiry P A V E) (f : Flights (Key P A) (Work P A V E) (Result V E)) :
    Prop :=
  ∀ remaining load, inquiry = .loading remaining load →
    ∃ e work, load = .attached e ∧ f.stage? e = some (.running work)

/-- What is left of a request after its loads were polled. -/
def Inquiry.ofProgress : Progress (Nat × Load P A V E) (Result V E) → Inquiry P A V E
  | .waiting (remaining, load) => .loading remaining load
  | .finished _ => .answered

section Spent

variable {key : Key P A} {retries : Nat} {inquiry : Inquiry P A V E} {received : List Nat}
  {events : List (Event P A V E)} {result : Option (Result V E)}
  {f : Flights (Key P A) (Work P A V E) (Result V E)}

/-- No load comes to an execution that another one has come to. -/
theorem Tries.nodup_entered (h : Tries key retries inquiry received events result)
    (hspends : inquiry.Spends received f) : (events.filterMap Event.entered?).Nodup := by
  cases h with
  | unasked => exact List.nodup_nil
  | @trying _ failures ls e remaining notice hfails hcount hentered hloading =>
    have hnew : e ∉ received := hspends.other remaining e rfl
    have hload := (filterMap_load (P := P) (A := A) (V := V) (E := E) hentered hloading).1
    rw [List.filterMap_append, hfails.reads.1, hload]
    refine List.nodup_append.mpr ⟨hspends.nodup, List.nodup_singleton e, fun a ha b hb => ?_⟩
    rw [List.mem_singleton.mp hb]
    exact fun heq => hnew (heq ▸ ha)
  | @answered received failures ls e notice result hfails hentered hloading hwithin hlast =>
    have hload := (filterMap_load (P := P) (A := A) (V := V) (E := E) hentered hloading).1
    rw [List.filterMap_append, List.filterMap_append, hfails.reads.1, hload]
    exact hspends.nodup

/-- A request without a result that waits has come to an execution that runs, after those whose
outcomes it has received. -/
theorem Tries.entered_of_waits (h : Tries key retries inquiry received events none)
    (hwaits : inquiry.Waits f) : ∃ e work,
      events.filterMap Event.entered? = received ++ [e] ∧ f.stage? e = some (.running work) := by
  cases h with
  | unasked =>
    obtain ⟨e, work, hload, -⟩ := hwaits _ _ rfl
    cases hload
  | @trying _ failures ls e remaining notice hfails hcount hentered hloading =>
    obtain ⟨e', work, hload, hrunning⟩ := hwaits _ _ rfl
    cases hload
    have hentries := (filterMap_load (P := P) (A := A) (V := V) (E := E) hentered hloading).1
    refine ⟨e, work, ?_, hrunning⟩
    rw [List.filterMap_append, hfails.reads.1, hentries]

end Spent

section Polls

variable [DecidableEq P] [DecidableEq A] {c c' : Cache P A V E} {loads : Multiset (Load P A V E)}
  {key : Key P A} {retries remaining e : Nat} {received : List Nat} {inquiry : Inquiry P A V E}
  {failures ls : List (Event P A V E)} {notice : Notice}

omit [DecidableEq P] [DecidableEq A] in
/-- Others go on meanwhile. -/
theorem Inquiry.Spends.kept {f f' : Flights (Key P A) (Work P A V E) (Result V E)}
    (h : inquiry.Spends received f)
    (hsettled : ∀ e outcome, f.stage? e = some (.settled outcome) →
      f'.stage? e = some (.settled outcome)) : inquiry.Spends received f' := by
  refine ⟨h.nodup, fun e he => ?_, h.other⟩
  obtain ⟨outcome, hstage⟩ := h.settled e he
  exact ⟨outcome, hsettled e outcome hstage⟩

/-- A load waits for an execution, and is polled. -/
theorem Inquiry.Spends.polled (h : inquiry.Spends received c.flights) (e : Nat) :
    inquiry.Spends received (Load.pollAttached e c).2.flights := by
  have hmove : Move ⟨c, .attached e ::ₘ 0⟩
      ⟨(Load.pollAttached e c).2, held (Load.pollAttached e c).1.rest? 0⟩ := .pollsAttached e
  exact h.kept fun _ _ => hmove.settled

omit [DecidableEq P] [DecidableEq A] in
/-- The outcome of one more execution is received. -/
theorem Inquiry.Spends.receives {f : Flights (Key P A) (Work P A V E) (Result V E)}
    {inquiry' : Inquiry P A V E} (h : inquiry.Spends received f) (hnew : e ∉ received)
    (hsettled : ∃ outcome, f.stage? e = some (.settled outcome))
    (hother : ∀ remaining e', inquiry' = .loading remaining (.attached e') →
      e' ∉ received ++ [e]) : inquiry'.Spends (received ++ [e]) f := by
  refine ⟨?_, fun e' he' => ?_, hother⟩
  · rw [List.nodup_append]
    exact ⟨h.nodup, List.nodup_singleton e, fun a ha b hb => by
      rw [List.mem_singleton.mp hb]
      exact fun heq => hnew (heq ▸ ha)⟩
  · rcases List.mem_append.mp he' with he' | he'
    · exact h.settled e' he'
    · rw [List.mem_singleton.mp he']
      exact hsettled

namespace Load

/-- The cache when a load that may share has come to an execution, which is the first thing that its
first poll does. -/
def entering (key : Key P A) (c : Cache P A V E) : Cache P A V E :=
  ⟨c.env.noteRegistry [(c.flights.enter key (.fresh key)).2.2],
    (c.flights.enter key (.fresh key)).2.1⟩

/-- A load that begins enters an execution and polls it as one that is attached. -/
theorem pollRetrying_unstarted (key : Key P A) (retries remaining : Nat) (c : Cache P A V E) :
    pollRetrying key retries remaining (.unstarted key true) c =
      pollRetrying key retries remaining (.attached (c.flights.enter key (.fresh key)).1)
        (entering key c) := by
  have hpoll : (unstarted key true).poll c =
      (attached (c.flights.enter key (.fresh key)).1).poll (entering key c) := rfl
  cases remaining with
  | zero => rw [pollRetrying, pollRetrying, hpoll]
  | succ remaining => rw [pollRetrying, pollRetrying, hpoll]

/-- The execution that a load comes to is none of those that have ended. -/
theorem enter_not_mem (hattended : Attended ⟨c, loads⟩) (key : Key P A)
    (hsettled : ∀ e ∈ received, ∃ outcome, c.flights.stage? e = some (.settled outcome)) :
    (c.flights.enter key (.fresh key)).1 ∉ received := by
  intro hmem
  obtain ⟨outcome, hstage⟩ := hsettled _ hmem
  have hafter := (Flights.settledAlike_enter c.flights key (.fresh key) _ outcome).mpr hstage
  obtain ⟨x, work, hx, -, hrunning⟩ := running_enter hattended key
  rw [Flights.stage?_of_getElem? hx, hrunning] at hafter
  cases hafter

/-- A load that waits for an execution goes on waiting as long as it runs, or receives its outcome.
-/
theorem pollAttached_cases (hattended : Attended ⟨c, .attached e ::ₘ loads⟩) :
    ∃ told, (∀ event ∈ told, event.isLoading = true) ∧
      ((∃ c' work, pollAttached e c = (.waiting (.attached e), c') ∧
          c'.env.trace = c.env.trace ++ told ∧ c'.flights.stage? e = some (.running work)) ∨
        ∃ result c' outcome, pollAttached e c = (.finished result, c') ∧
          c'.env.trace = c.env.trace ++ (told ++ [.received (some e) result]) ∧
          c'.flights.stage? e = some (.settled outcome)) := by
  obtain ⟨told, htold, hadds⟩ := adds_pollAttached e c
  have hstage := stage?_pollAttached hattended
  refine ⟨told, htold, ?_⟩
  rcases hpoll : pollAttached e c with ⟨load | result, c'⟩ <;> rw [hpoll] at hadds hstage
  · obtain ⟨work, hrunning⟩ := hstage
    cases hadds with
    | waits hkept htrace => exact .inl ⟨c', work, by rw [hkept], htrace, hrunning⟩
  · obtain ⟨outcome, hsettled⟩ := hstage
    cases hadds with
    | ends htrace => exact .inr ⟨result, c', outcome, rfl, htrace, hsettled⟩

/-- What comes of a request with the events `before` when its loads are polled. -/
def Attempts (key : Key P A) (retries : Nat) (before : List (Event P A V E)) (c : Cache P A V E)
    (polled : Progress (Nat × Load P A V E) (Result V E) × Cache P A V E) : Prop :=
  ∃ events received, polled.2.env.trace = c.env.trace ++ events ∧
    Tries key retries (.ofProgress polled.1) received (before ++ events) polled.1.result? ∧
    (Inquiry.ofProgress polled.1).Spends received polled.2.flights ∧
    (Inquiry.ofProgress polled.1).Waits polled.2.flights

omit [DecidableEq P] [DecidableEq A] in
/-- Something is told before the loads are polled. -/
theorem Attempts.after {told before : List (Event P A V E)}
    {polled : Progress (Nat × Load P A V E) (Result V E) × Cache P A V E}
    (h : Attempts key retries (before ++ told) c' polled)
    (htrace : c'.env.trace = c.env.trace ++ told) : Attempts key retries before c polled := by
  obtain ⟨events, received, htrace', htries, hspends, hwaits⟩ := h
  rw [List.append_assoc] at htries
  refine ⟨told ++ events, received, ?_, htries, hspends, hwaits⟩
  rw [htrace', htrace, List.append_assoc]

omit [DecidableEq P] [DecidableEq A] in
/-- A load is under way. -/
theorem attempts_waiting {told : List (Event P A V E)} {work : Work P A V E}
    (hfails : Fails retries received failures)
    (hcount : received.length + remaining = retries) (hentered : notice.entered? = some e)
    (hloading : ∀ event ∈ ls ++ told, event.isLoading = true)
    (hspends : (Inquiry.loading remaining (.attached e)).Spends received c'.flights)
    (hrunning : c'.flights.stage? e = some (.running work))
    (htrace : c'.env.trace = c.env.trace ++ told) :
    Attempts key retries (failures ++ .registry notice :: ls) c
      (.waiting (remaining, .attached e), c') := by
  have htries : Tries key retries (.loading remaining (.attached e)) received _ none :=
    .trying hfails hcount hentered hloading
  refine ⟨told, received, htrace, ?_, hspends, fun remaining' load heq => ?_⟩
  · rwa [List.append_assoc]
  · cases heq
    exact ⟨e, work, rfl, hrunning⟩

omit [DecidableEq P] [DecidableEq A] in
/-- The last load has ended. -/
theorem attempts_finished {told : List (Event P A V E)} {result : Result V E}
    (hfails : Fails retries received failures) (hentered : notice.entered? = some e)
    (hloading : ∀ event ∈ ls ++ told, event.isLoading = true)
    (hlast : ∀ failure, result = .error failure → received.length = retries)
    (hspends : Inquiry.answered.Spends (received ++ [e]) c'.flights)
    (htrace : c'.env.trace = c.env.trace ++ (told ++ [.received (some e) result])) :
    Attempts key retries (failures ++ .registry notice :: ls) c (.finished result, c') := by
  have hanswered : Tries key retries .answered (received ++ [e]) _ (some result) :=
    .answered hfails hentered hloading hfails.length_le hlast
  refine ⟨_, received ++ [e], htrace, ?_, hspends, nofun⟩
  rw [List.append_assoc]
  show Tries key retries .answered (received ++ [e])
    (failures ++ .registry notice :: (ls ++ (told ++ [.received (some e) result]))) (some result)
  rw [← List.append_assoc ls]
  exact hanswered

/-- When a load has failed, the next one comes to an execution that still runs, and so to none of
those that have been spent. -/
theorem retry_spends (key : Key P A) {remark : Event P A V E} (hremark : remark.isRemark = true)
    (hattended : Attended ⟨c, .attached e ::ₘ loads⟩) (hnew : e ∉ received)
    (hends : pollAttached e c = (.finished result, c'))
    (hsettled : ∃ outcome, c'.flights.stage? e = some (.settled outcome))
    (hspends : (Inquiry.loading (remaining + 1) (.attached e)).Spends received c.flights) :
    let next := ((c'.note remark).flights.enter key (.fresh key)).1
    Attended ⟨entering key (c'.note remark), .attached next ::ₘ loads⟩ ∧
      (Inquiry.loading remaining (.attached next)).Spends (received ++ [e])
        (entering key (c'.note remark)).flights := by
  intro next
  have hkept := hspends.polled e
  have hmoves : Moves ⟨c, .attached e ::ₘ loads⟩
      ⟨(pollAttached e c).2, held (pollAttached e c).1.rest? loads⟩ := .single (.pollsAttached e)
  rw [hends] at hkept hmoves
  have hnoted : Moves ⟨c', loads⟩ ⟨c'.note remark, loads⟩ := .note hremark
  have hbegins := hnoted.tail (.begins key true)
  refine ⟨hattended.moves ((hmoves.trans hbegins).tail (.enters key)), ?_⟩
  have hspent : Inquiry.answered.Spends (received ++ [e]) (c'.note remark).flights :=
    hkept.receives hnew hsettled fun _ _ h => by cases h
  have hother := enter_not_mem (hattended.moves (hmoves.trans hnoted)) key hspent.settled
  refine Inquiry.Spends.kept ?_ fun e' outcome =>
    (Flights.settledAlike_enter (c'.note remark).flights key (.fresh key) e' outcome).mpr
  refine hkept.receives hnew hsettled fun remaining' e' heq => ?_
  cases heq
  exact hother

/-- The loads of a request are polled, of which the first waits for an execution. -/
theorem attempts_attached (hattended : Attended ⟨c, .attached e ::ₘ loads⟩)
    (hfails : Fails retries received failures) (hcount : received.length + remaining = retries)
    (hentered : notice.entered? = some e) (hloading : ∀ event ∈ ls, event.isLoading = true)
    (hspends : (Inquiry.loading remaining (.attached e)).Spends received c.flights) :
    Attempts key retries (failures ++ .registry notice :: ls) c
      (pollRetrying key retries remaining (.attached e) c) := by
  have hpoll : (attached e).poll c = pollAttached e c := rfl
  have hnew : e ∉ received := hspends.other remaining e rfl
  -- By induction on the tries that are left: a failure spends the execution and one of them.
  induction remaining generalizing c e received failures ls notice with
  | zero =>
    obtain ⟨told, htold, hcases⟩ := pollAttached_cases hattended
    have hall := List.forall_mem_append.mpr ⟨hloading, htold⟩
    have hkept := hspends.polled e
    rcases hcases with ⟨c', work, hwaits, htrace, hrunning⟩ |
      ⟨result, c', outcome, hends, htrace, hsettled⟩
    · rw [hwaits] at hkept
      rw [pollRetrying, hpoll, hwaits]
      exact attempts_waiting hfails hcount hentered hall hkept hrunning htrace
    · rw [hends] at hkept
      have hspent : Inquiry.answered.Spends (received ++ [e]) c'.flights :=
        hkept.receives hnew ⟨outcome, hsettled⟩ fun _ _ h => by cases h
      have hfinished : Attempts key retries _ c (.finished result, c') :=
        attempts_finished hfails hentered hall (fun _ _ => hcount) hspent htrace
      rw [pollRetrying, hpoll, hends]
      rcases result with failure | delivery <;> exact hfinished
  | succ remaining ih =>
    obtain ⟨told, htold, hcases⟩ := pollAttached_cases hattended
    have hall := List.forall_mem_append.mpr ⟨hloading, htold⟩
    have hkept := hspends.polled e
    rcases hcases with ⟨c', work, hwaits, htrace, hrunning⟩ |
      ⟨failure | delivery, c', outcome, hends, htrace, hsettled⟩
    · rw [hwaits] at hkept
      rw [pollRetrying, hpoll, hwaits]
      exact attempts_waiting hfails hcount hentered hall hkept hrunning htrace
    · let retried : Event P A V E := .retried (received.length + 1) retries
      let noted : Cache P A V E := c'.note retried
      obtain ⟨hentering, hspent⟩ :=
        retry_spends key (rfl : retried.isRemark = true) hattended hnew hends ⟨outcome, hsettled⟩
          hspends
      have hmore : received.length < retries := by omega
      have hagain : Fails retries (received ++ [e]) (failures ++
          (.registry notice :: (ls ++ told) ++ [.received (some e) (.error failure), retried])) :=
        hfails.again hentered hall hmore
      have hcount' : (received ++ [e]).length + remaining = retries := by
        rw [List.length_append, List.length_singleton]
        omega
      have hnext := ih hentering hagain hcount' (noted.flights.entered?_enter key (.fresh key))
        (List.forall_mem_nil _) hspent rfl (hspent.other remaining _ rfl)
      have htold' : (entering key noted).env.trace = c.env.trace ++ (told ++
          [.received (some e) (.error failure), retried,
            .registry (noted.flights.enter key (.fresh key)).2.2]) := by
        show c'.env.trace ++ [_] ++ [_] = _
        rw [htrace]
        simp [List.append_assoc]
      have hattempt : retries - remaining = received.length + 1 := by omega
      rw [pollRetrying, hpoll, hends]
      simp only
      rw [hattempt, pollRetrying_unstarted]
      refine Attempts.after ?_ htold'
      simpa [List.append_assoc] using hnext
    · rw [hends] at hkept
      rw [pollRetrying, hpoll, hends]
      have hspent : Inquiry.answered.Spends (received ++ [e]) c'.flights :=
        hkept.receives hnew ⟨outcome, hsettled⟩ fun _ _ h => by cases h
      exact attempts_finished hfails hentered hall (fun _ h => by cases h) hspent htrace

/-- A request is polled that has not come to a result. -/
theorem attempts_pollRetrying {load : Load P A V E} {events : List (Event P A V E)}
    (hattended : Attended ⟨c, load ::ₘ loads⟩)
    (htries : Tries key retries (.loading remaining load) received events none)
    (hspends : (Inquiry.loading remaining load).Spends received c.flights) :
    Attempts key retries events c (pollRetrying key retries remaining load c) := by
  cases htries with
  | trying hfails hcount hentered hloading =>
    exact attempts_attached hattended hfails hcount hentered hloading hspends
  | unasked =>
    -- The first load comes to an execution.
    let e := (c.flights.enter key (.fresh key)).1
    have hentering : Attended ⟨entering key c, .attached e ::ₘ loads⟩ :=
      hattended.moves (.single (.enters key))
    have hspent : (Inquiry.loading retries (.attached e) : Inquiry P A V E).Spends []
        (entering key c).flights :=
      ⟨List.nodup_nil, List.forall_mem_nil _, fun _ _ _ => List.not_mem_nil⟩
    have hattached : Attempts key retries
        [.registry (c.flights.enter key (.fresh key)).2.2] (entering key c) _ :=
      attempts_attached hentering .none (Nat.zero_add _)
        (c.flights.entered?_enter key (.fresh key)) (List.forall_mem_nil _) hspent
    rw [pollRetrying_unstarted]
    exact hattached.after rfl

end Load

end Polls

end ReadThrough
