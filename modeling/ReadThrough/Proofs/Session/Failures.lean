import ReadThrough.Builder
import ReadThrough.Script
import ReadThrough.Proofs.Load.Accounts
import ReadThrough.Proofs.Load.Answers
import ReadThrough.Proofs.Session.Effects
/-!
# Proofs: failures of the source are published

Every call of the source that fails in its course is published as a failure once, when the execution
that has made it ends, and the callers of the execution receive the same failure. A call that panics
before anything is in progress is not published, although its callers receive the panic.
-/

namespace ReadThrough

variable {P A V E : Type}

/-- What the events so far tell agrees with a world. -/
structure Told (source : Source P V E) (T : List (Event P A V E)) (w : World P A V E) :
    Prop where
  accounts : Accounts source (books T) w.works w.cache.env
  answered : Answered (books T) w.cache.flights
  carries : w.cache.env.errors.Carries (heard [] T)

/-- A quiet event publishes no failure. -/
theorem Event.isSilent_of_isQuiet {event : Event P A V E} (h : event.isQuiet = true) :
    event.isSilent = true := by
  cases event with
  | registry | abandoned | unanswered | rescued | rejected | retried | lagged => rfl
  | _ => cases h

/-- A lookup publishes no failure. -/
theorem Looks.isSilent {key : Key P A} {maxAge : Option Duration} {events : List (Event P A V E)}
    {found : Option (Delivery V)} (h : Looks key maxAge events found) :
    ∀ event ∈ events, event.isSilent = true := by
  cases h <;> simp [Event.isSilent]

/-- The end of a poll tells the books of one receipt and of nothing else. -/
theorem books_lastEvents (notices : List Notice) (execution : Option Nat) (result : Result V E) :
    books (lastEvents notices execution result : List (Event P A V E)) =
      ⟨[], [], [(execution, result)], []⟩ := by
  rw [lastEvents, books_append, books_of_silent (isSilent_registry notices)]
  rfl

/-- The end of a poll publishes no failure. -/
theorem heard_lastEvents (messages : List (P × Failure E)) (notices : List Notice)
    (execution : Option Nat) (result : Result V E) :
    heard messages (lastEvents notices execution result : List (Event P A V E)) = messages := by
  rw [lastEvents, heard_append, heard_of_silent (isSilent_registry notices)]
  rfl

namespace Told

variable [DecidableEq P] [DecidableEq A] {source : Source P V E} {T events : List (Event P A V E)}
  {w w' : World P A V E}

omit [DecidableEq P] [DecidableEq A] in
/-- Events that the books are not about; at most work is given up. -/
theorem silent (h : Told source T w) (hsilent : ∀ event ∈ events, event.isSilent = true)
    (hworks : w'.works ≤ w.works) (hsource : w'.cache.env.source = w.cache.env.source)
    (hcalled : w'.cache.env.called = w.cache.env.called)
    (herrors : ∀ {messages}, w.cache.env.errors.Carries messages →
      w'.cache.env.errors.Carries messages)
    (hsettled : w.cache.flights.SettledAlike w'.cache.flights) : Told source (T ++ events) w' := by
  have hbooks := books_of_silent hsilent
  constructor
  · rw [books_append, hbooks, Books.append_empty]
    exact h.accounts.silent hworks hsource hcalled
  · rw [books_append, hbooks]
    exact h.answered.silent hsettled [] []
  · rw [heard_append, heard_of_silent hsilent]
    exact herrors h.carries

/-- Work is taken up. -/
theorem rests (h : Told source T w) (hquiet : ∀ event ∈ events, event.isQuiet = true)
    (henv : Undisturbed w.cache.env w'.cache.env)
    (hsettled : w.cache.flights.SettledAlike w'.cache.flights)
    (hworks : w'.works ≤ w.works ∨ ∃ key, w'.works = .fresh key ::ₘ w.works) :
    Told source (T ++ events) w' := by
  have hsilent : ∀ event ∈ events, event.isSilent = true := fun event he =>
    Event.isSilent_of_isQuiet (hquiet event he)
  rcases hworks with hless | ⟨key, hfresh⟩
  · exact h.silent hsilent hless henv.source henv.called henv.errors hsettled
  · obtain ⟨haccounts, hanswered, hcarries⟩ := h
    have hstart := haccounts.start key
    have hbooks := books_of_silent hsilent
    refine ⟨?_, ?_, ?_⟩
    · rw [books_append, hbooks, Books.append_empty, hfresh]
      exact hstart.silent le_rfl henv.source henv.called
    · rw [books_append, hbooks]
      exact hanswered.silent hsettled [] []
    · rw [heard_append, heard_of_silent hsilent]
      exact henv.errors hcarries

/-! ### Polls -/

/-- What a poll of work by an execution does: the accounts are kept, and the channel of failures
carries what is published. -/
structure Works (source : Source P V E) (T : List (Event P A V E)) (execution : Option Nat)
    (work : Work P A V E) (rest : Multiset (Work P A V E)) (env : Environment P A V E)
    (progress : Progress (Work P A V E) (Outcome (Result V E))) (env' : Environment P A V E)
    (events : List (Event P A V E)) : Prop where
  entries : ∃ calls published, books events =
    ⟨calls, Work.settlements execution (work.callNumber env) work.key progress, [], published⟩
  accounts : Accounts source (books (T ++ events)) (held progress.rest? rest) env'
  carries : env'.errors.Carries (heard [] (T ++ events))

variable {execution : Option Nat} {work : Work P A V E} {rest : Multiset (Work P A V E)}
  {progress : Progress (Work P A V E) (Outcome (Result V E))} {env' : Environment P A V E}

/-- A poll of work keeps the accounts of the failures. -/
theorem works (h : Told source T w) (hworks : w.works = work ::ₘ rest)
    (hpoll : work.pollAs execution w.cache.env = (progress, env'))
    (htrace : env'.trace = w.cache.env.trace ++ events) :
    Works source T execution work rest w.cache.env progress env' events := by
  have haccounts := h.accounts
  rw [hworks] at haccounts
  obtain ⟨events', htrace', hbooks, hsource, hcalled, hcarries⟩ :=
    Work.books_pollAs execution work w.cache.env
  have hpolled := haccounts.pollAs execution hsource hcalled
  have hprogress : (work.poll w.cache.env).1 = progress := by
    rw [← show (work.pollAs execution w.cache.env).1 = progress by rw [hpoll], Work.pollAs_eq]
  rw [hpoll] at htrace' hpolled hcarries
  obtain rfl : events' = events := List.append_cancel_left (htrace'.symm.trans htrace)
  rw [← hbooks, ← books_append, hprogress] at hpolled
  rw [hprogress] at hbooks
  exact ⟨⟨_, _, hbooks⟩, hpolled, by rw [heard_append]; exact hcarries _ h.carries⟩

omit [DecidableEq P] [DecidableEq A] in
/-- Work that goes on settles no execution. -/
theorem settledAlike_of_advanced {f f' : Flights (Key P A) (Work P A V E) (Result V E)}
    {left : Work P A V E} (h : Advanced f f' execution work (.waiting left)) :
    f.SettledAlike f' := by
  cases execution with
  | none =>
    rw [show f' = f from h]
    exact .refl f
  | some e =>
    obtain ⟨hstage, hstage', hother⟩ := h
    refine Flights.settledAlike_of_ne (fun outcome => ?_) hother
    rw [hstage, hstage']
    constructor <;> intro h <;> cases h

omit [DecidableEq P] [DecidableEq A] in
/-- An execution that settles answers with the outcome that the books have. -/
theorem answered_of_advanced {b : Books P A V E}
    {f f' : Flights (Key P A) (Work P A V E) (Result V E)} (h : Answered b f)
    {outcome : Outcome (Result V E)} (hadvanced : Advanced f f' execution work (.finished outcome))
    (number : Nat) (key : Key P A) (calls : List (Nat × Key P A))
    (published : List (P × Failure E)) :
    Answered (b ++ ⟨calls, [{ execution, number, key, outcome }],
      [(execution, Load.resultOf outcome)], published⟩) f' := by
  cases execution with
  | none =>
    rw [show f' = f from hadvanced]
    exact h.settleAlone outcome number key calls published
  | some e =>
    obtain ⟨hstage, hstage', hother⟩ := hadvanced
    exact h.settle (fun outcome => by rw [hstage]; exact nofun) hstage' hother number key calls
      published

/-- A poll of work keeps what is told of a world, with the end of its execution. -/
theorem polls (h : Told source T w) (hworks : w.works = work ::ₘ rest)
    (hpoll : work.pollAs execution w.cache.env = (progress, env'))
    (htrace : env'.trace = w.cache.env.trace ++ events)
    (hworks' : w'.works = held progress.rest? rest)
    (henv : Undisturbed env' w'.cache.env)
    (hadvanced : Advanced w.cache.flights w'.cache.flights execution work progress)
    (notices : List Notice) :
    Told source (T ++ (events ++ endEvents notices execution progress)) w' := by
  obtain ⟨⟨calls, published, hbooks⟩, haccounts, hcarries⟩ := h.works hworks hpoll htrace
  have haccounts' : Accounts source (books (T ++ events)) w'.works w'.cache.env := by
    rw [hworks']
    exact haccounts.silent le_rfl henv.source henv.called
  rw [← List.append_assoc]
  cases progress with
  | waiting left =>
    have hsilent := books_of_silent (isSilent_registry (P := P) (A := A) (V := V) (E := E) notices)
    refine ⟨?_, ?_, ?_⟩
    · rw [endEvents, books_append, hsilent, Books.append_empty]
      exact haccounts'
    · rw [endEvents, books_append, hsilent, Books.append_empty, books_append, hbooks]
      exact h.answered.silent (settledAlike_of_advanced hadvanced) calls published
    · rw [endEvents, heard_append, heard_of_silent (isSilent_registry notices)]
      exact henv.errors hcarries
  | finished outcome =>
    refine ⟨?_, ?_, ?_⟩
    · rw [endEvents, books_append, books_lastEvents]
      exact haccounts'.receipt _
    · rw [endEvents, books_append, books_append, hbooks, books_lastEvents, Books.append_assoc]
      exact answered_of_advanced h.answered hadvanced (work.callNumber w.cache.env) work.key
        (calls ++ []) (published ++ [])
    · rw [endEvents, heard_append, heard_lastEvents]
      exact henv.errors hcarries

/-- Whatever a move does keeps the books right. -/
theorem does (h : Told source T w) (hdoes : Does w events w') : Told source (T ++ events) w' := by
  cases hdoes with
  | looks hlooks henv hflights hworks =>
    exact h.silent hlooks.isSilent (le_of_eq hworks) henv.source henv.called henv.errors
      (by rw [hflights]; exact .refl _)
  | clears => exact h.silent (List.forall_mem_singleton.mpr rfl) le_rfl rfl rfl id (.refl _)
  | rests hquiet henv hsettled hworks => exact h.rests hquiet henv hsettled hworks
  | polls hworks hpoll htrace hworks' henv hadvanced =>
    exact h.polls hworks hpoll htrace hworks' henv hadvanced _
  | @receives _ e outcome notices hstage henv hsettled hworks =>
    refine ⟨?_, ?_, ?_⟩
    · rw [books_append, books_lastEvents, hworks]
      exact (h.accounts.silent le_rfl henv.source henv.called).receipt _
    · rw [books_append, books_lastEvents]
      exact h.answered.receive hsettled hstage
    · rw [heard_append, heard_lastEvents]
      exact henv.errors h.carries

/-- A move keeps what is told of a world. -/
theorem move (hmove : Move w w') (h : Told source T w) : Leads (Told source) T w w' := by
  obtain ⟨events, htrace, hdoes⟩ := hmove.reaches
  exact ⟨events, htrace, h.does hdoes⟩

/-- A write past the cache is not in the books. -/
theorem put (h : Told source T w) (key : Key P A) (entry : Entry V) :
    Leads (Told source) T w (w.put key entry) := by
  obtain ⟨events, htells⟩ := Work.tells_writeStore w.cache.env key entry
  have hbooks : books events = .empty := by
    rw [Work.books_of_isWork htells.isWork, htells.published]
    rfl
  refine ⟨events, htells.trace, ?_, ?_, ?_⟩
  · rw [books_append, hbooks, Books.append_empty]
    exact h.accounts.silent le_rfl htells.source htells.called
  · rw [books_append, hbooks, Books.append_empty]
    exact h.answered
  · rw [heard_append]
    exact htells.carries h.carries

omit [DecidableEq P] [DecidableEq A] in
/-- What is told of a world does not depend on the trace before. -/
theorem fresh {s : Session P A V E} (h : Told source T s.world) : Told source T s.fresh.world :=
  ⟨h.accounts.silent le_rfl rfl rfl, h.answered, h.carries⟩

end Told

/-! ## Failures -/

/-- The message that the failure of its call of the source calls for. -/
def Settlement.message? (source : Source P V E) (s : Settlement P A V E) : Option (P × Failure E) :=
  (source s.number s.key.params).failure?.map (s.key.params, ·)

/-- The call of the source panicked before anything was in progress. -/
def Settlement.Refused (source : Source P V E) (s : Settlement P A V E) : Prop :=
  ∃ message, source s.number s.key.params = .refuses message

/-- An execution that was not refused owes the message that its failure calls for. -/
theorem Settlement.message?_eq_owed? {source : Source P V E} {s : Settlement P A V E}
    (h : ¬ s.Refused source) : s.message? source = s.owed? source := by
  unfold message? owed?
  cases hcall : source s.number s.key.params with
  | refuses message => exact absurd ⟨message, hcall⟩ h
  | replies reply => rfl

/-- What is owed is some of what the failures call for, in order. -/
theorem Settlement.owed?_sublist (source : Source P V E) (settled : List (Settlement P A V E)) :
    (settled.filterMap (owed? source)).Sublist (settled.filterMap (message? source)) := by
  induction settled with
  | nil => exact .slnil
  | cons s rest ih =>
    rw [List.filterMap_cons, List.filterMap_cons]
    by_cases hrefused : s.Refused source
    · obtain ⟨message, hcall⟩ := hrefused
      simp only [message?, owed?, hcall, Behaviour.failure?, Behaviour.lateFailure?, Option.map]
      exact ih.cons _
    · rw [message?_eq_owed? hrefused]
      cases s.owed? source with
      | none => exact ih
      | some message => exact ih.cons_cons message

/-- What is owed is all that the failures call for, unless a call was refused. -/
theorem Settlement.owed?_eq_message?_iff (source : Source P V E)
    (settled : List (Settlement P A V E)) :
    settled.filterMap (owed? source) = settled.filterMap (message? source) ↔
      ∀ s ∈ settled, ¬ s.Refused source := by
  induction settled with
  | nil => exact ⟨fun _ => List.forall_mem_nil _, fun _ => rfl⟩
  | cons s rest ih =>
    rw [List.forall_mem_cons, List.filterMap_cons, List.filterMap_cons, ← ih]
    by_cases hrefused : s.Refused source
    · refine ⟨fun heq => ?_, fun h => absurd hrefused h.1⟩
      -- The message of a refused call is one that is not owed.
      obtain ⟨message, hcall⟩ := hrefused
      simp only [message?, owed?, hcall, Behaviour.failure?, Behaviour.lateFailure?, Option.map]
        at heq
      have hle := (owed?_sublist source rest).length_le
      have hlength := congrArg List.length heq
      rw [List.length_cons] at hlength
      exact absurd (hlength ▸ hle) (Nat.not_succ_le_self _)
    · rw [message?_eq_owed? hrefused]
      cases s.owed? source with
      | none => exact ⟨fun heq => ⟨hrefused, heq⟩, And.right⟩
      | some message =>
        exact ⟨fun heq => ⟨hrefused, (List.cons.inj heq).2⟩, fun h => congrArg _ h.2⟩

/-- What the books say about failures of the source. -/
structure PublishesFailures (source : Source P V E) (b : Books P A V E) : Prop where
  /-- The calls of the source are numbered in order. -/
  numbered : b.calls.map (·.1) = List.range' 1 b.calls.length
  /-- An execution that has ended has made a call of the source for its key. -/
  called : ∀ s ∈ b.settled, (s.number, s.key) ∈ b.calls
  distinct : (b.settled.map (·.number)).Nodup
  once : (b.settled.filterMap (·.execution)).Nodup
  /-- Each execution whose call of the source has failed in its course adds one message; there are
  no others. -/
  published : b.published = b.settled.filterMap (Settlement.owed? source)
  /-- Every failure of the source has its message exactly if no call was refused. -/
  complete : b.published = b.settled.filterMap (Settlement.message? source) ↔
    ∀ s ∈ b.settled, ¬ s.Refused source
  /-- A failure of the source, of whatever kind, is the result of the execution. -/
  failed : ∀ s ∈ b.settled, ∀ failure, (source s.number s.key.params).failure? = some failure →
    Load.resultOf s.outcome = .error failure
  /-- Every caller of a shared execution receives its result. -/
  received : ∀ e result, (some e, result) ∈ b.received →
    ∃ s ∈ b.settled, s.execution = some e ∧ result = Load.resultOf s.outcome
  /-- The callers of executions that are not shared receive their results, in order. -/
  alone : b.settled.filterMap Settlement.alone? = b.received.filterMap aloneReceipt?

/-- What is told of a world says which failures are published. -/
theorem Told.publishesFailures {source : Source P V E} {T : List (Event P A V E)}
    {w : World P A V E} (h : Told source T w) : PublishesFailures source (books T) := by
  obtain ⟨haccounts, hanswered, -⟩ := h
  have hlength : (books T).calls.length = w.cache.env.called.length := by
    simpa using congrArg List.length haccounts.numbered
  refine ⟨hlength ▸ haccounts.numbered, haccounts.called, ?_, hanswered.once, haccounts.published,
    ?_, fun s hs failure => (haccounts.fits s hs).failed, hanswered.received, hanswered.alone⟩
  · exact Multiset.coe_nodup.mp
      (Multiset.nodup_of_le (Multiset.le_add_right _ _) haccounts.distinct)
  · rw [haccounts.published]
    exact Settlement.owed?_eq_message?_iff source _

namespace Session

variable [DecidableEq P] [DecidableEq A] [DecidableEq V]

/-- What is told agrees with the world throughout every run from the beginning. -/
theorem told_run (setup : Setup (Store (Key P A) V)) (source : Source P V E)
    (steps : List (Step P A V)) :
    Told source (eventsOf ((create (Cache.create setup source)).run steps).1)
      ((create (Cache.create setup source)).run steps).2.world := by
  have hsound : (create (Cache.create setup source)).Sound := sound_create _
  have hnone : Told source ([] : List (Event P A V E)) (create (Cache.create setup source)).world :=
    { accounts := ⟨rfl, rfl, nofun, nofun, nofun, List.nodup_nil, nofun, nofun, rfl⟩
      answered := ⟨nofun, nofun, List.nodup_nil, nofun, rfl⟩
      carries := ⟨rfl, List.suffix_rfl⟩ }
  exact kept_run (I := Told source) Told.move Told.fresh Told.put steps hsound hnone

/-- In every run of a session over a new cache, each execution whose call of the source fails in its
course publishes one message, with the failure that its callers receive. The channel of failures has
carried the messages that somebody listened to, and nothing else. -/
theorem failures_published (setup : Setup (Store (Key P A) V)) (source : Source P V E)
    (steps : List (Step P A V)) :
    let run := (create (Cache.create setup source)).run steps
    PublishesFailures source (books (eventsOf run.1)) ∧
      run.2.cache.env.errors.Carries (heard [] (eventsOf run.1)) := by
  have htold := told_run setup source steps
  exact ⟨htold.publishesFailures, htold.carries⟩

/-- If somebody listens whenever a failure is published, then the channel has carried the message of
each execution whose call of the source has failed in its course. -/
theorem errors_carries_owed (setup : Setup (Store (Key P A) V)) (source : Source P V E)
    (steps : List (Step P A V))
    (hheard : Event.failureUnheard ∉
      eventsOf ((create (Cache.create setup source)).run steps).1) :
    ((create (Cache.create setup source)).run steps).2.cache.env.errors.Carries
      ((books (eventsOf ((create (Cache.create setup source)).run steps).1)).settled.filterMap
        (Settlement.owed? source)) := by
  have htold := told_run setup source steps
  have hcarries := htold.carries
  rw [heard_of_not_mem hheard] at hcarries
  rw [← htold.publishesFailures.published]
  exact hcarries

/-- A source whose calls panic before anything is in progress. -/
def refusing : Source String Int64 String := scriptedSource [{ refusal := some "early" }]

/-- A subscriber of failures, and a request that calls the source. -/
def refusedRun : List (Report String Unit Int64 String) :=
  ((create (Cache.create
      { store := .bounded (Bounded.ofCapacity 16 (by decide)), clock := .counter 1000 1,
        broadcastCapacity := 64 } refusing)).run
    [.begin "e" .errors, .run (.stream true (Key.ofParams "x") (.policy .never) {}),
      .drain "e"]).1

/-- The call of the source fails and its caller is told so, but nothing is published and the
subscriber is not told. -/
theorem refused_call_unpublished :
    let b := books (eventsOf refusedRun)
    b.settled.filterMap (Settlement.message? refusing) = [("x", .panicked "early")] ∧
      b.received = [(some 0, .error (.panicked "early"))] ∧ b.published = [] ∧
      refusedRun.map (·.response) =
        [.nothing,
          .answers [.answer (.item (.failure (.panicked "early"))), .answer .done],
          .answers [.answer .pending]] :=
  ⟨rfl, rfl, rfl, rfl⟩

end Session

end ReadThrough
