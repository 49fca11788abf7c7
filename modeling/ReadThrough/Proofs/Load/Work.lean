import ReadThrough.Work
/-!
# Proofs: what the work of a load does

One poll of the work adds events to the trace and touches nothing that is behind it. The events are
those of the work alone: it never reads the store, and it leaves the registry to whoever polls it.
Only fresh work calls the source, before anything else. A failure is published exactly when the poll
ends the work with that failure.
-/

namespace ReadThrough

variable {P A V E : Type}

/-- Whether an event is one of the work of a load, after its call of the source. -/
def Event.isWork : Event P A V E → Bool
  | .clockRead _ | .storeWritten _ _ | .evicted _ _ | .succeeded _ _ | .failed _ _
  | .updatePublished _ _ | .failurePublished _ _ | .updateUnheard | .failureUnheard => true
  | _ => false

/-- The failure that an event publishes, with its parameters. -/
def Event.publication? : Event P A V E → Option (P × Failure E)
  | .failurePublished params failure => some (params, failure)
  | _ => none

/-- The failures that are published in the course of some events. -/
def publications (events : List (Event P A V E)) : List (P × Failure E) :=
  events.filterMap Event.publication?

/-- The publications of more events are those of the first and those of the others. -/
theorem publications_append (events events' : List (Event P A V E)) :
    publications (events ++ events') = publications events ++ publications events' :=
  List.filterMap_append

/-- The published failures that somebody listened to, after one event: a failure that nobody heard
is taken back. -/
def hear (messages : List (P × Failure E)) : Event P A V E → List (P × Failure E)
  | .failurePublished params failure => messages ++ [(params, failure)]
  | .failureUnheard => messages.dropLast
  | _ => messages

/-- The published failures that somebody listened to, after some events. -/
def heard (messages : List (P × Failure E)) (events : List (Event P A V E)) :
    List (P × Failure E) :=
  events.foldl hear messages

/-- Events tell who heard what, one after the other. -/
theorem heard_append (messages : List (P × Failure E)) (events events' : List (Event P A V E)) :
    heard messages (events ++ events') = heard (heard messages events) events' :=
  List.foldl_append

/-- Events without publications leave what was heard as it is. -/
theorem heard_of_forall {events : List (Event P A V E)}
    (h : ∀ event ∈ events, ∀ messages, hear messages event = messages)
    (messages : List (P × Failure E)) : heard messages events = messages := by
  induction events with
  | nil => rfl
  | cons event events ih =>
    rw [heard, List.foldl_cons, h event (List.mem_cons_self ..)]
    exact ih fun event' he => h event' (List.mem_cons_of_mem _ he)

/-- If somebody listens to every failure, all that are published are heard. -/
theorem heard_of_not_mem {events : List (Event P A V E)} (h : .failureUnheard ∉ events) :
    heard [] events = publications events := by
  suffices hall : ∀ messages, heard messages events = messages ++ publications events by
    simpa using hall []
  induction events with
  | nil => exact fun messages => (List.append_nil messages).symm
  | cons event events ih =>
    intro messages
    have hrest := ih (fun hmem => h (List.mem_cons_of_mem _ hmem)) (hear messages event)
    cases event with
    | failureUnheard => exact absurd (List.mem_cons_self ..) h
    | failurePublished params failure =>
      rw [heard, hear, List.append_assoc] at hrest
      exact hrest
    | _ => exact hrest

/-- A channel has carried the messages, and its ring holds the latest of them. -/
structure Channel.Carries {M : Type} (c : Channel M) (messages : List M) : Prop where
  sent : c.sent = messages.length
  latest : c.buffer <:+ messages

/-- A channel carries a message that is published, if somebody listens. -/
theorem Channel.Carries.publish {M : Type} {c : Channel M} {messages : List M}
    (h : c.Carries messages) (message : M) :
    (c.publish message).2.Carries
      (if (c.publish message).1 then messages ++ [message] else messages) := by
  unfold Channel.publish
  split
  · exact h
  · refine ⟨?_, (List.drop_suffix _ _).trans ?_⟩
    · rw [if_pos rfl, List.length_append, ← h.sent]
      rfl
    · obtain ⟨earlier, hearlier⟩ := h.latest
      exact ⟨earlier, by rw [← List.append_assoc, hearlier, if_pos rfl]⟩

/-- The failure with which an outcome of the work says that the source has failed. -/
def Outcome.failure? : Outcome (Result V E) → Option (Failure E)
  | .value (.error failure) => some failure
  | .value (.ok _) | .panicked _ => none

namespace Work

/-- What a poll of the work must publish as a failure. -/
def owed (key : Key P A) : Progress (Work P A V E) (Outcome (Result V E)) → List (P × Failure E)
  | .waiting _ => []
  | .finished outcome => outcome.failure?.toList.map (key.params, ·)

/-- The environment in which the rest of a poll takes place: fresh work has called the source. -/
def entry (work : Work P A V E) (env : Environment P A V E) : Environment P A V E :=
  match work with
  | .fresh key => (env.callSource key).2
  | .calling _ _ _ | .storing _ _ _ _ => env

/-- The events before the rest of a poll. -/
def calls (work : Work P A V E) (env : Environment P A V E) : List (Event P A V E) :=
  match work with
  | .fresh key => [.called (env.called.length + 1) key]
  | .calling _ _ _ | .storing _ _ _ _ => []

/-- Fresh work tells of its call of the source before anything else. -/
theorem trace_entry (work : Work P A V E) (env : Environment P A V E) :
    (work.entry env).trace = env.trace ++ work.calls env := by
  cases work with
  | fresh key => rfl
  | calling key number reply => exact (List.append_nil _).symm
  | storing key number value now => exact (List.append_nil _).symm

/-- From `env` to `env'` the events are added to the trace. They are those of the work, and publish
the failures that are owed, on the channel of failures. -/
structure Tells (env : Environment P A V E) (events : List (Event P A V E))
    (owed : List (P × Failure E)) (env' : Environment P A V E) : Prop where
  trace : env'.trace = env.trace ++ events
  isWork : ∀ event ∈ events, event.isWork = true
  published : publications events = owed
  source : env'.source = env.source
  called : env'.called = env.called
  carries : ∀ {messages}, env.errors.Carries messages →
    env'.errors.Carries (heard messages events)

variable {env env' env'' : Environment P A V E} {events events' : List (Event P A V E)}
  {owed owed' : List (P × Failure E)}

theorem Tells.refl (env : Environment P A V E) : Tells env [] [] env :=
  ⟨(List.append_nil _).symm, nofun, rfl, rfl, rfl, id⟩

/-- What two parts of a poll tell, and owe, they do so one after the other. -/
theorem Tells.trans (h : Tells env events owed env') (h' : Tells env' events' owed' env'') :
    Tells env (events ++ events') (owed ++ owed') env'' := by
  refine ⟨by rw [h'.trace, h.trace, List.append_assoc], fun event he => ?_, ?_,
    h'.source.trans h.source, h'.called.trans h.called, fun hc => ?_⟩
  · exact (List.mem_append.mp he).elim (h.isWork event) (h'.isWork event)
  · rw [publications_append, h.published, h'.published]
  · rw [heard_append]
    exact h'.carries (h.carries hc)

/-- One event of the work that is no publication of a failure. -/
theorem tells_note (env : Environment P A V E) {event : Event P A V E}
    (hwork : event.isWork = true) (hquiet : event.publication? = none)
    (hheard : ∀ messages, hear messages event = messages) :
    Tells env [event] [] (env.note event) :=
  ⟨rfl, fun e he => by rwa [List.mem_singleton.mp he], by simp [publications, hquiet], rfl, rfl,
    fun {messages} hc => by rwa [show heard messages [event] = messages from hheard messages]⟩

/-- To read the clock owes nothing. -/
theorem tells_readClock (env : Environment P A V E) :
    Tells env [.clockRead env.readClock.1] [] env.readClock.2 :=
  ⟨rfl, fun e he => by rw [List.mem_singleton.mp he]; rfl, rfl, rfl, rfl, id⟩

/-- To publish a result owes no failure. -/
theorem tells_publishUpdate (env : Environment P A V E) (params : P) (delivery : Delivery V) :
    ∃ events, Tells env events [] (env.publishUpdate params delivery) := by
  unfold Environment.publishUpdate
  rcases env.updates.publish (params, delivery) with ⟨heard, updates⟩
  have hnote : Tells env [.updatePublished params delivery] []
      ({ env with updates }.note (.updatePublished params delivery)) :=
    ⟨rfl, fun e he => by rw [List.mem_singleton.mp he]; rfl, rfl, rfl, rfl, id⟩
  cases heard with
  | true => exact ⟨_, hnote⟩
  | false => exact ⟨_, hnote.trans (tells_note _ rfl rfl fun _ => rfl)⟩

/-- A failure that is published is one that was owed. -/
theorem tells_publishFailure (env : Environment P A V E) (params : P) (failure : Failure E) :
    ∃ events, Tells env events [(params, failure)] (env.publishFailure params failure) := by
  have hcarries := fun (messages : List (P × Failure E)) (hc : env.errors.Carries messages) =>
    hc.publish (params, failure)
  unfold Environment.publishFailure
  rcases hpublish : env.errors.publish (params, failure) with ⟨listened, errors⟩
  simp only [hpublish] at hcarries
  cases listened with
  | true =>
    exact ⟨[.failurePublished params failure], rfl,
      fun e he => by rw [List.mem_singleton.mp he]; rfl, rfl, rfl, rfl, hcarries _⟩
  | false =>
    refine ⟨[.failurePublished params failure, .failureUnheard], List.append_assoc _ [_] [_],
      fun e he => ?_, rfl, rfl, rfl, fun {messages} hc => ?_⟩
    · rcases List.mem_cons.mp he with rfl | he
      · rfl
      · rw [List.mem_singleton.mp he]
        rfl
    · show errors.Carries (messages ++ [(params, failure)]).dropLast
      rw [List.dropLast_concat]
      exact hcarries messages hc

/-- Work that fails publishes the failure that it ends with. -/
theorem tells_fail (key : Key P A) (failure : Failure E) (env : Environment P A V E) :
    ∃ events, Tells env events (Work.owed key (fail key failure env).1)
      (fail key failure env).2 := by
  obtain ⟨events, h⟩ := tells_publishFailure (env.note (.failed key failure)) key.params failure
  have hnote : Tells env [.failed key failure] [] (env.note (.failed key failure)) :=
    tells_note env rfl rfl fun _ => rfl
  exact ⟨_, hnote.trans h⟩

variable [DecidableEq P] [DecidableEq A]

/-- To write the store owes nothing. -/
theorem tells_writeStore (env : Environment P A V E) (key : Key P A) (entry : Entry V) :
    ∃ events, Tells env events [] (env.writeStore key entry) := by
  unfold Environment.writeStore
  rcases env.store.put key entry with ⟨store, gone⟩
  refine ⟨.storeWritten key entry :: gone.map fun (k, capacity) => .evicted k capacity, ?_, ?_, ?_,
    rfl, rfl, fun {messages} hc => ?_⟩
  · simp [Environment.noteAll, Environment.note]
  · intro event he
    rcases List.mem_cons.mp he with rfl | he
    · rfl
    · obtain ⟨p, -, rfl⟩ := List.mem_map.mp he
      rfl
  · rw [publications, List.filterMap_cons_none rfl, List.filterMap_eq_nil_iff]
    intro event he
    obtain ⟨p, -, rfl⟩ := List.mem_map.mp he
    rfl
  · rw [heard_of_forall fun event he => ?_]
    · exact hc
    · rcases List.mem_cons.mp he with rfl | he
      · exact fun _ => rfl
      · obtain ⟨p, -, rfl⟩ := List.mem_map.mp he
        exact fun _ => rfl

/-- Work whose value is stored publishes it, and no failure. -/
theorem tells_finishStoring (key : Key P A) (number : Nat) (value : V) (now : Stamp)
    (env : Environment P A V E) :
    ∃ events, Tells env events (Work.owed key (finishStoring key number value now env).1)
      (finishStoring key number value now env).2 := by
  unfold finishStoring
  split
  · obtain ⟨events, h⟩ := tells_writeStore env key (Entry.stamped value now)
    have hnote : Tells (env.writeStore key (Entry.stamped value now)) [.succeeded key now] []
        ((env.writeStore key (Entry.stamped value now)).note (.succeeded key now)) :=
      tells_note _ rfl rfl fun _ => rfl
    obtain ⟨events', h'⟩ := tells_publishUpdate
      ((env.writeStore key (Entry.stamped value now)).note (.succeeded key now)) key.params
      (Delivery.loaded value now)
    exact ⟨_, (h.trans hnote).trans h'⟩
  · exact ⟨[], .refl env⟩

/-- Work that stores a value ends without a failure of the source, or waits for the store. -/
theorem tells_store (key : Key P A) (number : Nat) (value : V) (env : Environment P A V E) :
    ∃ events, Tells env events (Work.owed key (store key number value env).1)
      (store key number value env).2 := by
  have hclock := tells_readClock env
  unfold store
  rcases hread : env.readClock with ⟨now, env'⟩
  rw [hread] at hclock
  simp only
  split
  · exact ⟨_, hclock⟩
  · obtain ⟨events, h⟩ := tells_finishStoring key number value now env'
    exact ⟨_, hclock.trans h⟩

/-- Work whose call has ended publishes its failure, if it is one. -/
theorem tells_conclude (key : Key P A) (number : Nat) (ending : Ending V E)
    (env : Environment P A V E) :
    ∃ events, Tells env events (Work.owed key (conclude key number ending env).1)
      (conclude key number ending env).2 := by
  cases ending with
  | value value => exact tells_store key number value env
  | error error => exact tells_fail key (.source error) env
  | panic message => exact tells_fail key (.panicked message) env

/-- Work whose call is in progress publishes nothing before the call has ended. -/
theorem tells_proceed (key : Key P A) (number : Nat) (reply : Reply V E)
    (env : Environment P A V E) :
    ∃ events, Tells env events (Work.owed key (proceed key number reply env).1)
      (proceed key number reply env).2 := by
  unfold proceed
  split
  · exact ⟨[], .refl env⟩
  · cases reply.took with
    | none => exact tells_conclude key number reply.ending env
    | some d =>
      obtain ⟨events, h⟩ := tells_conclude key number reply.ending (env.advance d)
      exact ⟨events, h.trace, h.isWork, h.published, h.source, h.called, h.carries⟩

/-- Work that calls the source publishes no failure of a call that was refused at once. -/
theorem tells_begin (key : Key P A) (env : Environment P A V E) :
    ∃ events, Tells (env.callSource key).2 events (Work.owed key (begin key env).1)
      (begin key env).2 := by
  unfold begin
  rcases env.callSource key with ⟨message | reply, env'⟩
  · exact ⟨[], .refl env'⟩
  · exact tells_proceed key env'.called.length reply env'

/-- A poll of work tells what it does, and publishes exactly the failures that it owes. -/
theorem tells_poll (work : Work P A V E) (env : Environment P A V E) :
    ∃ events, Tells (work.entry env) events (Work.owed work.key (work.poll env).1)
      (work.poll env).2 := by
  cases work with
  | fresh key => exact tells_begin key env
  | calling key number reply => exact tells_proceed key number reply env
  | storing key number value now => exact tells_finishStoring key number value now env

/-! ## The work of an execution -/

/-- The number of the call of the source, if need be of the one that is to come. -/
def callNumber (work : Work P A V E) (env : Environment P A V E) : Nat :=
  work.number?.getD (env.called.length + 1)

/-- The event that a poll leaves at last: the execution ends, if the work does. -/
def closing (execution : Option Nat) (work : Work P A V E) (env : Environment P A V E) :
    List (Event P A V E) :=
  match (work.poll env).1 with
  | .waiting _ => []
  | .finished outcome => [.settled execution (work.callNumber env) work.key outcome]

/-- A poll on behalf of an execution does the same, and notes the end of the execution at last. -/
theorem pollAs_eq (execution : Option Nat) (work : Work P A V E) (env : Environment P A V E) :
    work.pollAs execution env =
      ((work.poll env).1, (work.poll env).2.noteAll (work.closing execution env)) := by
  unfold pollAs closing
  rcases work.poll env with ⟨rest | outcome, env'⟩
  · simp [Environment.noteAll]
  · rfl

/-- The events of a poll of the work as an execution: its call of the source, those of the rest of
the work, and that the execution ends. -/
theorem pollAs_trace (execution : Option Nat) {work : Work P A V E} {env : Environment P A V E}
    {events : List (Event P A V E)} {owed : List (P × Failure E)}
    (h : Tells (work.entry env) events owed (work.poll env).2) :
    (work.pollAs execution env).2.trace =
      env.trace ++ (work.calls env ++ (events ++ work.closing execution env)) := by
  rw [pollAs_eq, ← List.append_assoc, ← trace_entry, ← List.append_assoc, ← h.trace]
  rfl

end Work

end ReadThrough
