import ReadThrough.Proofs.Flights.Stages
import ReadThrough.Proofs.Load.Books
/-!
# Proofs: what a load delivers

A poll of the work of a load leaves the store and the channel of results alone, unless it ends the
work with a delivery: then the poll writes the delivered value and publishes the delivery, in this
order (`Deals`). The clock is read once on the way to a delivery, and the delivery has that reading.
-/

namespace ReadThrough

variable {P A V E : Type}

namespace Event

/-- The write of the store that an event is. -/
def write? : Event P A V E → Option (Key P A × Entry V)
  | .storeWritten key entry => some (key, entry)
  | _ => none

/-- The result that an event publishes, with its parameters. -/
def update? : Event P A V E → Option (P × Delivery V)
  | .updatePublished params delivery => some (params, delivery)
  | _ => none

/-- The reading of the clock that an event is. -/
def reading? : Event P A V E → Option Stamp
  | .clockRead now => some now
  | _ => none

/-- Whether an event changes what is stored or what is published. -/
def touches : Event P A V E → Bool
  | .storeWritten _ _ | .evicted _ _ | .cleared | .updatePublished _ _ | .updateUnheard => true
  | _ => false

/-- Whether an event says what a lookup has found for which the clock was read. -/
def isFinding : Event P A V E → Bool
  | .hit _ _ | .stale _ _ _ => true
  | _ => false

end Event

/-! ## What events tell -/

section Events

variable (events events' : List (Event P A V E))

/-- The writes of the store, in order. -/
def writes : List (Key P A × Entry V) := events.filterMap Event.write?

/-- The results that were published, in order. -/
def updates : List (P × Delivery V) := events.filterMap Event.update?

/-- The readings of the clock that are not those of lookups, after one event: the reading of a
lookup is taken back when the lookup says what it has found. -/
def reckon (stamps : List Stamp) : Event P A V E → List Stamp
  | .clockRead now => stamps ++ [now]
  | .hit _ _ | .stale _ _ _ => stamps.dropLast
  | _ => stamps

/-- The readings of the clock that are not those of lookups, after some events. -/
def readings (stamps : List Stamp) : List Stamp := events.foldl reckon stamps

/-- The published results that somebody listened to, after one event. -/
def hearUpdate (messages : List (P × Delivery V)) : Event P A V E → List (P × Delivery V)
  | .updatePublished params delivery => messages ++ [(params, delivery)]
  | .updateUnheard => messages.dropLast
  | _ => messages

/-- The published results that somebody listened to, after some events. -/
def heardUpdates (messages : List (P × Delivery V)) : List (P × Delivery V) :=
  events.foldl hearUpdate messages

theorem writes_append : writes (events ++ events') = writes events ++ writes events' :=
  List.filterMap_append

theorem updates_append : updates (events ++ events') = updates events ++ updates events' :=
  List.filterMap_append

theorem readings_append (stamps : List Stamp) :
    readings (events ++ events') stamps = readings events' (readings events stamps) :=
  List.foldl_append

theorem heardUpdates_append (messages : List (P × Delivery V)) :
    heardUpdates (events ++ events') messages =
      heardUpdates events' (heardUpdates events messages) :=
  List.foldl_append

end Events

/-- Events that leave something as it is, one by one, leave it as it is together. -/
theorem foldl_of_forall {α β : Type} {f : α → β → α} {bs : List β}
    (h : ∀ b ∈ bs, ∀ a, f a b = a) (a : α) : bs.foldl f a = a := by
  induction bs with
  | nil => rfl
  | cons b bs ih =>
    rw [List.foldl_cons, h b (List.mem_cons_self ..)]
    exact ih fun b' hb => h b' (List.mem_cons_of_mem _ hb)

section Untouched

variable {events : List (Event P A V E)}

/-- Events that touch nothing are no writes. -/
theorem writes_of_untouched (h : ∀ event ∈ events, event.touches = false) : writes events = [] := by
  refine List.filterMap_eq_nil_iff.mpr fun event he => ?_
  have huntouched := h event he
  cases event with
  | storeWritten key entry => cases huntouched
  | _ => rfl

/-- Events that touch nothing are no publications. -/
theorem updates_of_untouched (h : ∀ event ∈ events, event.touches = false) :
    updates events = [] := by
  refine List.filterMap_eq_nil_iff.mpr fun event he => ?_
  have huntouched := h event he
  cases event with
  | updatePublished params delivery => cases huntouched
  | _ => rfl

/-- Events that touch nothing leave what was heard as it is. -/
theorem heardUpdates_of_untouched (h : ∀ event ∈ events, event.touches = false)
    (messages : List (P × Delivery V)) : heardUpdates events messages = messages := by
  refine foldl_of_forall (fun event he messages => ?_) messages
  have huntouched := h event he
  cases event with
  | updatePublished | updateUnheard => cases huntouched
  | _ => rfl

/-- Without lookups every reading of the clock counts. -/
theorem readings_of_no_finding (h : ∀ event ∈ events, event.isFinding = false)
    (stamps : List Stamp) :
    readings events stamps = stamps ++ events.filterMap Event.reading? := by
  induction events generalizing stamps with
  | nil => exact (List.append_nil stamps).symm
  | cons event events ih =>
    have hfirst := h event (List.mem_cons_self ..)
    have hrest := ih (fun event' he => h event' (List.mem_cons_of_mem _ he)) (reckon stamps event)
    rw [readings, List.foldl_cons]
    refine hrest.trans ?_
    cases event with
    | clockRead now => exact List.append_assoc stamps [now] _
    | hit | stale => cases hfirst
    | _ => rfl

end Untouched

/-! ## What a poll of the work does -/

/-- From `env` to `env'` the events are added to the trace, and neither the store nor the channel of
results is touched. -/
structure Hushed (env : Environment P A V E) (events : List (Event P A V E))
    (env' : Environment P A V E) : Prop where
  trace : env'.trace = env.trace ++ events
  store : env'.store = env.store
  updates : env'.updates = env.updates
  untouched : ∀ event ∈ events, event.touches = false
  noFinding : ∀ event ∈ events, event.isFinding = false

section Hushed

variable {env env' env'' : Environment P A V E} {events events' : List (Event P A V E)}

theorem Hushed.refl (env : Environment P A V E) : Hushed env [] env :=
  ⟨(List.append_nil _).symm, rfl, rfl, List.forall_mem_nil _, List.forall_mem_nil _⟩

/-- If neither store nor channel is touched in two parts, neither is in both. -/
theorem Hushed.trans (h : Hushed env events env') (h' : Hushed env' events' env'') :
    Hushed env (events ++ events') env'' :=
  ⟨by rw [h'.trace, h.trace, List.append_assoc], h'.store.trans h.store,
    h'.updates.trans h.updates, List.forall_mem_append.mpr ⟨h.untouched, h'.untouched⟩,
    List.forall_mem_append.mpr ⟨h.noFinding, h'.noFinding⟩⟩

/-- One event that changes neither. -/
theorem hushed_event {event : Event P A V E} (htrace : env'.trace = env.trace ++ [event])
    (hstore : env'.store = env.store) (hupdates : env'.updates = env.updates)
    (huntouched : event.touches = false) (hfinding : event.isFinding = false) :
    Hushed env [event] env' :=
  ⟨htrace, hstore, hupdates, List.forall_mem_singleton.mpr huntouched,
    List.forall_mem_singleton.mpr hfinding⟩

/-- A failure that is published touches neither the store nor the channel of results. -/
theorem hushed_publishFailure (env : Environment P A V E) (params : P) (failure : Failure E) :
    ∃ events, Hushed env events (env.publishFailure params failure) ∧
      events.filterMap Event.reading? = [] := by
  unfold Environment.publishFailure
  rcases env.errors.publish (params, failure) with ⟨listened, errors⟩
  have hpublished : Hushed env [.failurePublished params failure]
      ({ env with errors }.note (.failurePublished params failure)) :=
    hushed_event rfl rfl rfl rfl rfl
  cases listened with
  | true => exact ⟨_, hpublished, rfl⟩
  | false => exact ⟨_, hpublished.trans (hushed_event rfl rfl rfl rfl rfl), rfl⟩

end Hushed

namespace Work

/-- The reading of the clock that work has for the value that it stores. -/
def stamp? : Work P A V E → Option Stamp
  | .storing _ _ _ now => some now
  | .fresh _ | .calling _ _ _ => none

variable [DecidableEq P] [DecidableEq A]

/-- The environment after a value was written and its delivery published. -/
def delivered (key : Key P A) (value : V) (now : Stamp) (env : Environment P A V E) :
    Environment P A V E :=
  ((env.writeStore key (Entry.stamped value now)).note (.succeeded key now)).publishUpdate
    key.params (Delivery.loaded value now)

/-- What a poll of work for a key does, after the clock was read as `seen` says. -/
inductive Deals (key : Key P A) (seen : List Stamp) (env : Environment P A V E)
    (events : List (Event P A V E)) :
    Progress (Work P A V E) (Outcome (Result V E)) × Environment P A V E → Prop where
  /-- Nothing is written or published, and no result comes of the work. -/
  | withholds {progress : Progress (Work P A V E) (Outcome (Result V E))}
      {env' : Environment P A V E} (hushed : Hushed env events env')
      (hnone : ∀ delivery, progress ≠ .finished (.value (.ok delivery)))
      (honce : (seen ++ events.filterMap Event.reading?).length ≤ 1)
      (hstamp : ∀ rest, progress = .waiting rest →
        rest.stamp?.toList = seen ++ events.filterMap Event.reading?) :
      Deals key seen env events (progress, env')
  /-- A result comes of the work, which is then written and published. -/
  | delivers {env' : Environment P A V E} {value : V} {now : Stamp}
      (hushed : Hushed env events env')
      (hstamp : seen ++ events.filterMap Event.reading? = [now]) :
      Deals key seen env events
        (.finished (.value (.ok (Delivery.loaded value now))), delivered key value now env')

variable {key : Key P A} {seen : List Stamp} {env env' : Environment P A V E}
  {events events' : List (Event P A V E)} {polled : Polled P A V E}

/-- A deal may come after something that touches nothing, with the readings of the clock in it. -/
theorem Deals.after (h : Hushed env events env')
    (hdeals : Deals key (seen ++ events.filterMap Event.reading?) env' events' polled) :
    Deals key seen env (events ++ events') polled := by
  have hreadings : seen ++ (events ++ events').filterMap Event.reading? =
      seen ++ events.filterMap Event.reading? ++ events'.filterMap Event.reading? := by
    rw [List.filterMap_append, List.append_assoc]
  cases hdeals with
  | withholds hushed hnone honce hstamp =>
    refine .withholds (h.trans hushed) hnone ?_ fun rest hrest => ?_
    · rw [hreadings]
      exact honce
    · rw [hreadings]
      exact hstamp rest hrest
  | delivers hushed hstamp => exact .delivers (h.trans hushed) (hreadings.trans hstamp)

/-- Work that fails delivers nothing. -/
theorem deals_fail (key : Key P A) (failure : Failure E) (env : Environment P A V E) :
    ∃ events, Deals key [] env events (fail key failure env) := by
  obtain ⟨events, hpublished, hreadings⟩ :=
    hushed_publishFailure (env.note (.failed key failure)) key.params failure
  have hfailed : Hushed env [.failed key failure] (env.note (.failed key failure)) :=
    hushed_event rfl rfl rfl rfl rfl
  refine ⟨_, .withholds (hfailed.trans hpublished) (fun delivery h => by cases h) ?_
    fun rest h => by cases h⟩
  show (events.filterMap Event.reading?).length ≤ 1
  rw [hreadings]
  exact Nat.zero_le 1

/-- Work that has stored its value delivers it with the reading that it was given. -/
theorem deals_finishStoring (key : Key P A) (number : Nat) (value : V) (now : Stamp)
    (env : Environment P A V E) :
    Deals key [now] env [] (finishStoring key number value now env) := by
  unfold finishStoring
  split
  · exact .delivers (.refl env) rfl
  · refine .withholds (.refl env) (fun delivery h => by cases h) (Nat.le_refl 1) fun rest h => ?_
    cases h
    rfl

/-- Work that stores a value reads the clock once, and delivers the value or waits for the store. -/
theorem deals_store (key : Key P A) (number : Nat) (value : V) (env : Environment P A V E) :
    ∃ events, Deals key [] env events (store key number value env) := by
  have hclock : Hushed env [.clockRead env.readClock.1] env.readClock.2 :=
    hushed_event rfl rfl rfl rfl rfl
  unfold store
  rcases hread : env.readClock with ⟨now, env'⟩
  rw [hread] at hclock
  simp only
  split
  · exact ⟨_, .withholds hclock (fun delivery h => by cases h) (Nat.le_refl 1)
      fun rest h => by cases h⟩
  · exact ⟨_, .after hclock (deals_finishStoring key number value now env')⟩

/-- Work whose call has ended delivers its value, if it is one. -/
theorem deals_conclude (key : Key P A) (number : Nat) (ending : Ending V E)
    (env : Environment P A V E) :
    ∃ events, Deals key [] env events (conclude key number ending env) := by
  cases ending with
  | value value => exact deals_store key number value env
  | error error => exact deals_fail key (.source error) env
  | panic message => exact deals_fail key (.panicked message) env

/-- Work whose call is in progress delivers nothing before the call has ended. -/
theorem deals_proceed (key : Key P A) (number : Nat) (reply : Reply V E)
    (env : Environment P A V E) :
    ∃ events, Deals key [] env events (proceed key number reply env) := by
  unfold proceed
  split
  · refine ⟨[], .withholds (.refl env) (fun delivery h => by cases h) (Nat.zero_le 1)
      fun rest h => ?_⟩
    cases h
    rfl
  · have htime : Hushed env [] (reply.took.elim env env.advance) := by
      cases reply.took with
      | none => exact .refl env
      | some d =>
        exact ⟨(List.append_nil _).symm, rfl, rfl, List.forall_mem_nil _, List.forall_mem_nil _⟩
    obtain ⟨events, hdeals⟩ :=
      deals_conclude key number reply.ending (reply.took.elim env env.advance)
    exact ⟨_, .after htime hdeals⟩

/-- Work that calls the source delivers at most the value of that call. -/
theorem deals_begin (key : Key P A) (env : Environment P A V E) :
    ∃ events, Deals key [] env events (begin key env) := by
  have hcall : Hushed env [.called (env.called.length + 1) key] (env.callSource key).2 :=
    hushed_event rfl rfl rfl rfl rfl
  unfold begin
  rcases hcalls : env.callSource key with ⟨message | reply, env'⟩ <;> rw [hcalls] at hcall
  · exact ⟨_, .withholds hcall (fun delivery h => by cases h) (Nat.zero_le 1)
      fun rest h => by cases h⟩
  · obtain ⟨events, hdeals⟩ := deals_proceed key env'.called.length reply env'
    exact ⟨_, .after hcall hdeals⟩

/-- A poll of the work delivers a result, or touches neither the store nor the results. -/
theorem deals_poll (work : Work P A V E) (env : Environment P A V E) :
    ∃ events, Deals work.key work.stamp?.toList env events (work.poll env) := by
  cases work with
  | fresh key => exact deals_begin key env
  | calling key number reply => exact deals_proceed key number reply env
  | storing key number value now => exact ⟨[], deals_finishStoring key number value now env⟩

end Work

/-! ## The delivery -/

/-- The entry that is written for a delivery. -/
def Delivery.entry (delivery : Delivery V) : Entry V := ⟨delivery.value, delivery.stamp⟩

/-- The delivery that an outcome is. -/
def Outcome.delivery? : Outcome (Result V E) → Option (Delivery V)
  | .value (.ok delivery) => some delivery
  | .value (.error _) | .panicked _ => none

/-- The delivery that a poll of work ends with. -/
def Work.delivery? (progress : Progress (Work P A V E) (Outcome (Result V E))) :
    Option (Delivery V) := progress.result?.bind Outcome.delivery?

/-- Only a result is delivered. -/
theorem Outcome.delivery?_eq_some_iff {outcome : Outcome (Result V E)} {delivery : Delivery V} :
    outcome.delivery? = some delivery ↔ outcome = .value (.ok delivery) := by
  cases outcome with
  | panicked message => exact ⟨nofun, nofun⟩
  | value result =>
    cases result with
    | error failure => exact ⟨nofun, nofun⟩
    | ok d => simp [delivery?]

/-- Only work that has ended with a result delivers one. -/
theorem Work.delivery?_eq_some_iff {progress : Progress (Work P A V E) (Outcome (Result V E))}
    {delivery : Delivery V} :
    Work.delivery? progress = some delivery ↔ progress = .finished (.value (.ok delivery)) := by
  cases progress with
  | waiting rest => exact ⟨nofun, nofun⟩
  | finished outcome =>
    rw [Progress.finished.injEq]
    exact Outcome.delivery?_eq_some_iff

namespace Environment

section Write

variable [DecidableEq P] [DecidableEq A]

/-- The events of a write of the store. -/
def writeEvents (env : Environment P A V E) (key : Key P A) (entry : Entry V) :
    List (Event P A V E) :=
  .storeWritten key entry :: (env.store.put key entry).2.map fun (k, capacity) =>
    .evicted k capacity

/-- A write of the store tells of the write, and of what it has displaced. -/
theorem trace_writeStore (env : Environment P A V E) (key : Key P A) (entry : Entry V) :
    (env.writeStore key entry).trace = env.trace ++ env.writeEvents key entry := by
  simp [writeStore, writeEvents, noteAll, note]

/-- A write of the store is one write. -/
theorem writes_writeEvents (env : Environment P A V E) (key : Key P A) (entry : Entry V) :
    writes (env.writeEvents key entry) = [(key, entry)] := by
  have hgone : writes ((env.store.put key entry).2.map fun (k, capacity) =>
      (.evicted k capacity : Event P A V E)) = [] := by
    refine List.filterMap_eq_nil_iff.mpr fun event he => ?_
    obtain ⟨gone, -, rfl⟩ := List.mem_map.mp he
    rfl
  exact congrArg ((key, entry) :: ·) hgone

/-- What holds of the write and of all that is displaced holds of all events of a write. -/
theorem forall_writeEvents {env : Environment P A V E} {key : Key P A} {entry : Entry V}
    {p : Event P A V E → Prop} (hwritten : p (.storeWritten key entry))
    (hevicted : ∀ k capacity, p (.evicted k capacity)) :
    ∀ event ∈ env.writeEvents key entry, p event := by
  intro event he
  rcases List.mem_cons.mp he with rfl | he
  · exact hwritten
  · obtain ⟨⟨k, capacity⟩, -, rfl⟩ := List.mem_map.mp he
    exact hevicted k capacity

end Write

/-- The events of the publication of a result. -/
def updateEvents (env : Environment P A V E) (params : P) (delivery : Delivery V) :
    List (Event P A V E) :=
  .updatePublished params delivery ::
    if (env.updates.publish (params, delivery)).1 then [] else [.updateUnheard]

/-- A publication sends the delivery, and tells whether anybody heard it. -/
theorem publishUpdate_eq (env : Environment P A V E) (params : P) (delivery : Delivery V) :
    env.publishUpdate params delivery =
      { env with
        updates := (env.updates.publish (params, delivery)).2,
        trace := env.trace ++ env.updateEvents params delivery } := by
  unfold publishUpdate updateEvents
  rcases env.updates.publish (params, delivery) with ⟨heard, updates⟩
  cases heard with
  | true => rfl
  | false => simp [note]

/-- A publication is one publication. -/
theorem updates_updateEvents (env : Environment P A V E) (params : P) (delivery : Delivery V) :
    ReadThrough.updates (env.updateEvents params delivery) = [(params, delivery)] := by
  unfold updateEvents
  split <;> rfl

/-- The channel has carried a delivery that is published, if somebody has heard it. -/
theorem carries_publishUpdate (env : Environment P A V E) {messages : List (P × Delivery V)}
    (h : env.updates.Carries messages) (params : P) (delivery : Delivery V) :
    (env.publishUpdate params delivery).updates.Carries
      (heardUpdates (env.updateEvents params delivery) messages) := by
  have hcarries := h.publish (params, delivery)
  rw [publishUpdate_eq]
  unfold updateEvents
  cases hheard : (env.updates.publish (params, delivery)).1 with
  | true =>
    rw [hheard] at hcarries
    exact hcarries
  | false =>
    rw [hheard] at hcarries
    show Channel.Carries _ ((messages ++ [(params, delivery)]).dropLast)
    rw [List.dropLast_concat]
    exact hcarries

end Environment

namespace Work

variable [DecidableEq P] [DecidableEq A]

/-- The events of writing a value and publishing its delivery. -/
def deliveryEvents (key : Key P A) (value : V) (now : Stamp) (env : Environment P A V E) :
    List (Event P A V E) :=
  env.writeEvents key (Entry.stamped value now) ++
    (.succeeded key now :: ((env.writeStore key (Entry.stamped value now)).note
      (.succeeded key now)).updateEvents key.params (Delivery.loaded value now))

section Delivered

variable (key : Key P A) (value : V) (now : Stamp) (env : Environment P A V E)

/-- To deliver a value tells of the write first and of the publication then. -/
theorem trace_delivered : (delivered key value now env).trace =
    env.trace ++ deliveryEvents key value now env := by
  rw [delivered, Environment.publishUpdate_eq]
  show (env.writeStore key (Entry.stamped value now)).trace ++ [_] ++ _ = _
  rw [Environment.trace_writeStore, deliveryEvents, List.append_assoc, List.append_assoc]
  rfl

/-- A value that is delivered is written with its stamp. -/
theorem store_delivered : (delivered key value now env).store =
    (env.store.put key (Entry.stamped value now)).1 := by
  rw [delivered, Environment.publishUpdate_eq]
  rfl

/-- A value that is delivered is published with its stamp. -/
theorem updates_delivered : (delivered key value now env).updates =
    (env.updates.publish (key.params, Delivery.loaded value now)).2 := by
  rw [delivered, Environment.publishUpdate_eq]
  rfl

/-- To deliver a value writes it once. -/
theorem writes_deliveryEvents :
    writes (deliveryEvents key value now env) = [(key, Entry.stamped value now)] := by
  have hupdate : ∀ env' : Environment P A V E, writes (.succeeded key now ::
      env'.updateEvents key.params (Delivery.loaded value now)) = [] := by
    intro env'
    unfold Environment.updateEvents
    split <;> rfl
  rw [deliveryEvents, writes_append, Environment.writes_writeEvents, hupdate, List.append_nil]

/-- To deliver a value publishes it once. -/
theorem updates_deliveryEvents :
    updates (deliveryEvents key value now env) = [(key.params, Delivery.loaded value now)] := by
  have hwrite : updates (env.writeEvents key (Entry.stamped value now)) = [] :=
    List.filterMap_eq_nil_iff.mpr (Environment.forall_writeEvents rfl fun k capacity => rfl)
  rw [deliveryEvents, updates_append, hwrite, List.nil_append]
  exact Environment.updates_updateEvents _ key.params (Delivery.loaded value now)

/-- What holds of the write and of the publication holds of all events of a delivery. -/
theorem forall_deliveryEvents {p : Event P A V E → Prop}
    (hwritten : ∀ key entry, p (.storeWritten key entry))
    (hevicted : ∀ key capacity, p (.evicted key capacity))
    (hsucceeded : ∀ key now, p (.succeeded key now))
    (hpublished : ∀ params delivery, p (.updatePublished params delivery))
    (hunheard : p .updateUnheard) : ∀ event ∈ deliveryEvents key value now env, p event := by
  refine List.forall_mem_append.mpr ⟨Environment.forall_writeEvents (hwritten _ _) hevicted, ?_⟩
  refine List.forall_mem_cons.mpr ⟨hsucceeded _ _, List.forall_mem_cons.mpr ⟨hpublished _ _, ?_⟩⟩
  split
  · exact List.forall_mem_nil _
  · exact List.forall_mem_singleton.mpr hunheard

/-- The channel has carried a value that is delivered, if somebody has heard it. -/
theorem carries_delivered {messages : List (P × Delivery V)} (h : env.updates.Carries messages) :
    (delivered key value now env).updates.Carries
      (heardUpdates (deliveryEvents key value now env) messages) := by
  have hwrite : heardUpdates (env.writeEvents key (Entry.stamped value now)) messages = messages :=
    foldl_of_forall (Environment.forall_writeEvents (fun _ => rfl) fun _ _ _ => rfl) messages
  rw [deliveryEvents, heardUpdates_append, hwrite]
  exact Environment.carries_publishUpdate
    ((env.writeStore key (Entry.stamped value now)).note (.succeeded key now)) h key.params
    (Delivery.loaded value now)

end Delivered

/-! ## Polls of an execution -/

/-- What a poll of work as an execution does, by its events. -/
structure Yields (work : Work P A V E) (env : Environment P A V E)
    (progress : Progress (Work P A V E) (Outcome (Result V E))) (env' : Environment P A V E)
    (events : List (Event P A V E)) : Prop where
  trace : env'.trace = env.trace ++ events
  writes : writes events = (delivery? progress).toList.map fun d => (work.key, d.entry)
  updates : updates events = (delivery? progress).toList.map fun d => (work.key.params, d)
  loaded : ∀ d, delivery? progress = some d → ∃ value now, d = Delivery.loaded value now
  noFinding : ∀ event ∈ events, event.isFinding = false
  once : (work.stamp?.toList ++ events.filterMap Event.reading?).length ≤ 1
  waiting : ∀ rest, progress = .waiting rest →
    rest.stamp?.toList = work.stamp?.toList ++ events.filterMap Event.reading?
  stamped : ∀ d, delivery? progress = some d →
    d.stamp.toList = work.stamp?.toList ++ events.filterMap Event.reading?
  carries : ∀ messages, env.updates.Carries messages →
    env'.updates.Carries (heardUpdates events messages)

/-- The end of an execution touches nothing and reads nothing. -/
theorem closing_untouched (execution : Option Nat) (work : Work P A V E)
    (env : Environment P A V E) :
    ∀ event ∈ work.closing execution env, event.touches = false ∧ event.isFinding = false ∧
      event.reading? = none := by
  unfold closing
  split
  · exact List.forall_mem_nil _
  · exact List.forall_mem_singleton.mpr ⟨rfl, rfl, rfl⟩

section Yields

variable {work : Work P A V E} {env env' : Environment P A V E}
  {progress : Progress (Work P A V E) (Outcome (Result V E))}
  {events closing : List (Event P A V E)}

omit [DecidableEq P] [DecidableEq A] in
/-- A poll that delivers nothing writes and publishes nothing. -/
theorem yields_withheld (hushed : Hushed env events env') (hnone : delivery? progress = none)
    (honce : (work.stamp?.toList ++ events.filterMap Event.reading?).length ≤ 1)
    (hstamp : ∀ rest, progress = .waiting rest →
      rest.stamp?.toList = work.stamp?.toList ++ events.filterMap Event.reading?) :
    Yields work env progress env' events := by
  have hnothing : ∀ d, delivery? progress ≠ some d := fun d hd => by
    rw [hnone] at hd
    cases hd
  refine ⟨hushed.trace, ?_, ?_, fun d hd => absurd hd (hnothing d), hushed.noFinding, honce, hstamp,
    fun d hd => absurd hd (hnothing d), fun messages hcarries => ?_⟩
  · rw [hnone]
    exact writes_of_untouched hushed.untouched
  · rw [hnone]
    exact updates_of_untouched hushed.untouched
  · rw [heardUpdates_of_untouched hushed.untouched]
    exact hushed.updates.symm ▸ hcarries

/-- A poll that delivers writes and publishes its value, with the one reading that the work has
made. -/
theorem yields_delivered {value : V} {now : Stamp} (hushed : Hushed env events env')
    (hstamp : work.stamp?.toList ++ events.filterMap Event.reading? = [now]) :
    Yields work env (.finished (.value (.ok (Delivery.loaded value now))))
      (delivered work.key value now env') (events ++ deliveryEvents work.key value now env') := by
  have hfinding : ∀ event ∈ deliveryEvents work.key value now env', event.isFinding = false :=
    forall_deliveryEvents _ _ _ _ (fun _ _ => rfl) (fun _ _ => rfl) (fun _ _ => rfl)
      (fun _ _ => rfl) rfl
  have hquiet : (deliveryEvents work.key value now env').filterMap Event.reading? = [] :=
    List.filterMap_eq_nil_iff.mpr (forall_deliveryEvents _ _ _ _ (fun _ _ => rfl)
      (fun _ _ => rfl) (fun _ _ => rfl) (fun _ _ => rfl) rfl)
  have hreadings : work.stamp?.toList ++
      (events ++ deliveryEvents work.key value now env').filterMap Event.reading? = [now] := by
    rw [List.filterMap_append, hquiet, List.append_nil, hstamp]
  refine ⟨?_, ?_, ?_, fun d hd => ?_, List.forall_mem_append.mpr ⟨hushed.noFinding, hfinding⟩,
    ?_, fun rest hrest => ?_, fun d hd => ?_, fun messages hcarries => ?_⟩
  · rw [trace_delivered, hushed.trace, List.append_assoc]
  · rw [writes_append, writes_of_untouched hushed.untouched, writes_deliveryEvents]
    rfl
  · rw [updates_append, updates_of_untouched hushed.untouched, updates_deliveryEvents]
    rfl
  · cases hd
    exact ⟨value, now, rfl⟩
  · rw [hreadings]
    exact Nat.le_refl 1
  · cases hrest
  · cases hd
    rw [hreadings]
    rfl
  · rw [heardUpdates_append, heardUpdates_of_untouched hushed.untouched]
    exact carries_delivered work.key value now env' (hushed.updates.symm ▸ hcarries)

omit [DecidableEq P] [DecidableEq A] in
/-- An end that is told afterwards changes nothing. -/
theorem Yields.noteAll (h : Yields work env progress env' events)
    (hclosing : ∀ event ∈ closing, event.touches = false ∧ event.isFinding = false ∧
      event.reading? = none) :
    Yields work env progress (env'.noteAll closing) (events ++ closing) := by
  have huntouched : ∀ event ∈ closing, event.touches = false :=
    fun event he => (hclosing event he).1
  have hreading : closing.filterMap Event.reading? = [] :=
    List.filterMap_eq_nil_iff.mpr fun event he => (hclosing event he).2.2
  have hreadings : (events ++ closing).filterMap Event.reading? =
      events.filterMap Event.reading? := by
    rw [List.filterMap_append, hreading, List.append_nil]
  refine ⟨?_, ?_, ?_, h.loaded, ?_, ?_, ?_, ?_, fun messages hcarries => ?_⟩
  · show env'.trace ++ closing = _
    rw [h.trace, List.append_assoc]
  · rw [writes_append, h.writes, writes_of_untouched huntouched, List.append_nil]
  · rw [updates_append, h.updates, updates_of_untouched huntouched, List.append_nil]
  · exact List.forall_mem_append.mpr ⟨h.noFinding, fun event he => (hclosing event he).2.1⟩
  · rw [hreadings]
    exact h.once
  · rw [hreadings]
    exact h.waiting
  · rw [hreadings]
    exact h.stamped
  · rw [heardUpdates_append, heardUpdates_of_untouched huntouched]
    exact h.carries messages hcarries

/-- Every poll of work yields what its events tell. -/
theorem yields_pollAs (execution : Option Nat) (work : Work P A V E) (env : Environment P A V E) :
    ∃ events,
      Yields work env (work.pollAs execution env).1 (work.pollAs execution env).2 events := by
  obtain ⟨events, hdeals⟩ := deals_poll work env
  have hpolled : ∃ told, Yields work env (work.poll env).1 (work.poll env).2 told := by
    generalize work.poll env = polled at hdeals
    cases hdeals with
    | withholds hushed hnone honce hstamp =>
      have hdelivery := Option.eq_none_iff_forall_ne_some.mpr fun d hd =>
        hnone d (delivery?_eq_some_iff.mp hd)
      exact ⟨events, yields_withheld hushed hdelivery honce hstamp⟩
    | delivers hushed hstamp => exact ⟨_, yields_delivered hushed hstamp⟩
  obtain ⟨told, hyields⟩ := hpolled
  rw [pollAs_eq]
  exact ⟨_, hyields.noteAll (closing_untouched execution work env)⟩

end Yields

end Work

end ReadThrough
