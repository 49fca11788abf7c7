import ReadThrough.Builder
import ReadThrough.Proofs.Call.Lockstep
import ReadThrough.Proofs.Channel.Lag
import ReadThrough.Proofs.Session.Closing
import ReadThrough.Proofs.Session.Ledger
/-!
# Proofs: the two channels

There are two channels to subscribe to, of results and of failures (`Topic`), and what holds of one
of them holds of the other. Throughout every run a channel has as many subscribers as there are
tasks that listen to it, and its ring is as full as it can be (`Session.aware_run`). Whatever is
done to some of the tasks, all others that listen are sent what is published meanwhile
(`Session.lifts_relayed`).
-/

namespace ReadThrough

variable {P A V E : Type}

/-! ## Topics -/

/-- What can be subscribed to. -/
inductive Topic where
  /-- The results of the source. -/
  | updates
  /-- The failures of the source. -/
  | errors
  deriving DecidableEq

namespace Channel

variable {M N : Type}

/-- The channel with other messages. -/
def map (f : M → N) (c : Channel M) : Channel N where
  length := c.length
  buffer := c.buffer.map f
  sent := c.sent
  subscribers := c.subscribers
  closed := c.closed

/-- A message is sent in another form as its other form. -/
theorem map_publish (f : M → N) (c : Channel M) (message : M) :
    (c.publish message).2.map f = ((c.map f).publish (f message)).2 := by
  have hsame : (c.map f).subscribers = c.subscribers := rfl
  unfold publish
  rw [hsame]
  split
  · rfl
  · simp [map, List.map_drop]

@[simp] theorem oldest_map (f : M → N) (c : Channel M) : (c.map f).oldest = c.oldest := by
  simp [oldest, map]

@[simp] theorem missed_map (f : M → N) (c : Channel M) (position : Nat) :
    (c.map f).missed position = c.missed position := by simp [missed]

@[simp] theorem unread_map (f : M → N) (c : Channel M) (position : Nat) :
    (c.map f).unread position = (c.unread position).map f := by
  rw [unread, oldest_map, unread, List.map_drop]
  rfl

theorem full_map (f : M → N) (c : Channel M) : (c.map f).Full ↔ c.Full := by
  simp [Full, map]

/-- A subscriber reads from the channel with other messages what it reads from the channel, in the
other form. -/
theorem receive_map (f : M → N) (c : Channel M) (position : Nat) :
    (c.map f).receive (fun _ => true) position =
      ((c.receive (fun _ => true) position).1,
        match (c.receive (fun _ => true) position).2 with
        | .message m position => .message (f m) position
        | .nothing position => .nothing position
        | .ended => .ended) := by
  unfold receive
  rw [unread_map, missed_map, oldest_map]
  cases c.unread position with
  | cons m rest => rfl
  | nil =>
    show (_, receive.scan (c.map f) (fun _ => true) _ []) = _
    unfold receive.scan
    show (_, if c.closed then _ else _) = _
    cases c.closed <;> rfl

end Channel

namespace Topic

def name : Topic → String
  | .updates => "updates"
  | .errors => "errors"

/-- The request to subscribe. -/
def request : Topic → Request P A V
  | .updates => .updates
  | .errors => .errors

/-- A subscriber at a position. -/
def task : Topic → Nat → Task P A V E
  | .updates, position => .updates position
  | .errors, position => .errors position

/-- The channel, with the items that subscribers are given as messages. -/
def channel (topic : Topic) (v : Outputs P A V E) : Channel (Item P V E) :=
  match topic with
  | .updates => v.updates.map fun m => .update m.1 m.2
  | .errors => v.errors.map fun m => .error m.1 m.2

/-- The item for an event that is a publication on the channel. -/
def item? : Topic → Event P A V E → Option (Item P V E)
  | .updates, .updatePublished params delivery => some (.update params delivery)
  | .errors, .failurePublished params failure => some (.error params failure)
  | _, _ => none

/-- What is published on the channel, in order. -/
def published (topic : Topic) (events : List (Event P A V E)) : List (Item P V E) :=
  events.filterMap topic.item?

/-- How many subscriptions to the channel a task holds. -/
def listening : Topic → Task P A V E → Nat
  | .updates, .watch _ | .updates, .updates _ | .errors, .errors _ => 1
  | _, _ => 0

/-- A task that has ended listens to nothing. -/
theorem listening_ended (topic : Topic) : topic.listening (.ended : Task P A V E) = 0 := by
  cases topic <;> rfl

/-- A subscriber leaves. -/
def leave (topic : Topic) (c : Cache P A V E) : Cache P A V E :=
  match topic with
  | .updates => { c with env.updates := c.env.updates.unsubscribe }
  | .errors => { c with env.errors := c.env.errors.unsubscribe }

section Events

variable {topic : Topic} {event : Event P A V E} {events events' : List (Event P A V E)}

/-- What is published goes on with the events. -/
theorem published_append (topic : Topic) (events events' : List (Event P A V E)) :
    topic.published (events ++ events') = topic.published events ++ topic.published events' :=
  List.filterMap_append

/-- An event that publishes nothing has no item on any channel. -/
theorem item?_eq_none (h : event.publishes = false) : topic.item? event = none := by
  cases event <;> cases topic <;> first | rfl | cases h

/-- Events that publish nothing are no items on any channel. -/
theorem published_eq_nil (h : ∀ event ∈ events, event.publishes = false) :
    topic.published events = [] :=
  List.filterMap_eq_nil_iff.mpr fun event hevent => item?_eq_none (h event hevent)

end Events

end Topic

/-! ## Publications -/

namespace Outputs

variable (v : Outputs P A V E) (params : P)

/-- To publish an update is told, and that nobody was there to hear it. -/
theorem trace_publishUpdate (delivery : Delivery V) :
    (v.publishUpdate params delivery).trace = v.trace ++ .updatePublished params delivery ::
      if (v.updates.publish (params, delivery)).1 then [] else [.updateUnheard] := by
  unfold Outputs.publishUpdate
  dsimp only
  split
  · rfl
  · exact List.append_assoc _ [_] [_]

/-- To publish a failure is told, and that nobody was there to hear it. -/
theorem trace_publishFailure (failure : Failure E) :
    (v.publishFailure params failure).trace = v.trace ++ .failurePublished params failure ::
      if (v.errors.publish (params, failure)).1 then [] else [.failureUnheard] := by
  unfold Outputs.publishFailure
  dsimp only
  split
  · rfl
  · exact List.append_assoc _ [_] [_]

/-- An update is sent on the channel of updates and on no other. -/
theorem channel_publishUpdate (delivery : Delivery V) (topic : Topic) :
    topic.channel (v.publishUpdate params delivery) = if topic = .updates
      then ((topic.channel v).publish (.update params delivery)).2 else topic.channel v := by
  have houtputs : (v.publishUpdate params delivery).updates =
        (v.updates.publish (params, delivery)).2 ∧
      (v.publishUpdate params delivery).errors = v.errors := by
    unfold Outputs.publishUpdate
    dsimp only
    split <;> exact ⟨rfl, rfl⟩
  cases topic with
  | updates =>
    rw [Topic.channel, houtputs.1]
    exact Channel.map_publish _ _ _
  | errors =>
    rw [Topic.channel, houtputs.2]
    rfl

/-- A failure is sent on the channel of failures and on no other. -/
theorem channel_publishFailure (failure : Failure E) (topic : Topic) :
    topic.channel (v.publishFailure params failure) = if topic = .errors
      then ((topic.channel v).publish (.error params failure)).2 else topic.channel v := by
  have houtputs : (v.publishFailure params failure).updates = v.updates ∧
      (v.publishFailure params failure).errors =
        (v.errors.publish (params, failure)).2 := by
    unfold Outputs.publishFailure
    dsimp only
    split <;> exact ⟨rfl, rfl⟩
  cases topic with
  | updates =>
    rw [Topic.channel, houtputs.1]
    rfl
  | errors =>
    rw [Topic.channel, houtputs.2]
    exact Channel.map_publish _ _ _

end Outputs

/-! ## What is sent -/

/-- What is published on the way from some outputs to others is sent on the channels. -/
def Outputs.Sends (v v' : Outputs P A V E) : Prop :=
  ∃ events, v'.trace = v.trace ++ events ∧ ∀ (topic : Topic) (k : Nat),
    (topic.channel v).Relays k k (topic.published events) (topic.channel v')

namespace Outputs.Sends

variable {v v' v'' : Outputs P A V E}

/-- Where nothing is published nothing is sent. -/
theorem refl (v : Outputs P A V E) : v.Sends v :=
  ⟨[], (List.append_nil _).symm, fun _ k => .refl k _⟩

/-- What is sent in two parts is sent. -/
theorem trans (h : v.Sends v') (h' : v'.Sends v'') : v.Sends v'' := by
  obtain ⟨events, htrace, hrelays⟩ := h
  obtain ⟨events', htrace', hrelays'⟩ := h'
  refine ⟨events ++ events', by rw [htrace', htrace, List.append_assoc], fun topic k => ?_⟩
  rw [Topic.published_append]
  exact (hrelays topic k).trans (hrelays' topic k)

/-- An event that publishes nothing sends nothing. -/
theorem note (v : Outputs P A V E) {event : Event P A V E} (h : event.publishes = false) :
    v.Sends (v.note event) := by
  refine ⟨[event], rfl, fun topic k => ?_⟩
  rw [Topic.published_eq_nil (List.forall_mem_singleton.mpr h)]
  cases topic <;> exact .refl k _

/-- Something is published on one of the channels, and perhaps nobody hears it. -/
theorem publish (told : Topic) (item : Item P V E) (event unheard : Event P A V E) (heard : Bool)
    (htrace : v'.trace = v.trace ++ event :: if heard then [] else [unheard])
    (hitem : ∀ topic : Topic, topic.item? event = if topic = told then some item else none)
    (hunheard : ∀ topic : Topic, topic.item? unheard = none)
    (hchannel : ∀ topic : Topic, topic.channel v' =
      if topic = told then ((topic.channel v).publish item).2 else topic.channel v) :
    v.Sends v' := by
  refine ⟨_, htrace, fun topic k => ?_⟩
  have hnone : topic.published (if heard then [] else [unheard]) = [] := by
    split
    · rfl
    · exact List.filterMap_cons_none (hunheard topic)
  have hpublished : topic.published (event :: if heard then [] else [unheard]) =
      (topic.item? event).toList := by
    rw [← List.singleton_append, Topic.published_append, hnone, List.append_nil, Topic.published,
      List.filterMap_cons, List.filterMap_nil]
    cases topic.item? event <;> rfl
  rw [hpublished, hitem, hchannel]
  split
  · exact Channel.relays_publish k _ item
  · exact .refl k _

/-- An update that is published is sent. -/
theorem publishUpdate (v : Outputs P A V E) (params : P) (delivery : Delivery V) :
    v.Sends (v.publishUpdate params delivery) := by
  refine publish .updates (.update params delivery) (.updatePublished params delivery)
    .updateUnheard (v.updates.publish (params, delivery)).1 ?_ ?_ ?_ ?_
  · exact v.trace_publishUpdate params delivery
  · rintro (_ | _) <;> rfl
  · rintro (_ | _) <;> rfl
  · exact v.channel_publishUpdate params delivery

/-- A failure that is published is sent. -/
theorem publishFailure (v : Outputs P A V E) (params : P) (failure : Failure E) :
    v.Sends (v.publishFailure params failure) := by
  refine publish .errors (.error params failure) (.failurePublished params failure)
    .failureUnheard (v.errors.publish (params, failure)).1 ?_ ?_ ?_ ?_
  · exact v.trace_publishFailure params failure
  · rintro (_ | _) <;> rfl
  · rintro (_ | _) <;> rfl
  · exact v.channel_publishFailure params failure

/-- All that is done to the outputs sends what is published. -/
theorem kept (v₀ : Outputs P A V E) : Outputs.Kept fun v v' => v' = v ∧ v₀.Sends v where
  note := by
    rintro v _ event hevent ⟨rfl, h⟩
    exact ⟨rfl, h.trans (.note _ hevent)⟩
  publishUpdate := by
    rintro v _ params delivery ⟨rfl, h⟩
    exact ⟨rfl, h.trans (.publishUpdate _ params delivery)⟩
  publishFailure := by
    rintro v _ params failure ⟨rfl, h⟩
    exact ⟨rfl, h.trans (.publishFailure _ params failure)⟩

/-- A reader of updates finds the same in the same outputs, and sends nothing. -/
theorem heard (v₀ : Outputs P A V E) :
    Outputs.Heard Outputs.updates fun p p' v v' => p' = p ∧ v' = v ∧ v₀.Sends v where
  missed := by
    rintro p _ v _ ⟨rfl, rfl, -⟩
    rfl
  unread := by
    rintro p _ v _ ⟨rfl, rfl, -⟩
    rfl
  closed := by
    rintro p _ v _ ⟨rfl, rfl, -⟩
    rfl
  goes := by
    rintro p _ v _ ⟨rfl, h⟩ k -
    exact ⟨by rw [h.1], h⟩

end Outputs.Sends

/-- From one cache to another something is told, and what of it is published on a channel is
relayed, while some subscribers come and go, `k` before and `k'` after. -/
def Topic.Relayed (topic : Topic) (k k' : Nat) (c c' : Cache P A V E) : Prop :=
  ∃ events, c'.env.trace = c.env.trace ++ events ∧
    (topic.channel c.env.outputs).Relays k k' (topic.published events)
    (topic.channel c'.env.outputs)

namespace Topic.Relayed

variable {topic : Topic} {k k' k'' : Nat} {c c' c'' : Cache P A V E}

/-- Where nothing happens nothing needs to be relayed. -/
theorem refl (topic : Topic) (k : Nat) (c : Cache P A V E) : topic.Relayed k k c c :=
  ⟨[], (List.append_nil _).symm, .refl k _⟩

/-- What is relayed in two parts is relayed. -/
theorem trans (h : topic.Relayed k k' c c') (h' : topic.Relayed k' k'' c' c'') :
    topic.Relayed k k'' c c'' := by
  obtain ⟨events, htrace, hrelays⟩ := h
  obtain ⟨events', htrace', hrelays'⟩ := h'
  refine ⟨events ++ events', by rw [htrace', htrace, List.append_assoc], ?_⟩
  rw [published_append]
  exact hrelays.trans hrelays'

/-- What is sent while no subscriber comes or goes is relayed. -/
theorem of_sends (topic : Topic) (k : Nat) (h : c.env.outputs.Sends c'.env.outputs) :
    topic.Relayed k k c c' := by
  obtain ⟨events, htrace, hrelays⟩ := h
  exact ⟨events, htrace, hrelays topic k⟩

/-- A subscriber leaves, of the channel or of the other one. -/
theorem leave (topic left : Topic) (c : Cache P A V E) :
    topic.Relayed (if topic = left then 1 else 0) 0 c (left.leave c) := by
  refine ⟨[], ?_, ?_⟩
  · cases left <;> exact (List.append_nil _).symm
  · cases topic <;> cases left
    · exact Channel.relays_unsubscribe 0 _
    · exact .refl 0 _
    · exact .refl 0 _
    · exact Channel.relays_unsubscribe 0 _

/-- To note what a subscriber has missed publishes nothing. -/
theorem noteMissed (topic : Topic) (k : Nat) (c : Cache P A V E) (channel : String)
    (missed : Nat) : topic.Relayed k k c (c.noteMissed channel missed) := by
  unfold Cache.noteMissed
  split
  · exact .refl topic k c
  · exact .of_sends topic k (.note _ rfl)

end Topic.Relayed

/-! ## Tasks -/

section Tasks

variable [DecidableEq P] [DecidableEq A]

omit [DecidableEq P] [DecidableEq A] in
/-- What is done to the outputs of a cache, and to nothing else, sends what is published. -/
theorem Cache.alike_sends (c : Cache P A V E) :
    Cache.Alike (fun v v' => v' = v ∧ c.env.outputs.Sends v) c c :=
  ⟨⟨c.env.outputs, rfl, rfl, .refl _⟩, rfl⟩

/-- A watch never ends by itself. -/
theorem Watch.isLast_poll [DecidableEq V] (w : Watch P A V E) (c : Cache P A V E) :
    (w.poll c).1.isLast = false := by
  have hallowed : w.Allowed fun _ _ => True := trivial
  have hpursued : Watch.Pursued _ 0 _ _ _ := Watch.pursued_poll hallowed c 0
  exact hpursued.endless

namespace Task

variable {topic : Topic}

omit [DecidableEq P] [DecidableEq A] in
/-- A new task that listens is one subscriber more. -/
theorem relayed_create (topic : Topic) (c : Cache P A V E) (request : Request P A V) :
    topic.Relayed 0 (topic.listening (create c request).1) c (create c request).2 := by
  have hnone := (List.append_nil c.env.trace).symm
  cases request with
  | stream whole key plan terms => cases topic <;> exact .refl _ 0 c
  | fetch params policy terms => cases topic <;> exact .refl _ 0 c
  | watch params retries =>
    cases topic
    · exact ⟨[], hnone, Channel.relays_subscribe 0 _⟩
    · exact ⟨[], hnone, .refl 0 _⟩
  | updates =>
    cases topic
    · exact ⟨[], hnone, Channel.relays_subscribe 0 _⟩
    · exact ⟨[], hnone, .refl 0 _⟩
  | errors =>
    cases topic
    · exact ⟨[], hnone, .refl 0 _⟩
    · exact ⟨[], hnone, Channel.relays_subscribe 0 _⟩

/-- A task that is dropped takes its subscriptions with it. -/
theorem relayed_drop (topic : Topic) (task : Task P A V E) (c : Cache P A V E) :
    topic.Relayed (topic.listening task) 0 c (task.drop c) := by
  have hcall : ∀ (call : Call P A V E) (c : Cache P A V E),
      topic.Relayed 0 0 c (call.drop c) := fun call c =>
    have halike := call.alike_drop (Outputs.Sends.kept _).toNoting.quiet c.alike_sends
    .of_sends topic 0 halike.env.outputs.2
  cases task with
  | call whole call => cases topic <;> exact hcall call c
  | fetch f => cases topic <;> exact hcall f.call c
  | updates position => cases topic <;> exact .leave _ .updates c
  | errors position => cases topic <;> exact .leave _ .errors c
  | ended => cases topic <;> exact .refl _ 0 c
  | watch w =>
    have hleaves : topic.Relayed (topic.listening (.watch w : Task P A V E)) 0 c
        (Topic.updates.leave c) := by
      cases topic <;> exact .leave _ .updates c
    show topic.Relayed _ 0 c (w.drop c)
    unfold Watch.drop
    cases w.inquiry with
    | answered => exact hleaves
    | loading remaining load =>
      have hdrops :=
        load.alike_drop (Outputs.Sends.kept _).toNoting.quiet (Topic.updates.leave c).alike_sends
      exact hleaves.trans (.of_sends topic 0 hdrops.env.outputs.2)

/-- A task that is dropped publishes nothing. -/
theorem still_drop (topic : Topic) (task : Task P A V E) (c : Cache P A V E) :
    (topic.channel c.env.outputs).Still (topic.channel (task.drop c).env.outputs) := by
  let Same (v v' : Outputs P A V E) : Prop :=
    v' = v ∧ ∀ topic : Topic, (topic.channel c.env.outputs).Still (topic.channel v)
  have hnoting : Outputs.Noting Same := ⟨by
    rintro v _ event - ⟨rfl, h⟩
    exact ⟨rfl, fun topic => by cases topic <;> exact h _⟩⟩
  have halike : ∀ c' : Cache P A V E,
      (∀ topic : Topic, (topic.channel c.env.outputs).Still (topic.channel c'.env.outputs)) →
      Cache.Alike Same c' c' := fun c' h => ⟨⟨c'.env.outputs, rfl, rfl, h⟩, rfl⟩
  have hsame := halike c fun _ => ⟨rfl, rfl⟩
  cases task with
  | call whole call => exact (call.alike_drop hnoting.quiet hsame).env.outputs.2 topic
  | fetch f => exact (f.call.alike_drop hnoting.quiet hsame).env.outputs.2 topic
  | ended => exact ⟨rfl, rfl⟩
  | updates position => cases topic <;> exact ⟨rfl, rfl⟩
  | errors position => cases topic <;> exact ⟨rfl, rfl⟩
  | watch w =>
    have hleaves : ∀ topic : Topic, (topic.channel c.env.outputs).Still
        (topic.channel (Topic.updates.leave c).env.outputs) := fun topic => by
      cases topic <;> exact ⟨rfl, rfl⟩
    show (topic.channel c.env.outputs).Still (topic.channel (w.drop c).env.outputs)
    unfold Watch.drop
    cases w.inquiry with
    | answered => exact hleaves topic
    | loading remaining load =>
      exact (load.alike_drop hnoting.quiet (halike _ hleaves)).env.outputs.2 topic

variable [DecidableEq V]

/-- A poll of a subscriber reads the channel. -/
theorem poll_task (topic : Topic) (position : Nat) (c : Cache P A V E) :
    (topic.task position : Task P A V E).poll c =
      let found := (topic.channel c.env.outputs).receive (fun _ => true) position
      let told := c.noteMissed topic.name found.1
      match found.2 with
      | .message item position => (.answer (.item item), topic.task position, told)
      | .nothing position => (.answer .pending, topic.task position, told)
      | .ended => (.answer .done, .ended, topic.leave told) := by
  cases topic with
  | updates =>
    simp only [Topic.channel, Channel.receive_map]
    unfold Topic.task poll
    dsimp only [Environment.outputs]
    rcases c.env.updates.receive (fun _ => true) position with ⟨missed, received⟩
    cases received <;> rfl
  | errors =>
    simp only [Topic.channel, Channel.receive_map]
    unfold Topic.task poll
    dsimp only [Environment.outputs]
    rcases c.env.errors.receive (fun _ => true) position with ⟨missed, received⟩
    cases received <;> rfl

/-- A subscriber that reads keeps its subscription until the channel has ended. -/
theorem relayed_task (topic told : Topic) (position : Nat) (c : Cache P A V E) :
    topic.Relayed (if topic = told then 1 else 0)
      (topic.listening ((told.task position : Task P A V E).poll c).2.1) c
      ((told.task position : Task P A V E).poll c).2.2 := by
  have hlistens : ∀ position, topic.listening (told.task position : Task P A V E) =
      if topic = told then 1 else 0 := fun position => by cases topic <;> cases told <;> rfl
  rw [poll_task]
  rcases (told.channel c.env.outputs).receive (fun _ => true) position with ⟨missed, received⟩
  have hmissed := Topic.Relayed.noteMissed topic (if topic = told then 1 else 0) c told.name missed
  cases received with
  | message item position =>
    rw [← hlistens position] at hmissed ⊢
    exact hmissed
  | nothing position =>
    rw [← hlistens position] at hmissed ⊢
    exact hmissed
  | ended =>
    show topic.Relayed _ (topic.listening .ended) c _
    rw [topic.listening_ended]
    exact hmissed.trans (.leave topic told _)

/-- A poll of any task relays what it publishes, and takes the subscriptions along that the task
gives up. -/
theorem relayed_poll (topic : Topic) (task : Task P A V E) (c : Cache P A V E) :
    topic.Relayed (topic.listening task) (topic.listening (task.poll c).2.1) c
      (task.poll c).2.2 := by
  cases task with
  | ended => exact .refl topic _ c
  | updates position => cases topic <;> exact relayed_task _ .updates position c
  | errors position => cases topic <;> exact relayed_task _ .errors position c
  | call whole call =>
    have hpoll := (call.alike_poll (Outputs.Sends.kept _).lockstep c.alike_sends).2.2
    have hnone : topic.listening (.call whole (call.poll c).2.1 : Task P A V E) = 0 := by
      cases topic <;> rfl
    show topic.Relayed _ (topic.listening (after (call.poll c).1 (.call whole (call.poll c).2.1))) c
      (call.poll c).2.2
    rw [weight_after topic.listening_ended _ fun _ => hnone, hnone]
    cases topic <;> exact .of_sends _ 0 hpoll.env.outputs.2
  | fetch f =>
    have hpoll := (f.alike_poll (Outputs.Sends.kept _).lockstep c.alike_sends).2.2
    have hnone : topic.listening (.fetch (f.poll c).2.1 : Task P A V E) = 0 := by
      cases topic <;> rfl
    show topic.Relayed _ (topic.listening (after (f.poll c).1 (.fetch (f.poll c).2.1))) c
      (f.poll c).2.2
    rw [weight_after topic.listening_ended _ fun _ => hnone, hnone]
    cases topic <;> exact .of_sends _ 0 hpoll.env.outputs.2
  | watch w =>
    have hstarts : Watch.Alike
        (fun p p' => Environment.Alike fun v v' => p' = p ∧ v' = v ∧ c.env.outputs.Sends v) (w, c)
        (w, c) := ⟨rfl, ⟨c.env.outputs, rfl, rfl, rfl, .refl _⟩, rfl⟩
    have hpoll := Watch.alike_poll (fun _ _ => ((Outputs.Sends.kept c.env.outputs).const _).working)
      (Outputs.Sends.heard c.env.outputs).environments hstarts
    have hsends : c.env.outputs.Sends (w.poll c).2.2.env.outputs := hpoll.2.2.env.outputs.2.2
    show topic.Relayed _ (topic.listening (after (w.poll c).1 (.watch (w.poll c).2.1))) c
      (w.poll c).2.2
    rw [weight_after topic.listening_ended _ fun hlast =>
      absurd ((w.isLast_poll c).symm.trans hlast) nofun]
    cases topic <;> exact .of_sends _ _ hsends

end Task

end Tasks

/-! ## Sessions -/

namespace Session

variable [DecidableEq P] [DecidableEq A] [DecidableEq V] {topic : Topic} {capacity : Nat}
  {s s' : Session P A V E} {counted : String → Bool} {id : String} {ids : List String}

omit [DecidableEq V] in
/-- To drop a task sends nothing on any channel. -/
theorem still_dropTask (topic : Topic) (s : Session P A V E) (id : String) :
    (topic.channel s.cache.env.outputs).Still
    (topic.channel (s.dropTask id).cache.env.outputs) := by
  unfold dropTask
  split
  · exact ⟨rfl, rfl⟩
  · exact Task.still_drop topic _ s.cache

/-- Whatever is done with a task, what is published is relayed to everybody else who listens. -/
theorem lifts_relayed (topic : Topic) :
    Lifts (P := P) (A := A) (V := V) (E := E) topic.listening topic.Relayed where
  refl k c := .refl topic k c
  trans h h' := h.trans h'
  add := fun ⟨events, htrace, hrelays⟩ m => ⟨events, htrace, hrelays.add m⟩
  create c request := Task.relayed_create topic c request
  drop task c := Task.relayed_drop topic task c
  poll _ c := Task.relayed_poll topic _ c
  rests k htrace hevents hupdates herrors _ := by
    refine ⟨_, htrace, ?_⟩
    have hsame : ∀ c c' : Cache P A V E, c'.env.updates = c.env.updates →
        c'.env.errors = c.env.errors →
        topic.channel c'.env.outputs = topic.channel c.env.outputs := by
      intro c c' hupdates herrors
      unfold Topic.channel Environment.outputs
      rw [hupdates, herrors]
    rw [Topic.published_eq_nil hevents, hsame _ _ hupdates herrors]
    exact .refl k _

/-- Some tasks may be dropped. -/
abbrev Relays (topic : Topic) (counted : String → Bool) (s s' : Session P A V E) : Prop :=
  Linked topic.listening topic.Relayed counted s s'

/-- All is in order with a channel: its subscribers are the tasks that listen to it, it is closed
with the cache, and its ring is as full as it can be. -/
structure Aware (topic : Topic) (capacity : Nat) (s : Session P A V E) : Prop where
  steady : s.Steady
  subscribed : (topic.channel s.cache.env.outputs).subscribers =
    weigh topic.listening (fun _ => true) s.tasks
  length : (topic.channel s.cache.env.outputs).length = ringLength capacity
  closed : (topic.channel s.cache.env.outputs).closed = s.closed
  full : (topic.channel s.cache.env.outputs).Full
  carried : ∃ sent, (topic.channel s.cache.env.outputs).Carries sent

namespace Aware

omit [DecidableEq V] in
/-- What is relayed leaves the channel in order. -/
theorem relays (h : s.Aware topic capacity) (hrelays : Relays topic (fun _ => true) s s')
    (hsteady : s'.Steady) (hclosed : s'.closed = s.closed) : s'.Aware topic capacity := by
  obtain ⟨events, -, hrelays⟩ := hrelays
  have hsubscribed := hrelays.subscribers 0 (h.subscribed.trans (Nat.zero_add _).symm)
  rw [Nat.zero_add] at hsubscribed
  exact ⟨hsteady, hsubscribed, hrelays.length.trans h.length,
    hrelays.closed.trans (h.closed.trans hclosed.symm), hrelays.full h.full,
    hrelays.carried h.carried⟩

omit [DecidableEq V] in
/-- An empty trace leaves the channel in order. -/
theorem fresh (h : s.Aware topic capacity) : s.fresh.Aware topic capacity :=
  ⟨h.steady.fresh, h.subscribed, h.length, h.closed, h.full, h.carried⟩

/-- A poll of a task leaves the channel in order. -/
theorem polls (h : s.Aware topic capacity) (id : String) :
    (s.pollTask id).2.Aware topic capacity :=
  h.relays ((lifts_relayed topic).pollTask h.steady.sound rfl) (h.steady.polls id)
    (closed_pollTask s id)

/-- To close the cache leaves the channel in order: it is closed as well. -/
theorem close (h : s.Aware topic capacity) : s.close.Aware topic capacity := by
  let dropped := s.dependents.foldl (fun s id => s.dropTask id) s
  have hgoes : Goes s dropped :=
    (travels_dropTasks h.steady.sound.fit s.dependents).sessionActs.goes
  have hsteady : dropped.Steady := h.steady.goes_of_same hgoes fun id => by
    rw [tasks_dropTasks]
    split
    · exact .inr rfl
    · exact .inl rfl
  have hdropped : dropped.Aware topic capacity :=
    h.relays ((lifts_relayed topic).dropTasks s fun _ _ => rfl) hsteady (closed_dropTasks s _)
  have hclosed : (s.perform .close).2.Steady := h.steady.performs rfl
  obtain ⟨-, hsubscribed, hlength, -, hfull, sent, hcarries⟩ := hdropped
  refine ⟨hclosed, ?_, ?_, ?_, ?_, sent, ?_⟩
  · cases topic <;> exact hsubscribed
  · cases topic <;> exact hlength
  · cases topic <;> rfl
  · cases topic <;> exact hfull
  · cases topic <;> exact ⟨hcarries.sent, hcarries.latest⟩

/-- Every step leaves the channel in order. -/
theorem steps (h : s.Aware topic capacity) (st : Step P A V) :
    (s.step st).2.Aware topic capacity := by
  have hsteady := h.steady.steps st
  rw [step_snd] at hsteady ⊢
  split
  · exact h.fresh
  · rename_i hneeds
    rw [if_neg hneeds] at hsteady
    by_cases hclose : st = .close
    · rw [hclose]
      exact h.fresh.close
    · have hrelays : Relays topic (fun _ => true) s.fresh (s.fresh.perform st).2 :=
        (lifts_relayed topic).perform h.fresh.steady.sound hclose fun _ _ => rfl
      exact h.fresh.relays hrelays hsteady (closed_perform s.fresh hclose)

/-- Every run leaves the channel in order. -/
theorem run (h : s.Aware topic capacity) (steps : List (Step P A V)) :
    (s.run steps).2.Aware topic capacity := by
  induction steps generalizing s with
  | nil => exact h
  | cons st rest ih => exact ih (h.steps st)

end Aware

/-- Both channels are in order throughout every run from the beginning. -/
theorem aware_run (topic : Topic) (setup : Setup (Store (Key P A) V)) (source : Source P V E)
    (steps : List (Step P A V)) :
    ((create (Cache.create setup source)).run steps).2.Aware topic setup.broadcastCapacity := by
  have hstart : (create (Cache.create setup source)).Aware topic setup.broadcastCapacity := by
    refine ⟨steady_create setup source, ?_, ?_, ?_, ?_, [], ?_⟩
    · cases topic <;> rfl
    · cases topic <;> rfl
    · cases topic <;> rfl
    · cases topic <;> exact Channel.full_ofCapacity _
    · cases topic <;> exact ⟨rfl, List.suffix_refl _⟩
  exact hstart.run steps

end Session

end ReadThrough
