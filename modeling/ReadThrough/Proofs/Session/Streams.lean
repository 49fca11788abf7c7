import ReadThrough.Proofs.Session.Convergence
import ReadThrough.Proofs.Session.Topics
/-!
# Proofs: streams lose only what they report

The record of a subscription tells which messages were published since it began, which of them it
has yielded and how many it has skipped; the others are left (`Topic.left`). Every poll yields the
next of them, after it has skipped as many as the ring has no room for (`Topic.Reads`). It has
nothing to yield only if none is left, and it ends only when nobody is left to publish anything.
-/

namespace ReadThrough

variable {P A V E : Type}

/-! ## The record of a stream -/

/-- The item that the task yields. -/
def Scene.item? : Scene P A V E → Option (Item P V E)
  | .polled _ answer => answer.item?
  | .passed _ => none

/-- How many messages a subscriber has missed, as an event tells it. -/
def Event.skipped? : Event P A V E → Option Nat
  | .lagged _ skipped => some skipped
  | _ => none

section Record

variable (topic : Topic) (log : List (Scene P A V E))

/-- The items that the task has yielded, in order. -/
def yielded : List (Item P V E) := log.filterMap Scene.item?

/-- How many messages the task has skipped, each time that it has. -/
def skips : List Nat := (ownSeen log).filterMap Event.skipped?

/-- How many messages the task has behind it. -/
def behind : Nat := (yielded log).length + (skips log).sum

/-- What has been published on a channel, in order. -/
def Topic.spoken : List (Item P V E) := topic.published (eventsSeen log)

/-- What is left to read for a stream of the channel. -/
def Topic.left : List (Item P V E) := (topic.spoken log).drop (behind log)

end Record

/-- What a poll of a stream tells that has the messages `unread` to read, where the ring has room
for `room` messages. -/
inductive Topic.Reads (topic : Topic) (room : Nat) (unread : List (Item P V E)) :
    List (Event P A V E) → TaskAnswer (Item P V E) → Prop where
  /-- It skips what is not in the ring any more, and yields the next message. -/
  | yields {missed rest : List (Item P V E)} {item : Item P V E}
      (hunread : unread = missed ++ item :: rest) (hmissed : missed.length = unread.length - room) :
      Reads topic room unread (if missed = [] then [] else [.lagged topic.name missed.length])
        (.answer (.item item))
  | waits (hnone : unread = []) : Reads topic room unread [] (.answer .pending)
  | ends (hnone : unread = []) : Reads topic room unread [] (.answer .done)

/-- A stream that the ring has room for skips nothing. -/
theorem Topic.Reads.silent {topic : Topic} {room : Nat} {unread : List (Item P V E)}
    {events : List (Event P A V E)} {answer : TaskAnswer (Item P V E)}
    (h : topic.Reads room unread events answer) (hroom : unread.length ≤ room) : events = [] := by
  cases h with
  | waits | ends => rfl
  | @yields missed rest item hunread hmissed =>
    have hnone : missed = [] := List.length_eq_zero_iff.mp (by omega)
    exact if_pos hnone

section Concat

variable {topic : Topic} {log : List (Scene P A V E)} {events : List (Event P A V E)}
  {answer : TaskAnswer (Item P V E)}

/-- The items that were yielded go on with each part of the record. -/
theorem yielded_concat (scene : Scene P A V E) :
    yielded (log ++ [scene]) = yielded log ++ scene.item?.toList := by
  rw [yielded, List.filterMap_append, List.filterMap_cons]
  cases scene.item? <;> rfl

/-- The skips go on with each part of the record. -/
theorem skips_concat (scene : Scene P A V E) :
    skips (log ++ [scene]) = skips log ++ scene.own.filterMap Event.skipped? := by
  rw [skips, ownSeen_concat, List.filterMap_append, skips]

/-- What was published goes on with each part of the record. -/
theorem spoken_concat (scene : Scene P A V E) :
    topic.spoken (log ++ [scene]) = topic.spoken log ++ topic.published scene.events := by
  rw [Topic.spoken, eventsSeen_concat, Topic.published_append, Topic.spoken]

/-- While the stream is not polled, it goes by no messages. -/
theorem behind_passed : behind (log ++ [.passed events]) = behind log := by
  rw [behind, yielded_concat, skips_concat, behind]
  simp [Scene.item?, Scene.own]

/-- A poll puts the item that it yields and the messages that it skips behind the stream. -/
theorem behind_polled : behind (log ++ [.polled events answer]) =
    behind log + answer.item?.toList.length + (events.filterMap Event.skipped?).sum := by
  rw [behind, yielded_concat, skips_concat, behind]
  simp only [Scene.item?, Scene.own, List.length_append, List.sum_append]
  omega

end Concat

/-- The books of a stream balance: what it has yielded are messages that were published, in order,
and it has gone by no others than those that it has skipped. -/
structure Topic.Balanced (topic : Topic) (log : List (Scene P A V E)) : Prop where
  le : behind log ≤ (topic.spoken log).length
  ordered : (yielded log).Sublist ((topic.spoken log).take (behind log))

namespace Topic.Balanced

variable {topic : Topic} {log : List (Scene P A V E)} {events : List (Event P A V E)}

/-- The books of an empty record balance. -/
theorem nil (topic : Topic) : topic.Balanced ([] : List (Scene P A V E)) :=
  ⟨Nat.le_refl _, List.Sublist.refl _⟩

/-- Others publish something. -/
theorem passed (h : topic.Balanced log) (events : List (Event P A V E)) :
    topic.Balanced (log ++ [.passed events]) ∧
      topic.left (log ++ [.passed events]) = topic.left log ++ topic.published events := by
  obtain ⟨hle, hordered⟩ := h
  refine ⟨⟨?_, ?_⟩, ?_⟩
  · rw [behind_passed, spoken_concat, List.length_append]
    omega
  · rw [behind_passed, spoken_concat, yielded_concat, List.take_append_of_le_length hle]
    simpa [Scene.item?] using hordered
  · rw [left, behind_passed, spoken_concat, List.drop_append_of_le_length hle, left]
    rfl

/-- The stream is polled, and skips some messages before it yields one. -/
theorem yields (h : topic.Balanced log) {missed rest : List (Item P V E)} {item : Item P V E}
    (hleft : topic.left log = missed ++ item :: rest) (hsilent : topic.published events = [])
    (hskips : (events.filterMap Event.skipped?).sum = missed.length) :
    topic.Balanced (log ++ [.polled events (.answer (.item item))]) ∧
      topic.left (log ++ [.polled events (.answer (.item item))]) = rest := by
  obtain ⟨hle, hordered⟩ := h
  have hspoken : topic.spoken (log ++ [.polled events (.answer (.item item))]) =
      topic.spoken log := by
    rw [spoken_concat]
    exact (congrArg (_ ++ ·) hsilent).trans (List.append_nil _)
  have hbehind : behind (log ++ [.polled events (.answer (.item item))]) =
      behind log + (missed.length + 1) := by
    rw [behind_polled, hskips]
    show behind log + 1 + missed.length = _
    omega
  have hdrop : (topic.spoken log).drop (behind log) = missed ++ item :: rest := hleft
  have hlength := congrArg List.length hdrop
  rw [List.length_drop, List.length_append, List.length_cons] at hlength
  refine ⟨⟨?_, ?_⟩, ?_⟩
  · rw [hspoken, hbehind]
    omega
  · rw [hspoken, hbehind, yielded_concat, List.take_add, hdrop]
    refine hordered.append ?_
    simp [Scene.item?, TaskAnswer.item?, List.take_append]
  · rw [left, hspoken, hbehind, ← List.drop_drop, hdrop]
    simp [List.drop_append]

/-- The stream is polled and yields nothing. -/
theorem silent (h : topic.Balanced log) {answer : TaskAnswer (Item P V E)}
    (hnone : answer.item? = none) :
    behind (log ++ [.polled [] answer]) = behind log ∧
      topic.left (log ++ [.polled [] answer]) = topic.left log ∧
      topic.Balanced (log ++ [.polled [] answer]) := by
  have hspoken : topic.spoken (log ++ [.polled [] answer]) = topic.spoken log := by
    rw [spoken_concat]
    exact List.append_nil _
  have hbehind : behind (log ++ [.polled [] answer]) = behind log := by
    rw [behind_polled, hnone]
    rfl
  have hyielded : yielded (log ++ [.polled [] answer]) = yielded log := by
    rw [yielded_concat, Scene.item?, hnone]
    exact List.append_nil _
  refine ⟨hbehind, ?_, ?_⟩
  · rw [left, left, hspoken, hbehind]
  · constructor
    · rw [hspoken, hbehind]
      exact h.le
    · rw [hspoken, hbehind, hyielded]
      exact h.ordered

end Topic.Balanced

/-- The ring of a channel has room for a message. -/
theorem ringLength_pos (capacity : Nat) : 0 < ringLength capacity := by
  obtain ⟨⟨⟨k, hpower⟩, -⟩, -⟩ := ringLength_isLeast capacity
  rw [hpower]
  exact Nat.two_pow_pos k

/-! ## Polls -/

section Polls

variable [DecidableEq P] [DecidableEq A] [DecidableEq V] {topic : Topic} {position room : Nat}
  {unread : List (Item P V E)} {c : Cache P A V E}

/-- What comes of a poll of a stream that has the messages `unread` to read. -/
inductive Topic.Turns (topic : Topic) (room position : Nat) (unread : List (Item P V E))
    (c : Cache P A V E) : TaskAnswer (Item P V E) × Task P A V E × Cache P A V E → Prop where
  | yields {missed rest : List (Item P V E)} {item : Item P V E}
      (hunread : unread = missed ++ item :: rest) (hmissed : missed.length = unread.length - room) :
      Turns topic room position unread c (.answer (.item item),
        topic.task (position + missed.length + 1), c.noteMissed topic.name missed.length)
  | waits (hnone : unread = []) (hopen : (topic.channel c.env.outputs).closed = false) :
      Turns topic room position unread c (.answer .pending, topic.task position, c)
  | ends (hnone : unread = []) (hclosed : (topic.channel c.env.outputs).closed = true) :
      Turns topic room position unread c (.answer .done, .ended, topic.leave c)

/-- A poll of a stream yields the next message that the ring still has, after it has skipped those
that the ring has lost. -/
theorem Topic.turns (hroom : 0 < (topic.channel c.env.outputs).length)
    (hfull : (topic.channel c.env.outputs).Full)
    (hawaits : (topic.channel c.env.outputs).Awaits position unread) :
    topic.Turns (topic.channel c.env.outputs).length position unread c
      ((topic.task position : Task P A V E).poll c) := by
  have hreceive := hawaits.receive_eq hfull
  generalize (topic.channel c.env.outputs).length = room at hroom hreceive ⊢
  have hmissed : (unread.take (unread.length - room)).length = unread.length - room :=
    List.length_take_of_le (Nat.sub_le _ _)
  rw [Task.poll_task, hreceive]
  cases hdrop : unread.drop (unread.length - room) with
  | cons item rest =>
    have hunread : unread = unread.take (unread.length - room) ++ item :: rest := by
      rw [← hdrop, List.take_append_drop]
    have hyields : topic.Turns room position unread c _ := .yields hunread hmissed
    rw [hmissed] at hyields
    exact hyields
  | nil =>
    -- The ring has room for some message, so that none was missed.
    have hlength := List.drop_eq_nil_iff.mp hdrop
    have hnone : unread = [] := List.length_eq_zero_iff.mp (by omega)
    subst hnone
    rw [List.length_nil, Nat.zero_sub, Nat.add_zero]
    cases hclosed : (topic.channel c.env.outputs).closed with
    | true => exact .ends rfl hclosed
    | false => exact .waits rfl hclosed

end Polls

/-! ## Sessions -/

namespace Session

variable [DecidableEq P] [DecidableEq A] [DecidableEq V] {topic : Topic} {id : String}
  {capacity position : Nat} {s s' : Session P A V E} {unread : List (Item P V E)}

omit [DecidableEq V] in
/-- A task that listens awaits all that is published while it is left alone. -/
theorem Aware.awaits (h : s.Aware topic capacity)
    (hget : s.tasks.get? id = some (topic.task position))
    (hrelays : Relays topic (· ≠ id) s s')
    (hawaits : (topic.channel s.cache.env.outputs).Awaits position unread) :
    ∃ events, s'.cache.env.trace = s.cache.env.trace ++ events ∧
      (topic.channel s'.cache.env.outputs).Awaits position (unread ++ topic.published events) := by
  obtain ⟨events, htrace, hrelays⟩ := hrelays
  have hlistens : topic.listening (topic.task position : Task P A V E) = 1 := by
    cases topic <;> rfl
  have hheard := h.subscribed.trans (weigh_all hget)
  rw [hlistens] at hheard
  exact ⟨events, htrace, hrelays.awaits Nat.one_pos hheard hawaits⟩

omit [DecidableEq P] [DecidableEq A] [DecidableEq V] in
/-- A step that neither begins nor polls a task by name touches it only to drop it. -/
theorem eq_of_mem_touched {st : Step P A V} (htouched : id ∈ st.touched s)
    (hbegins : ¬ st.begins id) (hpoll : ∀ id, st ≠ .poll id) (hdrain : ∀ id, st ≠ .drain id)
    (hjoin : ∀ ids, st ≠ .join ids) : st = .drop id ∨ st = .close ∧ id ∈ s.dependents := by
  cases st with
  | poll id' => exact absurd rfl (hpoll id')
  | drain id' => exact absurd rfl (hdrain id')
  | join ids => exact absurd rfl (hjoin ids)
  | begin id' request => exact absurd (decide_eq_true (List.mem_singleton.mp htouched).symm) hbegins
  | drop id' => exact .inl (congrArg _ (List.mem_singleton.mp htouched).symm)
  | close => exact .inr ⟨rfl, htouched⟩
  | _ => cases htouched

omit [DecidableEq P] [DecidableEq A] [DecidableEq V] in
/-- A task that does not need the cache is not even dropped with it. -/
theorem not_mem_touched {st : Step P A V}
    (hneeds : ∀ task, s.tasks.get? id = some task → task.needsCache = false) (hdrop : st ≠ .drop id)
    (hbegins : ¬ st.begins id) (hpoll : ∀ id, st ≠ .poll id) (hdrain : ∀ id, st ≠ .drain id)
    (hjoin : ∀ ids, st ≠ .join ids) : id ∉ st.touched s := by
  intro htouched
  rcases eq_of_mem_touched htouched hbegins hpoll hdrain hjoin with hdrops | ⟨-, hdependent⟩
  · exact hdrop hdrops
  · obtain ⟨task, hget, hdepends⟩ := Table.exists_of_mem_keysWhere _ hdependent
    rw [hneeds task hget] at hdepends
    cases hdepends

/-- A stream that a step does not touch awaits all that is published in it. -/
theorem Aware.performs (h : s.Aware topic capacity)
    (hget : s.tasks.get? id = some (topic.task position))
    (hawaits : (topic.channel s.cache.env.outputs).Awaits position unread) {st : Step P A V}
    (htouched : id ∉ st.touched s) : ∃ events,
    (s.perform st).2.cache.env.trace = s.cache.env.trace ++ events ∧
      (topic.channel (s.perform st).2.cache.env.outputs).Awaits position
        (unread ++ topic.published events) := by
  have hothers : ∀ id' ∈ st.touched s, decide (id' ≠ id) = true := fun id' hid' =>
    decide_eq_true fun heq => htouched (heq ▸ hid')
  by_cases hclose : st = .close
  · subst hclose
    obtain ⟨events, htrace, read, hread, hcarries⟩ :=
      h.awaits hget ((lifts_relayed topic).dropTasks s hothers) hawaits
    refine ⟨events, htrace, read, hread, ?_⟩
    cases topic <;> exact ⟨hcarries.sent, hcarries.latest⟩
  · exact h.awaits hget ((lifts_relayed topic).perform h.steady.sound hclose hothers) hawaits

/-! ## Records -/

/-- The stream has ended. -/
def Ended (log : List (Scene P A V E)) : Prop := ∃ events, .polled events (.answer .done) ∈ log

/-- What a poll tells is what a stream reads that has its messages left, unless the stream has ended
before, or has been dropped. -/
def Readable (topic : Topic) (room : Nat) (dropped : Prop) (log : List (Scene P A V E)) : Prop :=
  ∀ earlier events answer later, log = earlier ++ .polled events answer :: later →
    topic.Reads room (topic.left earlier) events answer ∨
      events = [] ∧ (answer = .finished ∧ Ended earlier ∨ answer = .unknown ∧ dropped)

/-- The task `id` of a session is a stream that began at the position `start`, unless it has ended
or has been dropped, and its record is right. -/
structure Streams (topic : Topic) (capacity : Nat) (id : String) (start : Nat) (dropped : Prop)
    (r : Observed P A V E) : Prop where
  aware : r.1.Aware topic capacity
  gone : r.1.tasks.get? id = none → dropped
  streaming : ∀ task, r.1.tasks.get? id = some task → task = .ended ∧ Ended r.2 ∨
    task = topic.task (start + behind r.2) ∧
      (topic.channel r.1.cache.env.outputs).Awaits (start + behind r.2) (topic.left r.2)
  closed : Ended r.2 → r.1.closed = true
  balanced : topic.Balanced r.2
  readable : Readable topic (ringLength capacity) dropped r.2

section Records

variable {start room : Nat} {dropped : Prop} {r : Observed P A V E} {log : List (Scene P A V E)}
  {events : List (Event P A V E)} {answer : TaskAnswer (Item P V E)}

omit [DecidableEq P] [DecidableEq A] [DecidableEq V] in
/-- What was read right stays right while the stream is not polled. -/
theorem Readable.passed (h : Readable topic room dropped log) (events : List (Event P A V E)) :
    Readable topic room dropped (log ++ [.passed events]) := by
  intro earlier events' answer later hsplit
  rcases append_eq_split hsplit with ⟨rest, hlog⟩ | ⟨begun, -, hbegun⟩
  · exact h earlier events' answer rest hlog
  · rcases begun with _ | ⟨first, _ | ⟨second, begun⟩⟩ <;> cases hbegun

omit [DecidableEq P] [DecidableEq A] [DecidableEq V] in
/-- A record stays right with a poll in which the stream reads, or that comes after its end or its
drop. -/
theorem Readable.polled (h : Readable topic room dropped log)
    (hpoll : topic.Reads room (topic.left log) events answer ∨
      events = [] ∧ (answer = .finished ∧ Ended log ∨ answer = .unknown ∧ dropped)) :
    Readable topic room dropped (log ++ [.polled events answer]) := by
  intro earlier events' answer' later hsplit
  rcases append_eq_split hsplit with ⟨rest, hlog⟩ | ⟨begun, rfl, hbegun⟩
  · exact h earlier events' answer' rest hlog
  · rcases begun with _ | ⟨first, _ | ⟨second, begun⟩⟩
    · obtain ⟨rfl, rfl⟩ : events = events' ∧ answer = answer' := by
        simpa using List.head_eq_of_cons_eq hbegun
      rwa [List.append_nil]
    · cases hbegun
    · cases hbegun

omit [DecidableEq P] [DecidableEq A] [DecidableEq V] in
/-- A stream has ended in two parts of a record if it has in one of them. -/
theorem ended_append (log log' : List (Scene P A V E)) :
    Ended (log ++ log') ↔ Ended log ∨ Ended log' := by
  simp only [Ended, List.mem_append, exists_or]

/-- A poll of the task that is looked at is recorded as its own. -/
theorem pollObserved_self {s' : Session P A V E} (hpoll : r.1.pollTask id = (answer, s'))
    (htrace : s'.cache.env.trace = r.1.cache.env.trace ++ events) :
    (pollObserved id id r).2 = (s', r.2 ++ [.polled events answer]) := by
  unfold pollObserved
  simp only [hpoll, htrace, List.drop_left, if_true]

/-- The stream is polled, and yields nothing. -/
theorem Streams.silent (h : Streams topic capacity id start dropped r) {s' : Session P A V E}
    (hpoll : r.1.pollTask id = (answer, s')) (htrace : s'.cache.env.trace = r.1.cache.env.trace)
    (hnone : answer.item? = none) (hgone : s'.tasks.get? id = none → dropped)
    (hstreaming : ∀ task, s'.tasks.get? id = some task →
      task = .ended ∧ (Ended r.2 ∨ answer = .answer .done) ∨
      task = topic.task (start + behind r.2) ∧
        (topic.channel s'.cache.env.outputs).Awaits (start + behind r.2) (topic.left r.2))
    (hclosed : answer = .answer .done → r.1.closed = true)
    (hreads : Topic.Reads (A := A) topic (ringLength capacity) (topic.left r.2) [] answer ∨
      (answer = .finished ∧ Ended r.2 ∨ answer = .unknown ∧ dropped)) :
    Streams topic capacity id start dropped (pollObserved id id r).2 := by
  have hsame : s'.closed = r.1.closed := by
    have hkept := closed_pollTask r.1 id
    rwa [hpoll] at hkept
  have haware := h.aware.polls id
  rw [hpoll] at haware
  obtain ⟨hbehind, hleft, hbalanced⟩ := h.balanced.silent hnone
  have hended : Ended (r.2 ++ [.polled [] answer]) ↔ Ended r.2 ∨ answer = .answer .done := by
    rw [ended_append]
    simp [Ended, eq_comm]
  rw [pollObserved_self hpoll (htrace.trans (List.append_nil _).symm)]
  refine ⟨haware, hgone, ?_, ?_, hbalanced, h.readable.polled ?_⟩
  · intro task hget
    rw [hended, hbehind, hleft]
    exact hstreaming task hget
  · rw [hended, hsame]
    rintro (hbefore | hnow)
    · exact h.closed hbefore
    · exact hclosed hnow
  · exact hreads.imp_right fun hover => ⟨rfl, hover⟩

/-- The stream is polled, and may have something to read. -/
theorem Streams.turned (h : Streams topic capacity id start dropped r)
    (hawaits : (topic.channel r.1.cache.env.outputs).Awaits (start + behind r.2) (topic.left r.2))
    {polled : TaskAnswer (Item P V E) × Task P A V E × Cache P A V E}
    (hturns : topic.Turns (ringLength capacity) (start + behind r.2) (topic.left r.2) r.1.cache
      polled)
    (hpoll : r.1.pollTask id =
      (polled.1, { r.1 with cache := polled.2.2, tasks := r.1.tasks.insert id polled.2.1 })) :
    Streams topic capacity id start dropped (pollObserved id id r).2 := by
  have hinserted := Table.get?_insert_self r.1.tasks id polled.2.1
  have hgone : (r.1.tasks.insert id polled.2.1).get? id = none → dropped := fun hnone => by
    cases hnone.symm.trans hinserted
  cases hturns with
  | waits hnone hopen =>
    refine h.silent hpoll rfl rfl hgone ?_ nofun (.inl (.waits hnone))
    intro task hget
    exact .inr ⟨Option.some.inj (hget.symm.trans hinserted), hawaits⟩
  | ends hnone hclosed =>
    have htrace : (topic.leave r.1.cache).env.trace = r.1.cache.env.trace := by cases topic <;> rfl
    refine h.silent hpoll htrace rfl hgone ?_ ?_ (.inl (.ends hnone))
    · intro task hget
      exact .inl ⟨Option.some.inj (hget.symm.trans hinserted), .inr rfl⟩
    · exact fun _ => h.aware.closed.symm.trans hclosed
  | @yields missed rest item hunread hmissed =>
    -- What the ring has lost is skipped, and the message behind it is yielded.
    let events : List (Event P A V E) :=
      if missed = [] then [] else [.lagged topic.name missed.length]
    have htold : (r.1.cache.noteMissed topic.name missed.length).env.trace =
          r.1.cache.env.trace ++ events ∧
        topic.channel (r.1.cache.noteMissed topic.name missed.length).env.outputs =
          topic.channel r.1.cache.env.outputs ∧
        topic.published events = [] ∧
        (events.filterMap Event.skipped?).sum = missed.length := by
      cases missed with
      | nil => exact ⟨(List.append_nil _).symm, rfl, rfl, rfl⟩
      | cons m missed => cases topic <;> exact ⟨rfl, rfl, rfl, rfl⟩
    obtain ⟨htrace, hchannel, hsilent, hskips⟩ := htold
    obtain ⟨hbalanced, hleft⟩ := h.balanced.yields hunread hsilent hskips
    have hplace : start + behind (r.2 ++ [.polled events (.answer (.item item))]) =
        start + behind r.2 + missed.length + 1 := by
      rw [behind_polled, hskips]
      show start + (behind r.2 + 1 + missed.length) = _
      omega
    have haware := h.aware.polls id
    rw [hpoll] at haware
    have hended : Ended (r.2 ++ [.polled events (.answer (.item item))]) ↔ Ended r.2 := by
      rw [ended_append]
      simp [Ended]
    rw [pollObserved_self hpoll htrace]
    refine ⟨haware, hgone, ?_, ?_, hbalanced, h.readable.polled (.inl (.yields hunread hmissed))⟩
    · intro task hget
      rw [hplace, hleft]
      refine .inr ⟨Option.some.inj (hget.symm.trans hinserted), ?_⟩
      show (topic.channel (r.1.cache.noteMissed topic.name missed.length).env.outputs).Awaits _ _
      rw [hunread, List.append_cons] at hawaits
      have hnext := hawaits.skip
      rw [List.length_append, List.length_singleton, ← Nat.add_assoc] at hnext
      rwa [hchannel]
    · rw [hended]
      exact h.closed

/-- The stream is polled. -/
theorem Streams.polls (h : Streams topic capacity id start dropped r) :
    Streams topic capacity id start dropped (pollObserved id id r).2 := by
  cases hget : r.1.tasks.get? id with
  | none =>
    have hpoll : r.1.pollTask id = (.unknown, r.1) := by rw [pollTask, hget]
    exact h.silent hpoll rfl rfl h.gone (fun task htask => by simp [hget] at htask)
      (fun h => by cases h) (.inr (.inr ⟨rfl, h.gone hget⟩))
  | some task =>
    rcases h.streaming task hget with ⟨rfl, hended⟩ | ⟨rfl, hawaits⟩
    · have hpoll : r.1.pollTask id =
          (.finished, { r.1 with tasks := r.1.tasks.insert id .ended }) := by
        simp only [pollTask, hget, Task.poll]
      have hsame : (r.1.tasks.insert id .ended).get? id = some .ended :=
        Table.get?_insert_self _ _ _
      refine h.silent hpoll rfl rfl ?_ ?_ (fun h => by cases h) (.inr (.inl ⟨rfl, hended⟩))
      · intro hnone
        cases hnone.symm.trans hsame
      · intro task htask
        obtain rfl := Option.some.inj (htask.symm.trans hsame)
        exact .inl ⟨rfl, .inl hended⟩
    · have hroom : 0 < (topic.channel r.1.cache.env.outputs).length :=
        h.aware.length ▸ ringLength_pos capacity
      have hturns := topic.turns hroom h.aware.full hawaits
      have hpoll : r.1.pollTask id =
          let polled := (topic.task (start + behind r.2) : Task P A V E).poll r.1.cache
          (polled.1,
            { r.1 with cache := polled.2.2, tasks := r.1.tasks.insert id polled.2.1 }) := by
        simp only [pollTask, hget]
      rw [h.aware.length] at hturns
      exact h.turned hawaits hturns hpoll

omit [DecidableEq V] in
/-- Something happens in the session, but the stream is not polled. -/
theorem Streams.passed (h : Streams topic capacity id start dropped r)
    (haware : s.Aware topic capacity) (hclosed : r.1.closed = true → s.closed = true)
    (htask : s.tasks.get? id = none ∧ dropped ∨ s.tasks.get? id = r.1.tasks.get? id ∧
      ∀ position unread, r.1.tasks.get? id = some (topic.task position) →
        (topic.channel r.1.cache.env.outputs).Awaits position unread →
        (topic.channel s.cache.env.outputs).Awaits position (unread ++ topic.published events)) :
    Streams topic capacity id start dropped (s, r.2 ++ [.passed events]) := by
  obtain ⟨hbalanced, hleft⟩ := h.balanced.passed events
  have hended : Ended (r.2 ++ [.passed events]) ↔ Ended r.2 := by
    rw [ended_append]
    simp [Ended]
  refine ⟨haware, fun hnone => ?_, fun task hget => ?_, fun hover => ?_, hbalanced,
    h.readable.passed events⟩
  · rcases htask with ⟨-, hdropped⟩ | ⟨hsame, -⟩
    · exact hdropped
    · exact h.gone (hsame.symm.trans hnone)
  · rcases htask with ⟨hgone, -⟩ | ⟨hsame, hawaits⟩
    · cases hgone.symm.trans hget
    · rw [hended, behind_passed, hleft]
      have hbefore := hsame.symm.trans hget
      refine (h.streaming task hbefore).imp_right ?_
      rintro ⟨rfl, hunread⟩
      exact ⟨rfl, hawaits _ _ hbefore hunread⟩
  · exact hclosed (h.closed (hended.mp hover))

/-- A poll of any task keeps the record of the stream right. -/
theorem Streams.pollObserved (h : Streams topic capacity id start dropped r) (polled : String) :
    Streams topic capacity id start dropped (pollObserved id polled r).2 := by
  by_cases hid : polled = id
  · subst hid
    exact h.polls
  · have hrelays : Relays topic (· ≠ id) r.1 (r.1.pollTask polled).2 :=
      (lifts_relayed topic).pollTask h.aware.steady.sound (decide_eq_true hid)
    unfold Session.pollObserved
    simp only [if_neg hid]
    refine h.passed (h.aware.polls polled) (closed_pollTask r.1 polled).trans
      (.inr ⟨tasks_pollTask_of_ne r.1 (Ne.symm hid), ?_⟩)
    intro position unread hget hunread
    obtain ⟨events, htrace, hawaits⟩ := h.aware.awaits hget hrelays hunread
    rwa [htrace, List.drop_left]

omit [DecidableEq V] in
/-- A stream does not keep the cache from being closed. -/
theorem Streams.needs (h : Streams topic capacity id start dropped r) (task : Task P A V E)
    (hget : r.1.tasks.get? id = some task) : task.needsCache = false := by
  rcases h.streaming task hget with ⟨rfl, -⟩ | ⟨rfl, -⟩
  · rfl
  · cases topic <;> rfl

omit [DecidableEq V] in
/-- The record of a stream does not depend on the trace before. -/
theorem Streams.fresh (h : Streams topic capacity id start dropped r) :
    Streams topic capacity id start dropped (r.1.fresh, r.2) :=
  ⟨h.aware.fresh, h.gone, h.streaming, h.closed, h.balanced, h.readable⟩

/-- A cache that is closed stays closed. -/
theorem closed_step (s : Session P A V E) (st : Step P A V) (hclosed : s.closed = true) :
    (s.step st).2.closed = true := by
  rw [step_snd]
  split
  · exact hclosed
  · by_cases hclose : st = .close
    · subst hclose
      rfl
    · exact (closed_perform s.fresh hclose).trans hclosed

/-- A step that does not begin the name again keeps the record of the stream right. -/
theorem Streams.stepObserved (h : Streams topic capacity id start dropped r) {st : Step P A V}
    (hbegins : ¬ st.begins id) (hdropped : st = .drop id → dropped) :
    Streams topic capacity id start dropped (stepObserved id r st) := by
  refine keeps_stepObserved (fun _ hr => hr.fresh) (fun _ polled hr => hr.pollObserved polled) h ?_
  intro hpoll hdrain hjoin
  have hstart := h.fresh
  refine hstart.passed (h.aware.steps st) (closed_step r.1 st) ?_
  show _ ∨ _ ∧ ∀ position unread, _ → _ → (topic.channel (r.1.step st).2.cache.env.outputs).Awaits
    position (unread ++ topic.published (r.1.step st).2.cache.env.trace)
  rw [step_snd]
  split
  · refine .inr ⟨rfl, fun position unread _ hunread => ?_⟩
    show (topic.channel r.1.cache.env.outputs).Awaits position (unread ++ [])
    rwa [List.append_nil]
  by_cases hdrop : st = .drop id
  · have hgone : (r.1.fresh.dropTask id).tasks.get? id = none :=
      (tasks_dropTask r.1.fresh id id).trans (if_pos rfl)
    exact .inl ⟨hdrop ▸ hgone, hdropped hdrop⟩
  · have htouched := not_mem_touched hstart.needs hdrop hbegins hpoll hdrain hjoin
    refine .inr ⟨tasks_perform_of_not_touched r.1.fresh htouched, ?_⟩
    intro position unread hget hunread
    obtain ⟨events, htrace, hawaits⟩ := hstart.aware.performs hget hunread htouched
    rwa [htrace]

/-- While the cache is open, a step that begins a subscription subscribes. -/
theorem step_begin (hopen : s.closed = false) (id : String) (topic : Topic) :
    (s.step (.begin id topic.request)).2 = s.fresh.beginTask id topic.request := by
  rw [step_snd, hopen]
  cases topic <;> rfl

/-- A stream begins at the end of the channel. -/
theorem get?_step_begin (hopen : s.closed = false) (id : String) (topic : Topic) :
    (s.step (.begin id topic.request)).2.tasks.get? id =
      some (topic.task (topic.channel s.cache.env.outputs).sent) := by
  rw [step_begin hopen]
  cases topic <;> exact Table.get?_insert_self _ _ _

/-- A stream that has just begun has nothing to read. -/
theorem streams_begin (h : s.Aware topic capacity) (hopen : s.closed = false) (id : String)
    (dropped : Prop) :
    Streams topic capacity id (topic.channel s.cache.env.outputs).sent dropped
      ((s.step (.begin id topic.request)).2, []) := by
  have hget := get?_step_begin hopen id topic
  refine ⟨h.steps _, fun hnone => ?_, fun task htask => .inr ?_, fun hover => ?_, .nil topic, ?_⟩
  · cases hnone.symm.trans hget
  · obtain rfl := Option.some.inj (hget.symm.trans htask)
    refine ⟨rfl, ?_⟩
    let created : Cache P A V E := (Task.create s.fresh.cache topic.request).2
    have hcreated : topic.channel created.env.outputs =
        (topic.channel s.cache.env.outputs).subscribe.2 := by cases topic <;> rfl
    obtain ⟨messages, hcarries⟩ := h.carried
    have hawaits := hcarries.awaits_subscribe
    rw [← hcreated] at hawaits
    -- The task that had the name before is dropped.
    have hdrop : (topic.channel created.env.outputs).Still
        (topic.channel (s.fresh.beginTask id topic.request).cache.env.outputs) :=
      still_dropTask topic { s.fresh with cache := created } id
    rw [step_begin hopen]
    exact hawaits.still hdrop
  · obtain ⟨events, hmem⟩ := hover
    cases hmem
  · intro earlier events answer later hsplit
    cases earlier <;> cases hsplit

omit [DecidableEq P] [DecidableEq A] [DecidableEq V] in
/-- A stream that is never more messages behind than the ring has room for misses nothing. -/
theorem Readable.keeps_up (h : Readable topic room dropped log) (hbalanced : topic.Balanced log)
    (hbehind : ∀ earlier events answer later, log = earlier ++ .polled events answer :: later →
      (topic.left earlier).length ≤ room) :
    skips log = [] ∧ topic.spoken log = yielded log ++ topic.left log := by
  have hsilent : ∀ scene ∈ log, scene.own = [] := by
    intro scene hscene
    cases scene with
    | passed events => rfl
    | polled events answer =>
      obtain ⟨earlier, later, hsplit⟩ := List.append_of_mem hscene
      rcases h earlier events answer later hsplit with hreads | ⟨hnone, -⟩
      · exact hreads.silent (hbehind earlier events answer later hsplit)
      · exact hnone
  have hskips : skips log = [] := by
    rw [skips, ownSeen, List.flatMap_eq_nil_iff.mpr hsilent]
    rfl
  refine ⟨hskips, ?_⟩
  have hcount : behind log = (yielded log).length := by
    rw [behind, hskips]
    rfl
  have hall : yielded log = (topic.spoken log).take (behind log) :=
    hbalanced.ordered.eq_of_length (by rw [List.length_take_of_le hbalanced.le, hcount])
  rw [Topic.left, hall, List.take_append_drop]

end Records

/-- A stream loses only what it reports. It is begun in any session over a new cache, as long as
the cache has not been dropped, and any steps follow, of which none takes its name. The ring has
room for as many messages as the least power of two that is not below the capacity. The record that
the theorem is about belongs to the run: it leaves the same session, and has the events that the run
reports.

What the stream has yielded are messages that were published since it began, each once and in order,
and its position has moved by as many messages as it has yielded and skipped. Every poll, in
whatever step, skips those of the messages left that the ring has no room for, and yields the next.
It has nothing to yield, or ends, only if none is left. A stream that has never been more messages
behind than the capacity when it was polled has skipped none, and if a stream has ended nobody is
left to publish anything. -/
theorem stream_loses_only_what_it_reports (topic : Topic) (setup : Setup (Store (Key P A) V))
    (source : Source P V E) (before after : List (Step P A V)) (id : String)
    (hopen : ((create (Cache.create setup source)).run before).2.closed = false)
    (hbegins : ∀ st ∈ after, ¬ st.begins id) :
    let begun := (((create (Cache.create setup source)).run before).2.step
      (.begin id topic.request)).2
    let record := runObserved id begun after
    let room := ringLength setup.broadcastCapacity
    IsLeast {n | (∃ k, n = 2 ^ k) ∧ setup.broadcastCapacity ≤ n} room ∧
      record.1 = (begun.run after).2 ∧ eventsSeen record.2 = eventsOf (begun.run after).1 ∧
      topic.Balanced record.2 ∧
      (∃ start, begun.tasks.get? id = some (topic.task start) ∧
        ∀ position, record.1.tasks.get? id = some (topic.task position) →
          position = start + ((yielded record.2).length + (skips record.2).sum)) ∧
      (∀ earlier events answer later, record.2 = earlier ++ .polled events answer :: later →
        topic.Reads room (topic.left earlier) events answer ∨ events = [] ∧
          (answer = .finished ∧ Ended earlier ∨ answer = .unknown ∧ .drop id ∈ after)) ∧
      ((∀ earlier events answer later, record.2 = earlier ++ .polled events answer :: later →
        (topic.left earlier).length ≤ setup.broadcastCapacity) →
        skips record.2 = [] ∧ topic.spoken record.2 = yielded record.2 ++ topic.left record.2) ∧
      (Ended record.2 → record.1.Forsaken) := by
  intro begun record room
  have hbefore := aware_run topic setup source before
  have hmay : ∀ st ∈ after, ¬ st.begins id ∧ (st = .drop id → .drop id ∈ after) :=
    fun st hst => ⟨hbegins st hst, fun heq => heq ▸ hst⟩
  have hstreams : Streams topic setup.broadcastCapacity id _ _ record :=
    keeps_foldl_stepObserved (fun _ _ h hst => h.stepObserved hst.1 hst.2) hmay
      (streams_begin hbefore hopen id (.drop id ∈ after))
  have hsame : record.1 = (begun.run after).2 := fst_foldl_stepObserved id after (begun, [])
  have hattentive : begun.Attentive := (attentive_run setup source before).steps _
  let last := ((create (Cache.create setup source)).run before).2
  have hplace : ∀ position, record.1.tasks.get? id = some (topic.task position) →
      position = (topic.channel last.cache.env.outputs).sent + behind record.2 := by
    intro position hget
    rcases hstreams.streaming _ hget with ⟨hended, -⟩ | ⟨htask, -⟩
    · cases topic <;> cases hended
    · cases topic <;> cases htask <;> rfl
  refine ⟨ringLength_isLeast _, hsame, eventsSeen_foldl_stepObserved hattentive after,
    hstreams.balanced, ⟨_, get?_step_begin hopen id topic, hplace⟩, hstreams.readable, ?_,
    ?_⟩
  · intro hbehind
    exact hstreams.readable.keeps_up hstreams.balanced fun earlier events answer later hsplit =>
      (hbehind earlier events answer later hsplit).trans (le_ringLength _)
  · intro hended
    have hrun : record.1 = ((create (Cache.create setup source)).run
        (before ++ .begin id topic.request :: after)).2 := by
      rw [run_append]
      exact hsame
    have hclosed := hstreams.closed hended
    rw [hrun] at hclosed ⊢
    exact forsaken_run setup source _ hclosed

/-- A source whose calls fail at once. -/
def refusingSource : Source Nat String Nat := fun number _ =>
  .replies { wait := {}, took := none, ending := .error number }

def tripleSetup : Setup (Store (Key Nat Unit) String) :=
  { store := .bounded (Bounded.ofCapacity 3 (by decide)), clock := .counter 5 1,
    broadcastCapacity := 3 }

/-- So many requests that fail. -/
def burst (count : Nat) : List (Step Nat Unit String) :=
  List.replicate count (.run (.fetch 7 .never {}))

/-- The stream is too slow twice, and the cache is dropped before it has read everything. -/
def bursts : List (Step Nat Unit String) :=
  burst 6 ++ [.poll "e"] ++ burst 2 ++ [.poll "e"] ++ burst 3 ++ [.poll "e", .close, .drain "e"]

/-- Whether a poll has ended the task. -/
def isDone : Scene P A V E → Bool
  | .polled _ (.answer .done) => true
  | _ => false

omit [DecidableEq P] [DecidableEq A] [DecidableEq V] in
/-- A record with a poll that has ended the task shows its end. -/
theorem ended_of_any {log : List (Scene P A V E)} (h : log.any isDone = true) : Ended log := by
  obtain ⟨scene, hscene, hdone⟩ := List.any_eq_true.mp h
  unfold isDone at hdone
  split at hdone
  · exact ⟨_, hscene⟩
  · cases hdone

/-- The number of the call that a failure is of. -/
def refused? : Item Nat String Nat → Option Nat
  | .error 7 (.source number) => some number
  | _ => none

/-- The ring has room for four messages, and eleven are published. -/
theorem stream_loses_only_what_it_reports_bursts :
    let start := ((create (Cache.create tripleSetup refusingSource)).run []).2
    let record := runObserved "e" (start.step (.begin "e" Topic.errors.request)).2 bursts
    start.closed = false ∧ (∀ st ∈ bursts, ¬ st.begins "e") ∧ ringLength 3 = 4 ∧
      skips record.2 = [2, 1, 2] ∧
      (yielded record.2).map refused? = [3, 5, 8, 9, 10, 11].map some ∧
      record.1.Forsaken := by
  intro start record
  have hbegins : ∀ st ∈ bursts, ¬ st.begins "e" := by decide
  have hskips : skips record.2 = [2, 1, 2] := by decide +kernel
  have hyielded : (yielded record.2).map refused? = [3, 5, 8, 9, 10, 11].map some := by
    decide +kernel
  have hdone : record.2.any isDone = true := by decide +kernel
  obtain ⟨-, -, -, -, -, -, -, hforsaken⟩ := stream_loses_only_what_it_reports .errors tripleSetup
    refusingSource [] bursts "e" rfl hbegins
  exact ⟨rfl, hbegins, rfl, hskips, hyielded, hforsaken (ended_of_any hdone)⟩

end Session

end ReadThrough
