import ReadThrough.Proofs.Session.Bystanders
/-!
# Proofs: two runs with different subscribers

In two runs that differ in some subscribers the same is told, except for whether anybody heard what
was published. The channels hold the same for all subscribers that both runs have, even where these
stand at other positions (`Outputs.Meeting`), and this stays so when something is published, as long
as somebody listens in both runs (`Outputs.kept_attended`). So a task answers the same in both, and
all others that had the same to read before have the same to read after it (`Task.Paired.poll`).
-/

namespace ReadThrough

variable {P A V E : Type}

/-! ## What is told whoever listens -/

/-- Whether an event says that nobody heard what was published. -/
def Event.isUnheard : Event P A V E → Bool
  | .updateUnheard | .failureUnheard => true
  | _ => false

/-- What is told whoever listens. -/
def audible (events : List (Event P A V E)) : List (Event P A V E) :=
  events.filter fun event => !event.isUnheard

/-- What is told whoever listens goes on with the events. -/
theorem audible_append (events events' : List (Event P A V E)) :
    audible (events ++ events') = audible events ++ audible events' := List.filter_append _ _

/-! ## Outputs of two runs -/

/-- Two subscribers of a channel, each in a run of its own, have the same to read. -/
def Topic.Meets (topic : Topic) (c c' : Cache P A V E) (p p' : Nat) : Prop :=
  (topic.channel c.env.outputs).Meets (topic.channel c'.env.outputs) p p'

/-- How many subscribers a channel has. -/
def Topic.heard (topic : Topic) (c : Cache P A V E) : Nat :=
  (topic.channel c.env.outputs).subscribers

namespace Outputs

variable {K K' : Topic → Nat → Nat → Prop} {v v' w w' : Outputs P A V E}

/-- The same is told in both runs, and where `K` holds of two positions subscribers have the same
to read there. -/
structure Meeting (K : Topic → Nat → Nat → Prop) (v v' : Outputs P A V E) : Prop where
  sameShape : ∀ topic : Topic, (topic.channel v).SameShape (topic.channel v')
  meets : ∀ (topic : Topic) p p', K topic p p' →
    (topic.channel v).Meets (topic.channel v') p p'
  audible : audible v'.trace = audible v.trace

/-- As `Meeting`, and the channels with such positions have subscribers in both runs. -/
structure Attended (K : Topic → Nat → Nat → Prop) (v v' : Outputs P A V E) : Prop
    extends Meeting K v v' where
  attended : ∀ (topic : Topic) p p', K topic p p' →
    0 < (topic.channel v).subscribers ∧ 0 < (topic.channel v').subscribers

/-- Two positions more. -/
def Besides (K : Topic → Nat → Nat → Prop) (topic : Topic) (p p' : Nat) (told : Topic)
    (q q' : Nat) : Prop := K told q q' ∨ told = topic ∧ q = p ∧ q' = p'

/-- Runs in which subscribers have the same to read at some positions have so at fewer. -/
theorem Meeting.mono (h : Meeting K v v') (hK : ∀ topic p p', K' topic p p' → K topic p p') :
    Meeting K' v v' :=
  ⟨h.sameShape, fun topic p p' hp => h.meets topic p p' (hK topic p p' hp), h.audible⟩

/-- Subscribers come and go in both runs. -/
theorem Meeting.rests (h : Meeting K v v')
    (hrests : ∀ topic : Topic, (topic.channel v).Rests (topic.channel w))
    (hrests' : ∀ topic : Topic, (topic.channel v').Rests (topic.channel w'))
    (haudible : ReadThrough.audible w'.trace = ReadThrough.audible w.trace) :
    Meeting K w w' where
  sameShape topic := (h.sameShape topic).rests (hrests topic) (hrests' topic)
  meets topic p p' hp := (h.meets topic p p' hp).still (hrests topic).still (hrests' topic).still
  audible := haudible

/-- The same event may be noted in both runs. -/
theorem noting_meeting (K : Topic → Nat → Nat → Prop) :
    Noting (Meeting K : Outputs P A V E → Outputs P A V E → Prop) where
  note {v v'} event _ h := by
    refine h.rests (fun topic => ?_) (fun topic => ?_) ?_
    · rw [topic.channel_note]
      exact .refl _
    · rw [topic.channel_note]
      exact .refl _
    · show ReadThrough.audible (v'.trace ++ [event]) = ReadThrough.audible (v.trace ++ [event])
      rw [audible_append, audible_append, h.audible]

/-- Something is published on one of the channels, in both runs. -/
theorem Attended.publish (h : Attended K v v') (told : Topic) (item : Item P V E)
    (hchannel : ∀ topic : Topic, topic.channel w =
      if topic = told then ((topic.channel v).publish item).2 else topic.channel v)
    (hchannel' : ∀ topic : Topic, topic.channel w' =
      if topic = told then ((topic.channel v').publish item).2 else topic.channel v')
    (haudible : ReadThrough.audible w'.trace = ReadThrough.audible w.trace) :
    Attended K w w' := by
  have hkept : ∀ c : Channel (Item P V E), (c.publish item).2.subscribers = c.subscribers := by
    intro c
    unfold Channel.publish
    split <;> rfl
  refine ⟨⟨fun topic => ?_, fun topic p p' hp => ?_, haudible⟩, fun topic p p' hp => ?_⟩
  · rw [hchannel, hchannel']
    split
    · exact (h.sameShape topic).publish item
    · exact h.sameShape topic
  · obtain ⟨hheard, hheard'⟩ := h.attended topic p p' hp
    rw [hchannel, hchannel']
    split
    · exact (h.meets topic p p' hp).publish hheard hheard' item
    · exact h.meets topic p p' hp
  · have hheard := h.attended topic p p' hp
    rw [hchannel, hchannel']
    split
    · rwa [hkept, hkept]
    · exact hheard

/-- What is published in both runs while somebody listens leaves subscribers with the same to read.
-/
theorem kept_attended (K : Topic → Nat → Nat → Prop) :
    Kept (Attended K : Outputs P A V E → Outputs P A V E → Prop) where
  note {v v'} event hevent h := by
    refine ⟨(noting_meeting K).note event hevent h.toMeeting, fun topic p p' hp => ?_⟩
    rw [topic.channel_note, topic.channel_note]
    exact h.attended topic p p' hp
  publishUpdate {v v'} params delivery h := by
    refine h.publish .updates (.update params delivery) (v.channel_publishUpdate params delivery)
      (v'.channel_publishUpdate params delivery) ?_
    have htold : ∀ v : Outputs P A V E,
        ReadThrough.audible (v.publishUpdate params delivery).trace =
          ReadThrough.audible v.trace ++ [.updatePublished params delivery] := by
      intro v
      rw [trace_publishUpdate, audible_append]
      split <;> rfl
    rw [htold, htold, h.audible]
  publishFailure {v v'} params failure h := by
    refine h.publish .errors (.error params failure) (v.channel_publishFailure params failure)
      (v'.channel_publishFailure params failure) ?_
    have htold : ∀ v : Outputs P A V E,
        ReadThrough.audible (v.publishFailure params failure).trace =
          ReadThrough.audible v.trace ++ [.failurePublished params failure] := by
      intro v
      rw [trace_publishFailure, audible_append]
      split <;> rfl
    rw [htold, htold, h.audible]

/-- Two positions more may have the same to read. -/
theorem Meeting.besides (h : Meeting K v v') {topic : Topic} {p p' : Nat}
    (hmeets : (topic.channel v).Meets (topic.channel v') p p') :
    Meeting (Besides K topic p p') v v' := by
  refine ⟨h.sameShape, ?_, h.audible⟩
  rintro told q q' (hq | ⟨rfl, rfl, rfl⟩)
  · exact h.meets told q q' hq
  · exact hmeets

/-- Two positions more may have the same to read, if the channel has subscribers in both runs. -/
theorem Attended.besides (h : Attended K v v') {topic : Topic} {p p' : Nat}
    (hmeets : (topic.channel v).Meets (topic.channel v') p p')
    (hheard : 0 < (topic.channel v).subscribers ∧ 0 < (topic.channel v').subscribers) :
    Attended (Besides K topic p p') v v' := by
  refine ⟨h.toMeeting.besides hmeets, ?_⟩
  rintro told q q' (hq | ⟨rfl, rfl, rfl⟩)
  · exact h.attended told q q' hq
  · exact hheard

/-- Runs in which subscribers have the same to read at some positions have so at fewer, and are
attended. -/
theorem Attended.mono (h : Attended K v v') (hK : ∀ topic p p', K' topic p p' → K topic p p') :
    Attended K' v v' :=
  ⟨h.toMeeting.mono hK, fun topic p p' hp => h.attended topic p p' (hK topic p p' hp)⟩

/-- A task may be polled in both runs, at one more position that is attended. -/
theorem shared_attended (K : Topic → Nat → Nat → Prop) :
    Shared (Attended K : Outputs P A V E → Outputs P A V E → Prop)
      fun topic p p' => Attended (Besides K topic p p') where
  kept := kept_attended K
  listening topic p p' := kept_attended _
  heard topic := by
    have hown : ∀ {p p'} {v v' : Outputs P A V E}, Attended (Besides K topic p p') v v' →
        (topic.channel v).Meets (topic.channel v') p p' := fun h =>
      h.meets topic _ _ (.inr ⟨rfl, rfl, rfl⟩)
    refine ⟨fun h => ?_, fun h => ?_, fun h => ?_, fun h k hk => ?_⟩
    · exact (hown h).missed (h.sameShape topic)
    · exact (hown h).unread (h.sameShape topic)
    · exact (h.sameShape topic).closed
    · exact (h.mono fun _ _ _ => .inl).besides ((hown h).goes (h.sameShape topic) hk)
        (h.attended topic _ _ (.inr ⟨rfl, rfl, rfl⟩))

/-- A task may be dropped in both runs, at one more position. -/
theorem parting_meeting (K : Topic → Nat → Nat → Prop) :
    Parting (Meeting K : Outputs P A V E → Outputs P A V E → Prop)
      fun topic p p' => Meeting (Besides K topic p p') where
  noting := noting_meeting K
  leaves topic := by
    intro p p' v v' h
    have hsame : ∀ v : Outputs P A V E, (topic.part v).trace = v.trace := fun v => by
      cases topic <;> rfl
    refine (h.mono fun _ _ _ => .inl).rests (fun told => told.rests_part topic v)
      (fun told => told.rests_part topic v') ?_
    rw [hsame, hsame, h.audible]

end Outputs

/-! ## Tasks of two runs -/

/-- Two caches in which the same is told, and where `K` holds of two positions subscribers have the
same to read there. -/
abbrev Cache.Meeting (K : Topic → Nat → Nat → Prop) (c c' : Cache P A V E) : Prop :=
  Cache.Alike (Outputs.Meeting K) c c'

namespace Cache.InStep

variable {K K' : Topic → Nat → Nat → Prop} {c c' : Cache P A V E}

/-- The same is told in both caches whatever positions are looked at. -/
theorem forget (h : Cache.Meeting K c c') : Cache.Meeting (fun _ _ _ => False) c c' :=
  h.mono fun henv => henv.mono fun hv => hv.mono fun _ _ _ => False.elim

/-- A subscriber may come in both runs. -/
theorem enter (h : Cache.Meeting K c c') (told : Topic) :
    Cache.Meeting K (told.enter c) (told.enter c') := by
  have houtputs : Outputs.Meeting K (told.enter c).env.outputs (told.enter c').env.outputs := by
    have hsame : ∀ c : Cache P A V E, (told.enter c).env.trace = c.env.trace := fun c => by
      cases told <;> rfl
    refine h.env.outputs.rests (fun topic => topic.rests_enter told c)
      (fun topic => topic.rests_enter told c') ?_
    show audible (told.enter c').env.trace = audible (told.enter c).env.trace
    rw [hsame, hsame]
    exact h.env.outputs.audible
  obtain ⟨⟨v, henv, -⟩, hflights⟩ := h
  refine ⟨⟨(told.enter c').env.outputs, ?_, houtputs⟩, ?_⟩
  · unfold Topic.enter
    rw [henv]
    cases told <;> rfl
  · cases told <;> exact hflights

/-- All subscribers that have the same to read. -/
theorem gather (h : Cache.Meeting K c c') :
    Cache.Meeting (fun topic => topic.Meets c c') c c' :=
  h.of_outputs ⟨h.env.outputs.sameShape, fun _ _ _ => id, h.env.outputs.audible⟩

end Cache.InStep

/-- Where somebody else listens in both runs, who had the same to read has so still. -/
def Reunites (n n' : Topic → Nat) (c c' d d' : Cache P A V E) : Prop :=
  ∀ topic : Topic, 0 < n topic → 0 < n' topic → ∀ p p', topic.Meets c c' p p' →
    topic.Meets d d' p p'

/-- Who has the same to read after each of two parts has so after both. -/
theorem Reunites.trans {n n' : Topic → Nat} {c c' d d' e e' : Cache P A V E}
    (h : Reunites n n' c c' d d') (h' : Reunites n n' d d' e e') : Reunites n n' c c' e e' :=
  fun topic hheard hheard' p p' hmeets =>
    h' topic hheard hheard' p p' (h topic hheard hheard' p p' hmeets)

namespace Task

variable {n n' : Topic → Nat} {c c' d d' : Cache P A V E} {task task' : Task P A V E}
  {K : Topic → Nat → Nat → Prop}

/-- A task in two runs, beside so many others that listen. -/
structure Paired (n n' : Topic → Nat) (x x' : Task P A V E × Cache P A V E) : Prop where
  task : Alike True (fun topic => topic.Meets x.2 x'.2) x.1 x'.1
  cache : Cache.Meeting (fun _ _ _ => False) x.2 x'.2
  heard : ∀ topic : Topic, topic.heard x.2 = n topic + topic.listening x.1
  heard' : ∀ topic : Topic, topic.heard x'.2 = n' topic + topic.listening x'.1

/-- Somebody listens where the task does. -/
theorem Paired.heard_pos (h : Paired n n' (task, c) (task', c')) {topic : Topic}
    (hlistens : 0 < n topic ∧ 0 < n' topic ∨ 0 < topic.listening task) :
    0 < topic.heard c ∧ 0 < topic.heard c' := by
  have hheard : topic.heard c = n topic + topic.listening task := h.heard topic
  have hheard' : topic.heard c' = n' topic + topic.listening task' := h.heard' topic
  have hsame : topic.listening task' = topic.listening task := h.task.listening topic
  omega

/-- A task has as much patience in both runs, since it has the same to read. -/
theorem Alike.patience (h : Alike True (fun topic => topic.Meets c c') task task')
    (hcache : Cache.Meeting K c c') : task'.patience c' = task.patience c := by
  have hunread : ∀ (topic : Topic) p p', topic.Meets c c' p p' →
      ((topic.channel c'.env.outputs).unread p').length =
        ((topic.channel c.env.outputs).unread p).length := fun topic p p' hmeets =>
    congrArg List.length (hmeets.unread (hcache.env.outputs.sameShape topic))
  simp only [Topic.channel] at hunread
  cases h with
  | deaf hdeaf =>
    cases task with
    | call | fetch | ended => rfl
    | watch w => exact absurd (hdeaf .updates) Nat.one_ne_zero
    | updates p => exact absurd (hdeaf .updates) Nat.one_ne_zero
    | errors p => exact absurd (hdeaf .errors) Nat.one_ne_zero
  | watch w hmeets =>
    have hsame := hunread .updates _ _ hmeets
    simp only [Channel.unread_map, List.length_map] at hsame
    exact congrArg (· + w.retries + 4) hsame
  | listens topic htask htask' hmeets =>
    have hsame := hunread topic _ _ hmeets
    rw [htask, htask']
    cases topic with
    | updates =>
      simp only [Channel.unread_map, List.length_map] at hsame
      exact congrArg (· + 2) hsame
    | errors =>
      simp only [Channel.unread_map, List.length_map] at hsame
      exact congrArg (· + 2) hsame

variable [DecidableEq P] [DecidableEq A]

omit [DecidableEq P] [DecidableEq A] in
/-- What is left of the relation when one of the tasks may be gone. -/
theorem Shares.cache (h : Shares (Environment.Alike (Outputs.Meeting K))
    (fun topic p p' => Environment.Alike (Outputs.Meeting (Outputs.Besides K topic p p'))) (task, c)
    (task', c')) :
    Cache.Meeting K c c' := by
  cases h with
  | deaf hdeaf h => exact h
  | watch w h => exact h.mono fun henv => henv.mono fun hv => hv.mono fun _ _ _ => .inl
  | listens topic htask htask' h =>
    exact h.mono fun henv => henv.mono fun hv => hv.mono fun _ _ _ => .inl

/-- Everybody who had the same to read has so still when a task is dropped. -/
theorem Alike.drop (h : Alike True (fun topic => topic.Meets c c') task task')
    (hcache : Cache.Meeting K c c') :
    Cache.Meeting (fun topic => topic.Meets c c') (task.drop c) (task'.drop c') := by
  have hgathered := hcache.gather
  refine alike_drop (Outputs.parting_meeting _).environments (h.mono (fun _ => hgathered) ?_)
  intro topic p p' _ hmeets
  exact hgathered.mono fun henv => henv.mono fun hv => hv.mono fun told q q' hq => by
    rcases hq with hq | ⟨rfl, rfl, rfl⟩
    · exact hq
    · exact hmeets

omit [DecidableEq P] [DecidableEq A] in
/-- A new task has nothing to read. -/
theorem paired_create (hcache : Cache.Meeting K c c') (request : Request P A V) :
    Paired (fun topic => topic.heard c) (fun topic => topic.heard c') (create c request)
        (create c' request) ∧
      Cache.Meeting (fun topic => topic.Meets c c') (create c request).2 (create c' request).2 := by
  have hgathered := hcache.gather
  have henters : ∀ told : Topic,
      Cache.Meeting (fun topic => topic.Meets c c') (told.enter c) (told.enter c') ∧
        told.Meets (told.enter c) (told.enter c') (told.channel c.env.outputs).sent
          (told.channel c'.env.outputs).sent := by
    intro told
    have hshape := hgathered.env.outputs.sameShape told
    refine ⟨hgathered.enter told, ?_⟩
    rw [Topic.Meets, told.channel_enter, told.channel_enter, if_pos rfl, if_pos rfl]
    exact hshape.orderly.meets hshape.orderly'
  have hheard : ∀ (told : Topic) {task : Task P A V E},
      (∀ topic : Topic, topic.listening task = if topic = told then 1 else 0) →
      ∀ (c : Cache P A V E) (topic : Topic),
        topic.heard (told.enter c) = topic.heard c + topic.listening task := by
    intro told task hlistens c topic
    rw [hlistens, Topic.heard, Topic.heard, told.channel_enter]
    split
    · rfl
    · rfl
  -- A task that does not listen is the same in both runs.
  have hdeaf : ∀ task : Task P A V E, (∀ topic : Topic, topic.listening task = 0) →
      Paired (fun topic => topic.heard c) (fun topic => topic.heard c') (task, c) (task, c') := by
    intro task hnone
    refine ⟨.deaf hnone trivial, hcache.forget, fun topic => ?_, fun topic => ?_⟩
    · rw [hnone, Nat.add_zero]
    · rw [hnone, Nat.add_zero]
  cases request with
  | stream whole key plan terms =>
    exact ⟨hdeaf _ fun topic => by cases topic <;> rfl, hgathered⟩
  | fetch params policy terms =>
    exact ⟨hdeaf _ fun topic => by cases topic <;> rfl, hgathered⟩
  | watch params retries =>
    obtain ⟨hcaches, hmeets⟩ := henters .updates
    have hcounts := fun w : Watch P A V E => hheard .updates fun topic => listening_watch topic w
    exact ⟨⟨.watch _ hmeets, hcaches.forget, hcounts _ c, hcounts _ c'⟩, hcaches⟩
  | updates =>
    obtain ⟨hcaches, hmeets⟩ := henters .updates
    have hcounts := fun p => hheard .updates fun topic => listening_task topic .updates p
    exact ⟨⟨.listens .updates rfl rfl hmeets, hcaches.forget, hcounts _ c, hcounts _ c'⟩, hcaches⟩
  | errors =>
    obtain ⟨hcaches, hmeets⟩ := henters .errors
    have hcounts := fun p => hheard .errors fun topic => listening_task topic .errors p
    exact ⟨⟨.listens .errors rfl rfl hmeets, hcaches.forget, hcounts _ c, hcounts _ c'⟩, hcaches⟩

variable [DecidableEq V]

/-- A task answers the same in both runs. -/
theorem Paired.poll (h : Paired n n' (task, c) (task', c')) :
    (task'.poll c').1 = (task.poll c).1 ∧ Paired n n' (task.poll c).2 (task'.poll c').2 ∧
      Reunites n n' c c' (task.poll c).2.2 (task'.poll c').2.2 := by
  let K (topic : Topic) (p p' : Nat) : Prop :=
    (0 < n topic ∧ 0 < n' topic) ∧ topic.Meets c c' p p'
  have houtputs := h.cache.env.outputs
  have hattended : Outputs.Attended K c.env.outputs c'.env.outputs :=
    ⟨⟨houtputs.sameShape, fun _ _ _ hp => hp.2, houtputs.audible⟩,
      fun _ _ _ hp => h.heard_pos (.inl hp.1)⟩
  have hshares : Shares (Environment.Alike (Outputs.Attended K))
      (fun topic p p' => Environment.Alike (Outputs.Attended (Outputs.Besides K topic p p')))
      (task, c) (task', c') := by
    refine h.task.mono (fun _ => h.cache.of_outputs hattended) ?_
    intro topic p p' hlistens hmeets
    exact h.cache.of_outputs (hattended.besides hmeets (h.heard_pos (.inr hlistens)))
  obtain ⟨hanswer, hafter⟩ := alike_poll (Outputs.shared_attended K).environments
    (Outputs.parting_meeting K).environments (fun henv => henv.mono fun hv => hv.toMeeting)
    (fun henv => henv.mono fun hv => hv.toMeeting) hshares
  have hcache : Cache.Meeting K _ _ := Shares.cache hafter
  have hcounts : ∀ (topic : Topic) (task : Task P A V E) (c : Cache P A V E) (k : Nat),
      topic.heard c = k + topic.listening task →
        topic.heard (task.poll c).2.2 = k + topic.listening (task.poll c).2.1 := by
    intro topic task c k hheard
    obtain ⟨events, -, hrelays⟩ := task.relayed_poll topic c
    exact hrelays.subscribers k hheard
  refine ⟨hanswer, ⟨?_, hcache.forget, ?_, ?_⟩, ?_⟩
  · refine hafter.mono (fun _ => trivial) ?_
    intro topic p p' _ halike
    exact halike.env.outputs.meets topic p p' (.inr ⟨rfl, rfl, rfl⟩)
  · exact fun topic => hcounts topic task c _ (h.heard topic)
  · exact fun topic => hcounts topic task' c' _ (h.heard' topic)
  · intro topic hheard hheard' p p' hmeets
    exact hcache.env.outputs.meets topic p p' ⟨⟨hheard, hheard'⟩, hmeets⟩

end Task

end ReadThrough
