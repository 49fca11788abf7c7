import ReadThrough.Proofs.Session.Ledger
import ReadThrough.Proofs.Session.Publications
/-!
# Proofs: who listens to the results

The channel of results has as many subscribers as there are tasks that listen to it
(`Session.attentive_run`). Whatever is done to some of the tasks, all others that listen are sent
what is published meanwhile (`Session.airs_step`).
-/

namespace ReadThrough

variable {P A V E : Type}

/-- How many subscriptions to the results a task holds. -/
def Task.listening : Task P A V E → Nat
  | .watch _ | .updates _ => 1
  | .call _ _ | .fetch _ | .errors _ | .ended => 0

namespace Session

/-- How many subscriptions to the results the tasks hold whose names count. -/
def listeners (counted : String → Bool) (tasks : Table String (Task P A V E)) : Nat :=
  (tasks.pairs.map fun p => if counted p.1 then p.2.listening else 0).sum

section Listeners

variable {counted : String → Bool} {tasks : Table String (Task P A V E)} {id : String}
  {task : Task P A V E}

/-- The subscriptions that count are those of one task that counts and of all others. -/
theorem listeners_of_get? (hcounted : counted id = true) (hget : tasks.get? id = some task) :
    listeners counted tasks = task.listening + listeners counted (tasks.erase id) :=
  weigh_of_get? hcounted hget

/-- A task listens besides all others. -/
theorem listeners_all (hget : tasks.get? id = some task) :
    listeners (fun _ => true) tasks = task.listening + listeners (· ≠ id) tasks := weigh_all hget

end Listeners

end Session

variable [DecidableEq P] [DecidableEq A]

/-! ## Tasks -/

section LoadReaches

variable {w w' : World P A V E} {visits : List Visit} {starts : Key P A → Bool → Prop}

/-- A lookup leaves the channel of results as it was. -/
theorem Environment.updates_lookup (env : Environment P A V E) (key : Key P A)
    (maxAge : Option Duration) : (env.lookup key maxAge).2.updates = env.updates := by
  unfold lookup readStore
  rcases env.store.get key with ⟨_ | entry, store⟩
  · rfl
  · simp only
    split <;> rfl

/-- What a request does besides its load publishes nothing. -/
theorem CallActs.aired (h : CallActs w w') (k : Nat) :
    ∃ events, Aired k k events w.cache w'.cache := by
  cases h with
  | @looks c c' loads key maxAge found hlook =>
    obtain ⟨events, htrace, hlooks⟩ := Cache.looks_lookup hlook
    have hsame : c'.env.updates = c.env.updates ∧ c'.flights = c.flights := by
      unfold Cache.lookup at hlook
      split at hlook
      · cases hlook
        exact ⟨c.env.updates_lookup key maxAge, rfl⟩
      · cases hlook
    exact ⟨events, .of_told htrace (updates_of_untouched hlooks.untouched) hsame.1 hsame.2⟩
  | @judges c loads => exact ⟨[], .of_told (List.append_nil _).symm rfl rfl rfl⟩
  | @notes c loads event hremark =>
    have hnone : updates [event] = [] := by
      cases event with
      | updatePublished params delivery => cases hremark
      | _ => rfl
    exact ⟨[event], .of_told rfl hnone rfl rfl⟩

/-- A load step sends what it publishes, and no subscriber comes or goes. -/
theorem LoadStep.aired (h : LoadStep CallActs starts w visits w') (k : Nat) :
    ∃ events, Aired k k events w.cache w'.cache := by
  cases h with
  | rests hrests => exact hrests.aired k
  | begins => exact ⟨[], .refl k _⟩
  | polls load => exact Load.aired_poll k load _
  | drops load =>
    obtain ⟨events, -, haired⟩ := Load.aired_drop k load _
    exact ⟨events, haired⟩

/-- Along a path all that is published is sent, and no subscriber comes or goes. -/
theorem LoadReaches.aired (h : LoadReaches CallActs starts w w') (k : Nat) :
    ∃ events, Aired k k events w.cache w'.cache := by
  obtain ⟨visits, hpath⟩ := h
  induction hpath with
  | refl => exact ⟨[], .refl k _⟩
  | tail _ hlast ih =>
    obtain ⟨events, hbefore⟩ := ih
    obtain ⟨events', hafter⟩ := hlast.aired k
    exact ⟨_, hbefore.trans hafter⟩

end LoadReaches

namespace Task

variable {c : Cache P A V E}

omit [DecidableEq P] [DecidableEq A] in
/-- A new task that listens is one subscriber more, and publishes nothing. -/
theorem aired_create (c : Cache P A V E) (request : Request P A V) :
    Aired 0 (create c request).1.listening [] c (create c request).2 := by
  have htrace : ∀ {trace : List (Event P A V E)}, trace = trace ++ [] :=
    fun {trace} => (List.append_nil trace).symm
  cases request with
  | stream whole key plan terms => exact .refl 0 c
  | fetch params policy terms => exact .refl 0 c
  | watch params retries => exact .of_flights htrace (Channel.airs_subscribe 0 _) rfl
  | updates => exact .of_flights htrace (Channel.airs_subscribe 0 _) rfl
  | errors => exact .of_flights htrace (.refl 0 _) rfl

omit [DecidableEq P] [DecidableEq A] in
/-- A subscription to the results ends. -/
theorem aired_unsubscribe (c : Cache P A V E) :
    Aired 1 0 [] c { c with env.updates := c.env.updates.unsubscribe } :=
  .of_flights (List.append_nil _).symm (Channel.airs_unsubscribe 0 _) rfl

/-- Dropping a task publishes nothing. -/
theorem aired_drop (task : Task P A V E) (c : Cache P A V E) :
    ∃ events, ReadThrough.updates events = [] ∧ Aired task.listening 0 events c (task.drop c) := by
  have hcall : ∀ call : Call P A V E,
      ∃ events, ReadThrough.updates events = [] ∧ Aired 0 0 events c (call.drop c) := by
    intro call
    unfold Call.drop
    cases call.stage with
    | loading load => exact Load.aired_drop 0 load c
    | looking | rescuing | spent => exact ⟨[], rfl, .refl 0 c⟩
  cases task with
  | call whole call => exact hcall call
  | fetch f => exact hcall f.call
  | updates position => exact ⟨[], rfl, aired_unsubscribe c⟩
  | errors position => exact ⟨[], rfl, .of_flights (List.append_nil _).symm (.refl 0 _) rfl⟩
  | ended => exact ⟨[], rfl, .refl 0 c⟩
  | watch w =>
    have hleaves := aired_unsubscribe c
    show ∃ events, _ ∧ Aired 1 0 events c (w.drop c)
    unfold Watch.drop
    cases w.inquiry with
    | answered => exact ⟨[], rfl, hleaves⟩
    | loading remaining load =>
      obtain ⟨events, hnone, hdrops⟩ :=
        Load.aired_drop 0 load { c with env.updates := c.env.updates.unsubscribe }
      exact ⟨events, hnone, hleaves.trans hdrops⟩

/-- To note what a subscriber has missed publishes nothing. -/
theorem aired_noteMissed (k : Nat) (c : Cache P A V E) (channel : String) (missed : Nat) :
    ∃ events, Aired k k events c (c.noteMissed channel missed) := by
  have hreach : LoadReaches CallActs (fun _ _ => True) ⟨c, 0⟩ _ :=
    LoadReaches.noteMissed channel missed
  exact hreach.aired k

variable [DecidableEq V]

/-- A poll of a sound task sends what it publishes, and takes along the subscriptions that the task
gives up. -/
theorem aired_poll {task : Task P A V E} (hsound : task.Sound) (c : Cache P A V E) :
    ∃ events, Aired task.listening (task.poll c).2.1.listening events c (task.poll c).2.2 := by
  unfold poll
  cases task with
  | ended => exact ⟨[], .refl 0 c⟩
  | call whole call =>
    have hallowed : call.Allowed fun _ _ => True := trivial
    have hpursued : Call.Pursued _ 0 _ _ _ := Call.pursued_poll hallowed c
    have hafter : (after (call.poll c).1 (.call whole (call.poll c).2.1)).listening = 0 :=
      weight_after rfl _ fun _ => rfl
    show ∃ events, Aired 0 (after (call.poll c).1 (.call whole (call.poll c).2.1)).listening _ _ _
    rw [hafter]
    exact hpursued.reaches.aired 0
  | fetch f =>
    have hallowed : f.call.Allowed fun _ _ => True := trivial
    have hpursued : Fetch.Pursued _ 0 _ _ _ := Fetch.pursued_poll hallowed hsound c
    have hafter : (after (f.poll c).1 (.fetch (f.poll c).2.1)).listening = 0 :=
      weight_after rfl _ fun _ => rfl
    show ∃ events, Aired 0 (after (f.poll c).1 (.fetch (f.poll c).2.1)).listening _ _ _
    rw [hafter]
    exact hpursued.reaches.aired 0
  | watch w =>
    have hallowed : w.Allowed fun _ _ => True := trivial
    have hpursued : Watch.Pursued _ 0 _ _ _ := Watch.pursued_poll hallowed c 0
    have hafter : (after (w.poll c).1 (.watch (w.poll c).2.1)).listening = 1 :=
      weight_after rfl _ fun hlast => absurd (hpursued.endless.symm.trans hlast) nofun
    show ∃ events, Aired 1 (after (w.poll c).1 (.watch (w.poll c).2.1)).listening _ _ _
    rw [hafter]
    exact hpursued.reaches.aired 1
  | updates position =>
    obtain ⟨events, hmissed⟩ := aired_noteMissed 1 c "updates"
      (c.env.updates.receive (fun _ => true) position).1
    simp only
    split
    · exact ⟨events, hmissed⟩
    · exact ⟨events, hmissed⟩
    · exact ⟨_, hmissed.trans (aired_unsubscribe _)⟩
  | errors position =>
    obtain ⟨events, hmissed⟩ := aired_noteMissed 0 c "errors"
      (c.env.errors.receive (fun _ => true) position).1
    simp only
    split
    · exact ⟨events, hmissed⟩
    · exact ⟨events, hmissed⟩
    · exact ⟨_, hmissed.trans (.of_flights (List.append_nil _).symm (.refl 0 _) rfl)⟩

end Task

/-! ## Sessions -/

namespace Session

/-- On the way from one session to another, what is published is sent to everybody who listens all
the while, besides the tasks whose names count. -/
def Airs (counted : String → Bool) (s s' : Session P A V E) : Prop :=
  ∃ events, Aired (listeners counted s.tasks) (listeners counted s'.tasks) events s.cache s'.cache

variable {counted : String → Bool} {s s' : Session P A V E} {id : String} {ids : List String}

omit [DecidableEq P] [DecidableEq A] in
/-- Where nothing happens everybody hears everything. -/
theorem Airs.refl (s : Session P A V E) : Airs counted s s := ⟨[], .refl _ _⟩

omit [DecidableEq P] [DecidableEq A] in
/-- What happens on the way is what is added to the trace. -/
theorem Airs.aired (h : Airs counted s s') :
    Aired (listeners counted s.tasks) (listeners counted s'.tasks)
      (s'.cache.env.trace.drop s.cache.env.trace.length) s.cache s'.cache := by
  obtain ⟨events, haired⟩ := h
  rwa [haired.trace, List.drop_left]

/-- A task that is dropped takes its subscriptions along, and publishes nothing. -/
theorem aired_dropTask (s : Session P A V E) (hcounted : counted id = true) :
    ∃ events, updates events = [] ∧ Aired (listeners counted s.tasks)
      (listeners counted (s.dropTask id).tasks) events s.cache (s.dropTask id).cache := by
  unfold dropTask
  cases hget : s.tasks.get? id with
  | none => exact ⟨[], rfl, .refl _ s.cache⟩
  | some task =>
    obtain ⟨events, hnone, haired⟩ := task.aired_drop s.cache
    have hothers := haired.add (listeners counted (s.tasks.erase id))
    rw [Nat.zero_add, ← listeners_of_get? hcounted hget] at hothers
    exact ⟨events, hnone, hothers⟩

variable [DecidableEq V]

/-- Whatever is done with a task, what is published is sent to everybody else who listens. -/
theorem lifts_aired : Lifts (P := P) (A := A) (V := V) (E := E) Task.listening
    fun k k' c c' => ∃ events, Aired k k' events c c' where
  refl k c := ⟨[], .refl k c⟩
  trans := fun ⟨_, haired⟩ ⟨_, haired'⟩ => ⟨_, haired.trans haired'⟩
  add := fun ⟨_, haired⟩ m => ⟨_, haired.add m⟩
  create c request := ⟨[], Task.aired_create c request⟩
  drop task c := by
    obtain ⟨events, -, haired⟩ := task.aired_drop c
    exact ⟨events, haired⟩
  poll hsound c := Task.aired_poll hsound c
  rests k htrace hevents hupdates _ hflights := by
    refine ⟨_, .of_told htrace (List.filterMap_eq_nil_iff.mpr fun event hevent => ?_) hupdates
      hflights⟩
    have hnone := hevents event hevent
    cases event with
    | updatePublished params delivery => cases hnone
    | _ => rfl

/-- To close the cache is heard as a way on which only the dependents of the cache leave. -/
theorem airs_close (s : Session P A V E) (hcounted : ∀ id ∈ s.dependents, counted id = true) :
    Airs counted s s.close := by
  obtain ⟨events, hdrop⟩ := lifts_aired.dropTasks s hcounted
  have hclose : ∀ (k : Nat) (c : Cache P A V E), Aired k k [] c c.close := fun k c =>
    .of_settledAlike (List.append_nil _).symm (Channel.airs_close k _) (.refl c.flights) id
      (.refl c.flights)
  exact ⟨_, hdrop.trans (hclose _ _)⟩

/-- A poll of a task that counts is heard by all that do not count. -/
theorem airs_pollTask (hsound : s.Sound) (hcounted : counted id = true) :
    Airs counted s (s.pollTask id).2 := lifts_aired.pollTask hsound hcounted

/-- A step is heard by all tasks that it does not touch. -/
theorem airs_perform (hsound : s.Sound) {st : Step P A V}
    (hcounted : ∀ id ∈ st.touched s, counted id = true) : Airs counted s (s.perform st).2 := by
  by_cases hclose : st = .close
  · subst hclose
    exact airs_close s hcounted
  · exact lifts_aired.perform hsound hclose hcounted

/-- All that a step publishes is sent to everybody who listens all the while. -/
theorem airs_step (hsound : s.Sound) {st : Step P A V}
    (hcounted : ∀ id ∈ st.touched s, counted id = true) : Airs counted s.fresh (s.step st).2 := by
  have hfresh : s.fresh.Sound := hsound
  rw [step_snd]
  split
  · exact .refl s.fresh
  · exact airs_perform hfresh hcounted

/-! ## Every run -/

/-- All is in order: the tasks, the executions, and the subscribers of the channel of results, which
are the tasks that listen to it. -/
structure Attentive (s : Session P A V E) : Prop where
  steady : s.Steady
  keyed : Keyed s.cache.flights
  subscribed : s.cache.env.updates.subscribers = listeners (fun _ => true) s.tasks
  holds : s.cache.env.updates.buffer.length ≤ s.cache.env.updates.sent

omit [DecidableEq V] in
/-- What is heard by everybody leaves all in order. -/
theorem Attentive.airs (h : s.Attentive) (hsteady : s'.Steady) (hairs : Airs (fun _ => true) s s') :
    s'.Attentive := by
  obtain ⟨events, haired⟩ := hairs
  have hsubscribed := haired.airs.subscribers 0 (h.subscribed.trans (Nat.zero_add _).symm)
  exact ⟨hsteady, haired.keyed h.keyed, hsubscribed.trans (Nat.zero_add _),
    haired.airs.holds h.holds⟩

/-- A poll leaves all in order. -/
theorem Attentive.polls (h : s.Attentive) (id : String) : (s.pollTask id).2.Attentive :=
  h.airs (h.steady.polls id) (airs_pollTask h.steady.sound rfl)

omit [DecidableEq V] in
/-- An empty trace leaves all in order. -/
theorem Attentive.fresh (h : s.Attentive) : s.fresh.Attentive :=
  ⟨h.steady.fresh, h.keyed, h.subscribed, h.holds⟩

/-- A step leaves all in order. -/
theorem Attentive.steps (h : s.Attentive) (st : Step P A V) : (s.step st).2.Attentive :=
  h.fresh.airs (h.steady.steps st) (airs_step h.steady.sound fun _ _ => rfl)

/-- A run leaves all in order. -/
theorem Attentive.run (h : s.Attentive) (steps : List (Step P A V)) :
    (s.run steps).2.Attentive := by
  induction steps generalizing s with
  | nil => exact h
  | cons st rest ih => exact ih (h.steps st)

/-- All is in order throughout every run from the beginning. -/
theorem attentive_run (setup : Setup (Store (Key P A) V)) (source : Source P V E)
    (steps : List (Step P A V)) :
    ((create (Cache.create setup source)).run steps).2.Attentive := by
  have hstart : (create (Cache.create setup source)).Attentive :=
    ⟨steady_create setup source, fun e x work hx => (by cases hx), rfl, Nat.le_refl 0⟩
  exact hstart.run steps

end Session

end ReadThrough
