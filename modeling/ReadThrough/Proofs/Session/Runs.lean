import ReadThrough.Proofs.Polling
import ReadThrough.Proofs.Session.LoadPaths
/-!
# Proofs: what holds throughout a run

Every part of a step follows a path of load steps (`Travels`), each of which is made of moves
(`Goes`) and adds events to the trace. So what is kept by each move, with the events that it adds,
holds of all events of a run (`kept_run`), and if no load is begun but some, it needs to be kept by
load steps that begin no others (`kept_travels`). A write past the cache is no move. What does not
mind such writes holds of the events that are not theirs (`kept_own`).
-/

namespace ReadThrough

variable {P A V E : Type}

section LoadReaches

variable [DecidableEq P] [DecidableEq A]

/-! ## Tasks -/

/-- What a request loads: a key, and whether the load may be shared. -/
def Request.aim? : Request P A V → Option (Key P A × Bool)
  | .stream _ key _ terms => some (key, terms.share)
  | .fetch params _ terms => some (Key.ofParams params, terms.share)
  | .watch params _ => some (Key.ofParams params, true)
  | .updates | .errors => none

/-- The loads of a request may be begun. -/
def Request.Allowed (starts : Key P A → Bool → Prop) (request : Request P A V) : Prop :=
  ∀ key share, request.aim? = some (key, share) → starts key share

namespace Task

/-- A task of which only the last result matters is sound. -/
def Sound : Task P A V E → Prop
  | .fetch request => request.Sound
  | .call _ _ | .watch _ | .updates _ | .errors _ | .ended => True

/-- What a task loads: a key, and whether the load may be shared. -/
def aim? : Task P A V E → Option (Key P A × Bool)
  | .call _ request => some (request.key, request.terms.share)
  | .fetch request => some (request.call.key, request.call.terms.share)
  | .watch w => some (Key.ofParams w.params, true)
  | .updates _ | .errors _ | .ended => none

/-- The loads of a task may be begun. -/
def Allowed (starts : Key P A → Bool → Prop) (task : Task P A V E) : Prop :=
  ∀ key share, task.aim? = some (key, share) → starts key share

/-- A task is sound, and its loads may be begun. -/
structure Fit (starts : Key P A → Bool → Prop) (task : Task P A V E) : Prop where
  sound : task.Sound
  allowed : task.Allowed starts

variable {starts : Key P A → Bool → Prop} {loads : Multiset (Load P A V E)}

omit [DecidableEq P] [DecidableEq A] in
/-- If all loads may be begun, a task needs to be sound only. -/
theorem Sound.fit {task : Task P A V E} (h : task.Sound) : task.Fit fun _ _ => True :=
  ⟨h, fun _ _ _ => trivial⟩

omit [DecidableEq P] [DecidableEq A] in
/-- A task with an aim is allowed its loads if the aim is. -/
theorem allowed_of_aim {key : Key P A} {share : Bool} {task : Task P A V E}
    (haim : task.aim? = some (key, share)) (hstarts : starts key share) : task.Allowed starts := by
  intro key' share' haim'
  cases haim.symm.trans haim'
  exact hstarts

omit [DecidableEq P] [DecidableEq A] in
/-- A sound task that loads nothing is fit whatever may be begun. -/
theorem fit_of_aimless {task : Task P A V E} (hsound : task.Sound) (haim : task.aim? = none) :
    task.Fit starts := by
  refine ⟨hsound, fun key share haim' => ?_⟩
  cases haim.symm.trans haim'

omit [DecidableEq P] [DecidableEq A] in
/-- A new task aims at what its request does. -/
theorem aim?_create (c : Cache P A V E) (request : Request P A V) :
    (create c request).1.aim? = request.aim? := by
  cases request <;> rfl

/-- To make a task is a path, and the task is fit if its request is allowed. -/
theorem reaches_create (c : Cache P A V E) {request : Request P A V}
    (hallowed : request.Allowed starts) (loads : Multiset (Load P A V E)) :
    LoadReaches OwnActs starts ⟨c, loads⟩
        ⟨(create c request).2, held (create c request).1.load? loads⟩ ∧
      (create c request).1.Fit starts := by
  have hcall : ∀ (key : Key P A) (plan : Plan V) (terms : Terms), starts key terms.share →
      LoadReaches OwnActs starts ⟨c, loads⟩
        ⟨c, held (Call.create key plan terms : Call P A V E).load? loads⟩ := by
    intro key plan terms hstarts
    rw [Call.load?_create]
    split
    · exact .refl _
    · exact .single (.begins hstarts)
  have hallowed' : (create c request).1.Allowed starts := by
    rw [Allowed, aim?_create]
    exact hallowed
  cases request with
  | stream whole key plan terms =>
    exact ⟨hcall key plan terms (hallowed _ _ rfl), trivial, hallowed'⟩
  | fetch params policy terms =>
    exact ⟨hcall _ (.policy policy) terms (hallowed _ _ rfl), fun h => (by cases h), hallowed'⟩
  | watch params retries =>
    have hstarts : starts (Key.ofParams params) true := hallowed _ _ rfl
    have hsubscribes : LoadReaches OwnActs starts ⟨c, loads⟩ _ := .tend .subscribesUpdates rfl rfl
    exact ⟨hsubscribes.trans (.single (.begins hstarts)), trivial, hallowed'⟩
  | updates => exact ⟨.tend .subscribesUpdates rfl rfl, trivial, hallowed'⟩
  | errors => exact ⟨.tend .subscribesErrors rfl rfl, trivial, hallowed'⟩

/-- To drop a task is a path that drops its load. -/
theorem reaches_drop (task : Task P A V E) (c : Cache P A V E) :
    LoadReaches OwnActs starts ⟨c, held task.load? loads⟩ ⟨task.drop c, loads⟩ := by
  cases task with
  | call whole request => exact (request.reaches_drop c).ownActs
  | fetch request => exact (request.call.reaches_drop c).ownActs
  | updates position => exact .tend .unsubscribesUpdates rfl rfl
  | errors position => exact .tend .unsubscribesErrors rfl rfl
  | ended => exact .refl _
  | watch w => exact w.reaches_drop c

omit [DecidableEq P] [DecidableEq A] in
/-- A task that has told its end is replaced by one that holds no load, as it did. -/
theorem load?_after {I : Type} {answer : Answer I} {task : Task P A V E}
    (hover : answer.isLast = true → task.load? = none) :
    (after answer task).load? = task.load? := by
  cases answer with
  | pending => rfl
  | item item => rfl
  | done => exact (hover rfl).symm
  | panicked message => exact (hover rfl).symm

omit [DecidableEq P] [DecidableEq A] in
/-- A task is fit after any answer. -/
theorem fit_after {I : Type} (answer : Answer I) {task : Task P A V E} (hfit : task.Fit starts) :
    (after answer task).Fit starts := by
  cases answer with
  | pending => exact hfit
  | item item => exact hfit
  | done => exact fit_of_aimless trivial rfl
  | panicked message => exact fit_of_aimless trivial rfl

variable [DecidableEq V]

/-- A poll of a task is a path, and leaves the task fit. -/
theorem reaches_poll {task : Task P A V E} (hfit : task.Fit starts) (c : Cache P A V E)
    (loads : Multiset (Load P A V E)) :
    LoadReaches OwnActs starts ⟨c, held task.load? loads⟩
        ⟨(task.poll c).2.2, held (task.poll c).2.1.load? loads⟩ ∧
      (task.poll c).2.1.Fit starts := by
  obtain ⟨hsound, hallowed⟩ := hfit
  unfold poll
  cases task with
  | ended => exact ⟨.refl _, fit_of_aimless trivial rfl⟩
  | call whole request =>
    have hallowed : request.Allowed starts := hallowed _ _ rfl
    have hpursued : Call.Pursued starts loads _ _ _ := Call.pursued_poll hallowed c
    have hfit' : Fit starts (.call whole (request.poll c).2.1) :=
      ⟨trivial, allowed_of_aim rfl (hpursued.allowed hallowed)⟩
    refine ⟨?_, fit_after _ hfit'⟩
    show LoadReaches _ _ _
      ⟨_, held (after (request.poll c).1 (.call whole (request.poll c).2.1)).load? loads⟩
    rw [load?_after hpursued.ended]
    exact hpursued.reaches.ownActs
  | fetch request =>
    have hallowed : request.call.Allowed starts := hallowed _ _ rfl
    have hpursued : Fetch.Pursued starts loads _ _ _ := Fetch.pursued_poll hallowed hsound c
    have hfit' : Fit starts (.fetch (request.poll c).2.1) :=
      ⟨hpursued.sound, allowed_of_aim rfl (hpursued.allowed hallowed)⟩
    refine ⟨?_, fit_after _ hfit'⟩
    show LoadReaches _ _ _
      ⟨_, held (after (request.poll c).1 (.fetch (request.poll c).2.1)).load? loads⟩
    rw [load?_after hpursued.ended]
    exact hpursued.reaches.ownActs
  | watch w =>
    have hallowed : w.Allowed starts := hallowed _ _ rfl
    obtain ⟨hreach, hlast, hparams⟩ := Watch.pursued_poll hallowed c loads
    have hfit' : Fit starts (.watch (w.poll c).2.1) := by
      refine ⟨trivial, allowed_of_aim rfl ?_⟩
      rw [hparams]
      exact hallowed
    refine ⟨?_, fit_after _ hfit'⟩
    show LoadReaches _ _ _ ⟨_, held (after (w.poll c).1 (.watch (w.poll c).2.1)).load? loads⟩
    rw [load?_after fun h => absurd (hlast.symm.trans h) Bool.false_ne_true]
    exact hreach.ownActs
  | updates position =>
    have hmissed : LoadReaches CallActs starts ⟨c, loads⟩ _ := LoadReaches.noteMissed "updates"
      (c.env.updates.receive (fun _ => true) position).1
    simp only
    split
    · exact ⟨hmissed.ownActs, fit_of_aimless trivial rfl⟩
    · exact ⟨hmissed.ownActs, fit_of_aimless trivial rfl⟩
    · exact ⟨hmissed.ownActs.trans (.tend .unsubscribesUpdates rfl rfl), fit_of_aimless trivial rfl⟩
  | errors position =>
    have hmissed : LoadReaches CallActs starts ⟨c, loads⟩ _ := LoadReaches.noteMissed "errors"
      (c.env.errors.receive (fun _ => true) position).1
    simp only
    split
    · exact ⟨hmissed.ownActs, fit_of_aimless trivial rfl⟩
    · exact ⟨hmissed.ownActs, fit_of_aimless trivial rfl⟩
    · exact ⟨hmissed.ownActs.trans (.tend .unsubscribesErrors rfl rfl), fit_of_aimless trivial rfl⟩

omit [DecidableEq V] in
/-- To make a task takes moves, and leaves it sound. -/
theorem moves_create (c : Cache P A V E) (request : Request P A V)
    (loads : Multiset (Load P A V E)) :
    Moves ⟨c, loads⟩ ⟨(create c request).2, held (create c request).1.load? loads⟩ ∧
      (create c request).1.Sound := by
  obtain ⟨hreach, hfit⟩ := reaches_create c (fun _ _ _ => trivial) loads
  exact ⟨hreach.sessionActs.moves SessionActs.moves, hfit.sound⟩

omit [DecidableEq V] in
/-- To drop a task takes moves. -/
theorem moves_drop (task : Task P A V E) (c : Cache P A V E) :
    Moves ⟨c, held task.load? loads⟩ ⟨task.drop c, loads⟩ := by
  have hreach : LoadReaches OwnActs (fun _ _ => True) ⟨c, held task.load? loads⟩ _ :=
    task.reaches_drop c
  exact hreach.sessionActs.moves SessionActs.moves

/-- A poll of a task takes moves, and leaves the task sound. -/
theorem moves_poll {task : Task P A V E} (hsound : task.Sound) (c : Cache P A V E)
    (loads : Multiset (Load P A V E)) :
    Moves ⟨c, held task.load? loads⟩ ⟨(task.poll c).2.2, held (task.poll c).2.1.load? loads⟩ ∧
      (task.poll c).2.1.Sound := by
  obtain ⟨hreach, hfit⟩ := reaches_poll hsound.fit c loads
  exact ⟨hreach.sessionActs.moves SessionActs.moves, hfit.sound⟩

end Task

end LoadReaches

/-! ## Sessions -/

/-- The world after an entry was written past the cache. -/
def World.put [DecidableEq P] [DecidableEq A] (w : World P A V E) (key : Key P A)
    (entry : Entry V) : World P A V E :=
  { w with cache.env := w.cache.env.writeStore key entry }

/-- The events that reports tell of, in order. -/
def eventsOf (reports : List (Session.Report P A V E)) : List (Event P A V E) :=
  reports.flatMap (·.events)

namespace Session

/-- The cache of a session, with the loads that its tasks hold. -/
def world (s : Session P A V E) : World P A V E := ⟨s.cache, loadsOf s.tasks⟩

variable [DecidableEq P] [DecidableEq A]

/-- All tasks are sound. -/
def Sound (s : Session P A V E) : Prop :=
  ∀ ⦃id : String⦄ ⦃task : Task P A V E⦄, s.tasks.get? id = some task → task.Sound

/-- All tasks are sound, and their loads may be begun. -/
def Fit (starts : Key P A → Bool → Prop) (s : Session P A V E) : Prop :=
  ∀ ⦃id : String⦄ ⦃task : Task P A V E⦄, s.tasks.get? id = some task → task.Fit starts

/-- Whether a step writes an entry past the cache. -/
def Step.isPut : Step P A V → Bool
  | .put _ _ => true
  | _ => false

/-- Whether a step asks the store past the cache. -/
def Step.isAsk : Step P A V → Bool
  | .ask _ => true
  | _ => false

/-- The loads of the requests that a step begins may be begun. -/
def Step.Allowed (starts : Key P A → Bool → Prop) : Step P A V → Prop
  | .begin _ request | .run request => request.Allowed starts
  | _ => True

omit [DecidableEq P] [DecidableEq A] in
/-- A step that writes past the cache writes an entry for a key. -/
theorem Step.eq_put_of_isPut {st : Step P A V} (h : st.isPut = true) :
    ∃ key entry, st = .put key entry := by
  cases st with
  | put key entry => exact ⟨key, entry, rfl⟩
  | _ => cases h

omit [DecidableEq P] [DecidableEq A] in
/-- A step that asks the store past the cache asks a query. -/
theorem Step.eq_ask_of_isAsk {st : Step P A V} (h : st.isAsk = true) :
    ∃ query, st = .ask query := by
  cases st with
  | ask query => exact ⟨query, rfl⟩
  | _ => cases h

omit [DecidableEq P] [DecidableEq A] in
/-- Every step is allowed if all loads may be begun. -/
theorem Step.allowed_all (st : Step P A V) : st.Allowed fun _ _ => True := by
  cases st with
  | begin id request => exact fun _ _ _ => trivial
  | run request => exact fun _ _ _ => trivial
  | _ => trivial

/-- From a session to another along a path of load steps. -/
structure Travels (rests : World P A V E → World P A V E → Prop) (starts : Key P A → Bool → Prop)
    (s s' : Session P A V E) : Prop where
  reaches : LoadReaches rests starts s.world s'.world
  fit : s'.Fit starts

/-- From a session to another by moves. -/
structure Goes (s s' : Session P A V E) : Prop where
  moves : Moves s.world s'.world
  sound : s'.Sound

variable {rests : World P A V E → World P A V E → Prop} {starts : Key P A → Bool → Prop}
  {s s' s'' : Session P A V E}

/-- A fit session travels to itself. -/
theorem Travels.refl (h : s.Fit starts) : Travels rests starts s s := ⟨.refl _, h⟩

/-- Travels can be put one after the other. -/
theorem Travels.trans (h : Travels rests starts s s') (h' : Travels rests starts s' s'') :
    Travels rests starts s s'' :=
  ⟨h.reaches.trans h'.reaches, h'.fit⟩

/-- What a session does to its cache besides the loads is a travel. -/
theorem Travels.act {c : Cache P A V E} (h : s.Fit starts) (hacts : Acts s.cache c) :
    Travels SessionActs starts s { s with cache := c } := ⟨.act hacts, h⟩

/-- What a session does to its environment, the store and the trace aside, is a travel. -/
theorem Travels.tend {env : Environment P A V E} (h : s.Fit starts)
    (hacts : Acts s.cache { s.cache with env }) (hstore : env.store = s.cache.env.store)
    (htrace : env.trace = s.cache.env.trace) : Travels OwnActs starts s (s.withEnv env) :=
  ⟨.tend hacts hstore htrace, h⟩

/-- A travel without questions to the store is a travel of a session. -/
theorem Travels.sessionActs (h : Travels OwnActs starts s s') : Travels SessionActs starts s s' :=
  ⟨h.reaches.sessionActs, h.fit⟩

omit [DecidableEq P] [DecidableEq A] in
/-- There are no tasks at first. -/
theorem sound_create (c : Cache P A V E) : (create c).Sound := fun _ _ hget => by cases hget

omit [DecidableEq P] [DecidableEq A] in
/-- A sound session is fit if all loads may be begun. -/
theorem Sound.fit (h : s.Sound) : s.Fit fun _ _ => True := fun _ _ hget => (h hget).fit

/-- Whatever a session reaches on a travel it reaches by moves. -/
theorem Travels.goes (h : Travels SessionActs starts s s') : Goes s s' :=
  ⟨h.reaches.moves SessionActs.moves, fun _ _ hget => (h.fit hget).sound⟩

omit [DecidableEq P] [DecidableEq A] in
/-- A fit session stays fit with one fit task more. -/
theorem Fit.insert (h : s.Fit starts) {id : String} {task : Task P A V E}
    (htask : task.Fit starts) : Fit starts { s with tasks := s.tasks.insert id task } := by
  intro id' task' hget
  by_cases hid : id' = id
  · subst hid
    rw [Table.get?_insert_self, Option.some.injEq] at hget
    exact hget ▸ htask
  · rw [Table.get?_insert_of_ne _ _ hid] at hget
    exact h hget

/-- A fit session stays fit with one task less. -/
theorem Fit.dropTask (h : s.Fit starts) (id : String) : (s.dropTask id).Fit starts := by
  intro id' task hget
  rw [tasks_dropTask] at hget
  split at hget
  · cases hget
  · exact h hget

/-- Dropping a task, while another load may be held. -/
theorem reaches_dropTask (s : Session P A V E) (id : String) (load : Option (Load P A V E)) :
    LoadReaches OwnActs starts ⟨s.cache, held load (loadsOf s.tasks)⟩
      ⟨(s.dropTask id).cache, held load (loadsOf (s.dropTask id).tasks)⟩ := by
  rw [cache_dropTask, loadsOf_dropTask]
  cases hget : s.tasks.get? id with
  | none =>
    rw [loadsOf_of_get?_none hget]
    exact .refl _
  | some task =>
    rw [loadsOf_of_get? hget, held_comm]
    exact task.reaches_drop s.cache

/-- To drop a task by its name is a travel. -/
theorem travels_dropTask (h : s.Fit starts) (id : String) :
    Travels OwnActs starts s (s.dropTask id) :=
  ⟨s.reaches_dropTask id none, h.dropTask id⟩

/-- To drop tasks one after the other is a travel. -/
theorem travels_dropTasks (h : s.Fit starts) (ids : List String) :
    Travels OwnActs starts s (ids.foldl (fun s id => s.dropTask id) s) := by
  induction ids generalizing s with
  | nil => exact .refl h
  | cons id ids ih =>
    have hdrop := travels_dropTask h id
    exact hdrop.trans (ih hdrop.fit)

/-- To begin a task under a name is a travel, if its loads are allowed. -/
theorem travels_beginTask (h : s.Fit starts) (id : String) {request : Request P A V}
    (hallowed : request.Allowed starts) : Travels OwnActs starts s (s.beginTask id request) := by
  obtain ⟨hcreate, htask⟩ := Task.reaches_create s.cache hallowed (loadsOf s.tasks)
  unfold beginTask
  rcases hnew : Task.create s.cache request with ⟨task, cache⟩
  rw [hnew] at hcreate htask
  have hdrop : LoadReaches OwnActs starts ⟨cache, held task.load? (loadsOf s.tasks)⟩ _ :=
    reaches_dropTask { s with cache } id task.load?
  have hfit : Fit starts { s with cache } := h
  refine ⟨(hcreate.trans hdrop).trans ?_, Fit.insert (hfit.dropTask id) htask⟩
  show LoadReaches _ _ _ ⟨_, loadsOf ((dropTask id { s with cache }).tasks.insert id task)⟩
  have hgone : (dropTask id { s with cache }).tasks.get? id = none := by
    rw [tasks_dropTask, if_pos rfl]
  rw [loadsOf_insert, ← loadsOf_of_get?_none hgone]
  exact .refl _

/-- To close the cache is a travel. -/
theorem travels_close (h : s.Fit starts) : Travels OwnActs starts s s.close := by
  have hdrop := travels_dropTasks h s.dependents
  -- A task that needs no cache holds no load.
  have hzero : loadsOf (s.dependents.foldl (fun s id => s.dropTask id) s).tasks = 0 := by
    refine loadsOf_eq_zero fun id task hget => ?_
    rw [tasks_dropTasks] at hget
    split at hget
    · cases hget
    · rename_i hmem
      cases task with
      | call whole request => exact absurd (s.tasks.mem_keysWhere hget rfl) hmem
      | fetch request => exact absurd (s.tasks.mem_keysWhere hget rfl) hmem
      | watch w => exact absurd (s.tasks.mem_keysWhere hget rfl) hmem
      | _ => rfl
  refine ⟨hdrop.reaches.trans (.single (.rests ?_)), hdrop.fit⟩
  unfold world
  show OwnActs ⟨_, loadsOf _⟩
    ⟨_, loadsOf (s.dependents.foldl (fun s id => s.dropTask id) s).tasks⟩
  rw [hzero]
  exact .closes

variable [DecidableEq V]

/-- To poll a task by its name is a travel. -/
theorem travels_pollTask (h : s.Fit starts) (id : String) :
    Travels OwnActs starts s (s.pollTask id).2 := by
  unfold pollTask
  cases hget : s.tasks.get? id with
  | none => exact .refl h
  | some task =>
    obtain ⟨hreach, htask⟩ :=
      Task.reaches_poll (h hget) s.cache (loadsOf (s.tasks.erase id))
    refine ⟨?_, Fit.insert h htask⟩
    show LoadReaches _ _ ⟨s.cache, loadsOf s.tasks⟩
      ⟨_, loadsOf (s.tasks.insert id (task.poll s.cache).2.1)⟩
    rw [loadsOf_insert, loadsOf_of_get? hget]
    exact hreach

/-- To drain a task is a travel of all its polls. -/
theorem travels_drainTask (h : s.Fit starts) (id : String) :
    Travels OwnActs starts s (s.drainTask id).2 :=
  drain_rel (R := fun s _ s' => s.Fit starts → Travels OwnActs starts s s') (fun _ => .refl)
    (fun hfirst hrest hs => (hfirst hs).trans (hrest (hfirst hs).fit))
    (fun _ hs => travels_pollTask hs id) _ s h

/-- To run a task at once is a travel, if its loads are allowed. -/
theorem travels_runTask (h : s.Fit starts) {request : Request P A V}
    (hallowed : request.Allowed starts) : Travels OwnActs starts s (s.runTask request).2 := by
  obtain ⟨hcreate, htask⟩ := Task.reaches_create s.cache hallowed (loadsOf s.tasks)
  unfold runTask
  rcases hnew : Task.create s.cache request with ⟨task, cache⟩
  rw [hnew] at hcreate htask
  let poll (p : Task P A V E × Cache P A V E) := p.1.poll p.2
  let Makes (p p' : Task P A V E × Cache P A V E) : Prop :=
    LoadReaches OwnActs starts ⟨p.2, held p.1.load? (loadsOf s.tasks)⟩
      ⟨p'.2, held p'.1.load? (loadsOf s.tasks)⟩
  have hpoll : ∀ p : Task P A V E × Cache P A V E, p.1.Fit starts →
      Makes p (poll p).2 ∧ (poll p).2.1.Fit starts := fun p hs =>
    Task.reaches_poll hs p.2 (loadsOf s.tasks)
  have hdrain := drain_under (R := Makes) (fun _ => .refl _) .trans hpoll (task.patience cache)
    htask
  exact ⟨(hcreate.trans hdrain.1).trans (Task.reaches_drop _ _), h⟩

/-- To poll tasks in turns is a travel of all polls. -/
theorem travels_join (h : s.Fit starts) (passes : Nat) (ids : List String) :
    Travels OwnActs starts s (join pollTask passes ids s).2 :=
  join_rel (R := fun s _ s' => s.Fit starts → Travels OwnActs starts s s') (fun _ => .refl)
    (fun hfirst hrest hs => (hfirst hs).trans (hrest (hfirst hs).fit))
    (fun id _ _ hs => travels_pollTask hs id) passes s h

/-- A write past the cache leaves a session fit. -/
theorem fit_put (h : s.Fit starts) (key : Key P A) (entry : Entry V) :
    (s.step (.put key entry)).2.Fit starts := by
  rw [step_snd]
  split
  · exact h
  · exact h

/-- A step follows a path that leaves what the store keeps of its use to the lookups and the loads,
unless it goes past the cache. -/
theorem ownActs_perform (h : s.Fit starts) {st : Step P A V} (hput : st.isPut = false)
    (hask : st.isAsk = false) (hallowed : st.Allowed starts) :
    Travels OwnActs starts s (s.perform st).2 := by
  cases st with
  | begin id request => exact travels_beginTask h id hallowed
  | run request => exact travels_runTask h hallowed
  | poll id => exact travels_pollTask h id
  | drain id => exact travels_drainTask h id
  | join ids => exact travels_join h (s.patience ids) ids
  | drop id => exact travels_dropTask h id
  | openGate gate => exact .tend h (.gates _) rfl rfl
  | closeGate gate => exact .tend h (.gates _) rfl rfl
  | advance d => exact .tend h (.advances d) rfl rfl
  | setTime now => exact .tend h (.setsTime now) rfl rfl
  | clear => exact ⟨.single (.rests .clears), h⟩
  | put key entry => cases hput
  | ask query => cases hask
  | overview => exact .refl h
  | close => exact travels_close h

/-- Every step but a write past the cache is a travel. -/
theorem travels_perform (h : s.Fit starts) {st : Step P A V} (hst : st.isPut = false)
    (hallowed : st.Allowed starts) : Travels SessionActs starts s (s.perform st).2 := by
  cases hask : st.isAsk with
  | false => exact (ownActs_perform h hst hask hallowed).sessionActs
  | true =>
    obtain ⟨query, rfl⟩ := Step.eq_ask_of_isAsk hask
    exact .act h (.asks query)

/-- A step follows a path from the session as it finds it, unless it writes past the cache. -/
theorem travels_step (h : s.Fit starts) {st : Step P A V} (hst : st.isPut = false)
    (hallowed : st.Allowed starts) : Travels SessionActs starts s.fresh (s.step st).2 := by
  have hfresh : s.fresh.Fit starts := h
  rw [step_snd]
  split
  · exact .refl hfresh
  · exact travels_perform hfresh hst hallowed

/-- A poll of a task takes moves. -/
theorem goes_pollTask (h : s.Sound) (id : String) : Goes s (s.pollTask id).2 :=
  (travels_pollTask h.fit id).sessionActs.goes

/-- A step makes moves from the session as it finds it, unless it writes past the cache. -/
theorem goes_step (h : s.Sound) {st : Step P A V} (hst : st.isPut = false) :
    Goes s.fresh (s.step st).2 :=
  (travels_step h.fit hst st.allowed_all).goes

/-- A write past the cache leaves a session sound. -/
theorem sound_put (h : s.Sound) (key : Key P A) (entry : Entry V) :
    (s.step (.put key entry)).2.Sound :=
  fun _ _ hget => (fit_put h.fit key entry hget).sound

/-- Every step leaves a session sound. -/
theorem sound_step (h : s.Sound) (st : Step P A V) : (s.step st).2.Sound := by
  cases hst : st.isPut with
  | false => exact (goes_step h hst).sound
  | true =>
    obtain ⟨key, entry, rfl⟩ := Step.eq_put_of_isPut hst
    exact sound_put h key entry

/-- Every run leaves a session sound. -/
theorem sound_run (h : s.Sound) (steps : List (Step P A V)) : (s.run steps).2.Sound := by
  induction steps generalizing s with
  | nil => exact h
  | cons st rest ih => exact ih (sound_step h st)

end Session

/-! ## What is kept -/

section Kept

variable {I : List (Event P A V E) → World P A V E → Prop} {T : List (Event P A V E)}
  {w w' w'' : World P A V E}

/-- From one world to another by adding events to the trace and to what is known. -/
def Leads (I : List (Event P A V E) → World P A V E → Prop) (T : List (Event P A V E))
    (w w' : World P A V E) : Prop :=
  ∃ events, w'.cache.env.trace = w.cache.env.trace ++ events ∧ I (T ++ events) w'

/-- Without an event a world leads to itself. -/
theorem Leads.refl (h : I T w) : Leads I T w w :=
  ⟨[], (List.append_nil _).symm, by rwa [List.append_nil]⟩

/-- What leads from one world to the next leads along both, with the events of both. -/
theorem Leads.trans (h : Leads I T w w') (hnext : ∀ {T}, I T w' → Leads I T w' w'') :
    Leads I T w w'' := by
  obtain ⟨events, htrace, hmid⟩ := h
  obtain ⟨events', htrace', hend⟩ := hnext hmid
  refine ⟨events ++ events', by rw [htrace', htrace, List.append_assoc], ?_⟩
  rw [← List.append_assoc]
  exact hend

variable [DecidableEq P] [DecidableEq A]

/-- What every move keeps, all moves keep. -/
theorem kept_moves (hmove : ∀ {T w w'}, Move w w' → I T w → Leads I T w w') (hmoves : Moves w w')
    (h : I T w) : Leads I T w w' := by
  induction hmoves with
  | refl => exact .refl h
  | tail _ hlast ih => exact ih.trans (hmove hlast)

/-- What every load step keeps, a path keeps. -/
theorem kept_path {rests : World P A V E → World P A V E → Prop} {starts : Key P A → Bool → Prop}
    (hloadStep : ∀ {T w visits w'}, LoadStep rests starts w visits w' → I T w → Leads I T w w')
    (hreach : LoadReaches rests starts w w') (h : I T w) : Leads I T w w' := by
  obtain ⟨visits, hpath⟩ := hreach
  induction hpath with
  | refl => exact .refl h
  | tail _ hlast ih => exact ih.trans (hloadStep hlast)

end Kept

namespace Session

variable [DecidableEq P] [DecidableEq A] [DecidableEq V]
  {I : List (Event P A V E) → World P A V E → Prop}

/-- The events of steps that do not write past the cache. -/
def ownEvents : List (Step P A V) → List (Report P A V E) → List (Event P A V E)
  | st :: steps, report :: reports =>
    (if st.isPut then [] else report.events) ++ ownEvents steps reports
  | _, _ => []

/-- What the load steps keep, a step of the session keeps that does not write past the cache. -/
theorem kept_step {starts : Key P A → Bool → Prop}
    (hloadStep : ∀ {T w visits w'}, LoadStep SessionActs starts w visits w' → I T w →
      Leads I T w w')
    (hfresh : ∀ {T} {s : Session P A V E}, I T s.world → I T s.fresh.world)
    {s : Session P A V E} (hs : s.Fit starts) {st : Step P A V} (hst : st.isPut = false)
    (hallowed : st.Allowed starts) {T : List (Event P A V E)} (h : I T s.world) :
    I (T ++ (s.step st).1.events) (s.step st).2.world ∧ (s.step st).2.Fit starts := by
  obtain ⟨hreach, hfit⟩ := travels_step hs hst hallowed
  obtain ⟨events, htrace, hstep⟩ := kept_path hloadStep hreach (hfresh h)
  have hevents : (s.step st).1.events = events := htrace
  exact ⟨hevents ▸ hstep, hfit⟩

/-- An entry is written past the cache, if there is one. -/
theorem kept_put {key : Key P A} {entry : Entry V}
    (hfresh : ∀ {T} {s : Session P A V E}, I T s.world → I T s.fresh.world)
    (hput : ∀ {T w}, I T w → Leads I T w (w.put key entry)) {s : Session P A V E}
    {T : List (Event P A V E)} (h : I T s.world) :
    I (T ++ (s.step (.put key entry)).1.events) (s.step (.put key entry)).2.world := by
  have hstep : Leads I T s.fresh.world (s.step (.put key entry)).2.world := by
    rw [step_snd]
    split
    · exact .refl (hfresh h)
    · exact hput (hfresh h)
  obtain ⟨events, htrace, hafter⟩ := hstep
  have hevents : (s.step (.put key entry)).1.events = events := htrace
  exact hevents ▸ hafter

/-- What is kept by every load step that begins only what may be begun, with the events that it adds
to the trace, and does not mind that the trace is emptied before every step, holds of all events of
a run that begins no others. -/
theorem kept_travels {starts : Key P A → Bool → Prop}
    (hloadStep : ∀ {T w visits w'}, LoadStep SessionActs starts w visits w' → I T w →
      Leads I T w w')
    (hfresh : ∀ {T} {s : Session P A V E}, I T s.world → I T s.fresh.world)
    {steps : List (Step P A V)}
    (hput : ∀ key entry, .put key entry ∈ steps →
      ∀ {T w}, I T w → Leads I T w (w.put key entry))
    (hallowed : ∀ st ∈ steps, st.Allowed starts) {s : Session P A V E} (hs : s.Fit starts)
    {T : List (Event P A V E)} (h : I T s.world) :
    I (T ++ eventsOf (s.run steps).1) (s.run steps).2.world := by
  induction steps generalizing s T with
  | nil => simpa [eventsOf, run] using h
  | cons st rest ih =>
    have hstep : I (T ++ (s.step st).1.events) (s.step st).2.world ∧
        (s.step st).2.Fit starts := by
      cases hst : st.isPut with
      | false => exact kept_step hloadStep hfresh hs hst (hallowed st (List.mem_cons_self ..)) h
      | true =>
        obtain ⟨key, entry, rfl⟩ := Step.eq_put_of_isPut hst
        exact ⟨kept_put hfresh (hput key entry (List.mem_cons_self ..)) h, fit_put hs key entry⟩
    have hrest := ih (fun key entry hmem => hput key entry (List.mem_cons_of_mem _ hmem))
      (fun st hmem => hallowed st (List.mem_cons_of_mem _ hmem)) hstep.2 hstep.1
    rwa [List.append_assoc] at hrest

section Moves

variable (hmove : ∀ {T w w'}, Move w w' → I T w → Leads I T w w')
  (hfresh : ∀ {T} {s : Session P A V E}, I T s.world → I T s.fresh.world)

include hmove

omit [DecidableEq V] in
/-- What is kept by every move is kept by every load step. -/
theorem kept_loadStep {T : List (Event P A V E)} {w w' : World P A V E} {visits : List Visit}
    (hloadStep : LoadStep SessionActs (fun _ _ => True) w visits w') (h : I T w) : Leads I T w w' :=
  kept_moves hmove (hloadStep.moves SessionActs.moves) h

include hfresh

/-- What is kept by every move, with the events that it adds to the trace, holds of all events of a
run. -/
theorem kept_run (hput : ∀ {T w}, I T w → ∀ key entry, Leads I T w (w.put key entry))
    (steps : List (Step P A V)) {s : Session P A V E} (hs : s.Sound) {T : List (Event P A V E)}
    (h : I T s.world) : I (T ++ eventsOf (s.run steps).1) (s.run steps).2.world :=
  kept_travels (kept_loadStep hmove) hfresh (fun key entry _ _ _ h => hput h key entry)
    (fun st _ => st.allowed_all) hs.fit h

/-- The same of the events that are not of writes past the cache. -/
theorem kept_own (hput : ∀ {T w}, I T w → ∀ key entry, I T (w.put key entry))
    (steps : List (Step P A V)) {s : Session P A V E} (hs : s.Sound) {T : List (Event P A V E)}
    (h : I T s.world) : I (T ++ ownEvents steps (s.run steps).1) (s.run steps).2.world := by
  induction steps generalizing s T with
  | nil => simpa [ownEvents, run] using h
  | cons st rest ih =>
    show I (T ++ ((if st.isPut then [] else _) ++ _)) _
    rw [← List.append_assoc]
    cases hst : st.isPut with
    | false =>
      obtain ⟨hstep, hfit⟩ := kept_step (kept_loadStep hmove) hfresh hs.fit hst st.allowed_all h
      exact ih (fun _ _ hget => (hfit hget).sound) hstep
    | true =>
      obtain ⟨key, entry, rfl⟩ := Step.eq_put_of_isPut hst
      rw [if_pos rfl, List.append_nil]
      refine ih (sound_put hs key entry) ?_
      rw [step_snd]
      split
      · exact hfresh h
      · exact hput (hfresh h) key entry

end Moves

end Session

end ReadThrough
