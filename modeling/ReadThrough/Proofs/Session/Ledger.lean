import ReadThrough.Proofs.Load.Deliveries
import ReadThrough.Proofs.Load.Outputs
import ReadThrough.Proofs.Session.Runs
/-!
# Proofs: what the tasks weigh together

Every task has a weight, such as the number of its subscriptions to a channel. If whatever is done
with one task links the caches before and after it, as the weight of this task changes, then every
step links them, as the weight of all tasks does that it may touch (`Session.Lifts.perform`).
-/

namespace ReadThrough

variable {P A V E : Type}

namespace Session

/-! ## Weights -/

/-- What the tasks weigh together whose names count. -/
def weigh (weight : Task P A V E → Nat) (counted : String → Bool)
    (tasks : Table String (Task P A V E)) : Nat :=
  (tasks.pairs.map fun p => if counted p.1 then weight p.2 else 0).sum

section Weigh

variable {weight : Task P A V E → Nat} {counted : String → Bool}
  {tasks : Table String (Task P A V E)} {id : String} {task : Task P A V E}

/-- The tasks weigh what one that counts weighs and all others. -/
theorem weigh_of_get? (hcounted : counted id = true) (hget : tasks.get? id = some task) :
    weigh weight counted tasks = weight task + weigh weight counted (tasks.erase id) := by
  rw [weigh, ((tasks.perm_pairs id).map _).sum_eq, hget]
  simp [weigh, hcounted]

/-- A name that nobody has weighs nothing. -/
theorem weigh_of_get?_none (hget : tasks.get? id = none) :
    weigh weight counted tasks = weigh weight counted (tasks.erase id) := by
  rw [weigh, ((tasks.perm_pairs id).map _).sum_eq, hget]
  simp [weigh]

/-- A task that takes a name that counts adds its weight to that of all others. -/
theorem weigh_insert (hcounted : counted id = true) :
    weigh weight counted (tasks.insert id task) =
      weight task + weigh weight counted (tasks.erase id) := by
  rw [weigh, ((tasks.perm_pairs_insert id task).map _).sum_eq]
  simp [weigh, hcounted]

/-- A task weighs something besides all others. -/
theorem weigh_all (hget : tasks.get? id = some task) :
    weigh weight (fun _ => true) tasks = weight task + weigh weight (· ≠ id) tasks := by
  have hsame : weigh weight (· ≠ id) (tasks.erase id) =
      weigh weight (fun _ => true) (tasks.erase id) :=
    congrArg List.sum (List.map_congr_left fun p hp => by simp only [(List.mem_filter.mp hp).2])
  have hwithout : weigh weight (· ≠ id) tasks = weigh weight (· ≠ id) (tasks.erase id) := by
    rw [weigh, ((tasks.perm_pairs id).map _).sum_eq, hget]
    simp [weigh]
  rw [weigh_of_get? rfl hget, hwithout, hsame]

end Weigh

end Session

/-- A task that has told its end weighs nothing, as it did before. -/
theorem Task.weight_after {I : Type} {weight : Task P A V E → Nat} (hended : weight .ended = 0)
    (answer : Answer I) {task : Task P A V E}
    (hnone : answer.isLast = true → weight task = 0) :
    weight (after answer task) = weight task := by
  cases answer with
  | pending => rfl
  | item item => rfl
  | done => exact hended.trans (hnone rfl).symm
  | panicked message => exact hended.trans (hnone rfl).symm

namespace Session

/-! ## Steps -/

variable [DecidableEq P] [DecidableEq A] [DecidableEq V]

/-- Whatever is done with a task links the caches before and after it, as its weight changes. -/
structure Lifts (weight : Task P A V E → Nat)
    (R : Nat → Nat → Cache P A V E → Cache P A V E → Prop) : Prop where
  refl : ∀ (k : Nat) (c : Cache P A V E), R k k c c
  trans : ∀ {k k' k'' : Nat} {c c' c'' : Cache P A V E}, R k k' c c' → R k' k'' c' c'' →
    R k k'' c c''
  /-- Other tasks are there besides. -/
  add : ∀ {k k' : Nat} {c c' : Cache P A V E}, R k k' c c' → ∀ m, R (k + m) (k' + m) c c'
  create : ∀ (c : Cache P A V E) (request : Request P A V),
    R 0 (weight (Task.create c request).1) c (Task.create c request).2
  drop : ∀ (task : Task P A V E) (c : Cache P A V E), R (weight task) 0 c (task.drop c)
  poll : ∀ {task : Task P A V E}, task.Sound → ∀ c : Cache P A V E,
    R (weight task) (weight (task.poll c).2.1) c (task.poll c).2.2
  /-- Something is told, and nothing is published. -/
  rests : ∀ {c c' : Cache P A V E} {events : List (Event P A V E)} (k : Nat),
    c'.env.trace = c.env.trace ++ events → (∀ event ∈ events, event.publishes = false) →
    c'.env.updates = c.env.updates → c'.env.errors = c.env.errors → c'.flights = c.flights →
    R k k c c'

/-- The caches of two sessions are linked, as the weight of those tasks changes whose names
count. -/
def Linked (weight : Task P A V E → Nat) (R : Nat → Nat → Cache P A V E → Cache P A V E → Prop)
    (counted : String → Bool) (s s' : Session P A V E) : Prop :=
  R (weigh weight counted s.tasks) (weigh weight counted s'.tasks) s.cache s'.cache

/-- The names of the tasks that a step may poll, drop or begin. -/
def Step.touched (s : Session P A V E) : Step P A V → List String
  | .begin id _ | .poll id | .drain id | .drop id => [id]
  | .join ids => ids
  | .close => s.dependents
  | .run _ | .openGate _ | .closeGate _ | .advance _ | .setTime _ | .clear | .put _ _ | .ask _
  | .overview => []

/-- Tasks that a step does not touch stay as they are. -/
theorem tasks_perform_of_not_touched (s : Session P A V E) {id : String} {st : Step P A V}
    (h : id ∉ st.touched s) : (s.perform st).2.tasks.get? id = s.tasks.get? id := by
  have hpoll : ∀ id' (s : Session P A V E), id ≠ id' →
      (s.pollTask id').2.tasks.get? id = s.tasks.get? id :=
    fun id' s hid => tasks_pollTask_of_ne s hid
  cases st with
  | run | openGate | closeGate | advance | setTime | clear | put | ask | overview => rfl
  | begin id' request =>
    have hid : id ≠ id' := List.ne_of_not_mem_cons h
    have hdrop := tasks_dropTask { s with cache := (Task.create s.cache request).2 } id id'
    rw [if_neg hid] at hdrop
    exact (Table.get?_insert_of_ne _ _ hid).trans hdrop
  | poll id' => exact hpoll id' s (List.ne_of_not_mem_cons h)
  | drain id' =>
    exact drain_keeps (K := fun s' : Session P A V E => s'.tasks.get? id = s.tasks.get? id)
      (fun s' hs => (hpoll id' s' (List.ne_of_not_mem_cons h)).trans hs) (s.patience [id']) rfl
  | join ids =>
    exact join_keeps (K := fun s' : Session P A V E => s'.tasks.get? id = s.tasks.get? id)
      (fun id' hid' s' hs => (hpoll id' s' fun heq => h (heq ▸ hid')).trans hs) (s.patience ids) rfl
  | drop id' =>
    exact (tasks_dropTask s id id').trans (if_neg (List.ne_of_not_mem_cons h))
  | close => exact (tasks_dropTasks s id s.dependents).trans (if_neg h)

namespace Lifts

variable {weight : Task P A V E → Nat} {R : Nat → Nat → Cache P A V E → Cache P A V E → Prop}
  {counted : String → Bool} {s s' s'' : Session P A V E} {id : String} {ids : List String}
  (hR : Lifts weight R)
include hR

/-- Where nothing happens the caches are linked. -/
theorem linked_refl (s : Session P A V E) : Linked weight R counted s s := hR.refl _ s.cache

/-- Links can be put one after the other. -/
theorem linked_trans (h : Linked weight R counted s s') (h' : Linked weight R counted s' s'') :
    Linked weight R counted s s'' := hR.trans h h'

/-- To drop a task links the caches as its weight goes. -/
theorem dropTask (s : Session P A V E) (hcounted : counted id = true) :
    Linked weight R counted s (s.dropTask id) := by
  unfold Session.dropTask
  cases hget : s.tasks.get? id with
  | none => exact hR.refl _ s.cache
  | some task =>
    have hothers := hR.add (hR.drop task s.cache) (weigh weight counted (s.tasks.erase id))
    rwa [Nat.zero_add, ← weigh_of_get? hcounted hget] at hothers

/-- To drop tasks links the caches as their weights go. -/
theorem dropTasks (s : Session P A V E) (hcounted : ∀ id ∈ ids, counted id = true) :
    Linked weight R counted s (ids.foldl (fun s id => s.dropTask id) s) := by
  induction ids generalizing s with
  | nil => exact hR.refl _ s.cache
  | cons id ids ih =>
    obtain ⟨hfirst, hrest⟩ := List.forall_mem_cons.mp hcounted
    exact hR.trans (hR.dropTask s hfirst) (ih _ hrest)

/-- To begin a task links the caches as its weight comes. -/
theorem beginTask (s : Session P A V E) (request : Request P A V) (hcounted : counted id = true) :
    Linked weight R counted s (s.beginTask id request) := by
  have hcreate := hR.add (hR.create s.cache request) (weigh weight counted s.tasks)
  rw [Nat.zero_add] at hcreate
  unfold Session.beginTask
  rcases hnew : Task.create s.cache request with ⟨task, cache⟩
  rw [hnew] at hcreate
  have hdrop := hR.add (hR.dropTask { s with cache } hcounted) (weight task)
  have hgone : (Session.dropTask id { s with cache }).tasks.get? id = none := by
    rw [tasks_dropTask, if_pos rfl]
  refine hR.trans hcreate ?_
  show R _ (weigh weight counted ((Session.dropTask id { s with cache }).tasks.insert id task)) _ _
  rw [weigh_insert hcounted, ← weigh_of_get?_none hgone, Nat.add_comm (weight task),
    Nat.add_comm (weight task)]
  exact hdrop

/-- To poll a task links the caches as its weight changes. -/
theorem pollTask (hsound : s.Sound) (hcounted : counted id = true) :
    Linked weight R counted s (s.pollTask id).2 := by
  unfold Session.pollTask
  cases hget : s.tasks.get? id with
  | none => exact hR.refl _ s.cache
  | some task =>
    have hothers := hR.add (hR.poll (hsound hget) s.cache) (weigh weight counted (s.tasks.erase id))
    rwa [← weigh_of_get? hcounted hget, ← weigh_insert hcounted] at hothers

/-- To drain a task links the caches as its weight changes. -/
theorem drainTask (hsound : s.Sound) (hcounted : counted id = true) :
    Linked weight R counted s (s.drainTask id).2 :=
  (drain_under (R := Linked weight R counted) hR.linked_refl hR.linked_trans
    (fun _ hs => ⟨hR.pollTask hs hcounted, (goes_pollTask hs id).sound⟩) _ hsound).1

/-- To poll tasks in turns links the caches as their weights change. -/
theorem join (hsound : s.Sound) (hcounted : ∀ id ∈ ids, counted id = true) (passes : Nat) :
    Linked weight R counted s (ReadThrough.join Session.pollTask passes ids s).2 :=
  (join_under (R := Linked weight R counted) hR.linked_refl hR.linked_trans
    (fun id hid _ hs => ⟨hR.pollTask hs (hcounted id hid), (goes_pollTask hs id).sound⟩) passes
    hsound).1

/-- A task that is run at once links the caches, and leaves all weights as they were. -/
theorem runTask (s : Session P A V E) (request : Request P A V) :
    Linked weight R counted s (s.runTask request).2 := by
  have hcreate := hR.create s.cache request
  obtain ⟨-, hsound⟩ := Task.moves_create s.cache request 0
  unfold Session.runTask
  rcases hnew : Task.create s.cache request with ⟨task, cache⟩
  rw [hnew] at hcreate hsound
  let poll (p : Task P A V E × Cache P A V E) := p.1.poll p.2
  let Links (p p' : Task P A V E × Cache P A V E) : Prop := R (weight p.1) (weight p'.1) p.2 p'.2
  have hpoll : ∀ p : Task P A V E × Cache P A V E, p.1.Sound →
      Links p (poll p).2 ∧ (poll p).2.1.Sound := fun p hs =>
    ⟨hR.poll hs p.2, (Task.moves_poll hs p.2 0).2⟩
  have hnone : ∀ p, Links p p := fun p => hR.refl _ p.2
  obtain ⟨hdrain, -⟩ := drain_under hnone hR.trans hpoll (task.patience cache) hsound
  let last := (drain poll (task.patience cache) (task, cache)).2
  have hall := hR.add (hR.trans (hR.trans hcreate hdrain) (hR.drop last.1 last.2))
    (weigh weight counted s.tasks)
  rwa [Nat.zero_add] at hall

/-- A step that leaves the cache open. -/
theorem perform (hsound : s.Sound) {st : Step P A V} (hclose : st ≠ .close)
    (hcounted : ∀ id ∈ st.touched s, counted id = true) :
    Linked weight R counted s (s.perform st).2 := by
  have hnone : ∀ event ∈ ([] : List (Event P A V E)), event.publishes = false := nofun
  have hsame : ∀ {trace : List (Event P A V E)}, trace = trace ++ [] :=
    fun {trace} => (List.append_nil trace).symm
  cases st with
  | begin id request => exact hR.beginTask s request (hcounted id (List.mem_singleton_self id))
  | run request => exact hR.runTask s request
  | poll id => exact hR.pollTask hsound (hcounted id (List.mem_singleton_self id))
  | drain id => exact hR.drainTask hsound (hcounted id (List.mem_singleton_self id))
  | join ids => exact hR.join hsound hcounted (s.patience ids)
  | drop id => exact hR.dropTask s (hcounted id (List.mem_singleton_self id))
  | openGate gate => exact hR.rests _ hsame hnone rfl rfl rfl
  | closeGate gate => exact hR.rests _ hsame hnone rfl rfl rfl
  | advance d => exact hR.rests _ hsame hnone rfl rfl rfl
  | setTime now => exact hR.rests _ hsame hnone rfl rfl rfl
  | clear => exact hR.rests _ rfl (List.forall_mem_singleton.mpr rfl) rfl rfl rfl
  | put key entry =>
    exact hR.rests _ (s.cache.env.trace_writeStore key entry)
      (Environment.forall_writeEvents rfl fun _ _ => rfl) rfl rfl rfl
  | ask query => exact hR.rests _ hsame hnone rfl rfl rfl
  | overview => exact hR.linked_refl s
  | close => exact absurd rfl hclose

end Lifts

end Session

end ReadThrough
