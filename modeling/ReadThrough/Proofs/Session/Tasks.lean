import ReadThrough.Proofs.Flights.Works
import ReadThrough.Session
/-!
# Proofs: the tasks of a session

What a step does to the tasks by name, and which loads the tasks hold. A task holds at most one
load, so that the loads of a session are a multiset that changes as its tasks do.
-/

namespace ReadThrough

variable {P A V E : Type}

/-! ## The loads that are held -/

/-- The load of a request, while it has one. -/
def Call.load? (call : Call P A V E) : Option (Load P A V E) :=
  match call.stage with
  | .loading load => some load
  | .looking | .rescuing _ | .spent => none

/-- The load of a watch, while it has one. -/
def Watch.load? (w : Watch P A V E) : Option (Load P A V E) :=
  match w.inquiry with
  | .loading _ load => some load
  | .answered => none

/-- The load of a task, while it has one. -/
def Task.load? : Task P A V E → Option (Load P A V E)
  | .call _ request => request.load?
  | .fetch request => request.call.load?
  | .watch w => w.load?
  | .updates _ | .errors _ | .ended => none

namespace Session

/-- The loads that tasks hold. -/
def loadsOf (tasks : Table String (Task P A V E)) : Multiset (Load P A V E) :=
  (tasks.values.filterMap Task.load? : List (Load P A V E))

/-- A task that takes a name holds its load instead of the one that had the name. -/
theorem loadsOf_insert (tasks : Table String (Task P A V E)) (id : String) (task : Task P A V E) :
    loadsOf (tasks.insert id task) = held task.load? (loadsOf (tasks.erase id)) := by
  have hperm := (tasks.perm_values_insert id task).filterMap Task.load?
  rw [loadsOf, Multiset.coe_eq_coe.mpr hperm, coe_filterMap_cons]
  rfl

/-- The loads of a session are that of one task and those of the others. -/
theorem loadsOf_of_get? {tasks : Table String (Task P A V E)} {id : String} {task : Task P A V E}
    (hget : tasks.get? id = some task) :
    loadsOf tasks = held task.load? (loadsOf (tasks.erase id)) := by
  have hperm := (tasks.perm_values id).filterMap Task.load?
  rw [hget, Option.toList_some, List.singleton_append] at hperm
  rw [loadsOf, Multiset.coe_eq_coe.mpr hperm, coe_filterMap_cons]
  rfl

/-- A name that nobody has holds no load. -/
theorem loadsOf_of_get?_none {tasks : Table String (Task P A V E)} {id : String}
    (hget : tasks.get? id = none) : loadsOf tasks = loadsOf (tasks.erase id) := by
  have hperm := (tasks.perm_values id).filterMap Task.load?
  rw [hget, Option.toList_none, List.nil_append] at hperm
  exact Multiset.coe_eq_coe.mpr hperm

/-- A load is held if a task under some name holds it. -/
theorem mem_loadsOf {tasks : Table String (Task P A V E)} {load : Load P A V E} :
    load ∈ loadsOf tasks ↔ ∃ id task, tasks.get? id = some task ∧ task.load? = some load := by
  rw [loadsOf, Multiset.mem_coe, List.mem_filterMap]
  constructor
  · rintro ⟨task, htask, hload⟩
    obtain ⟨⟨id, task⟩, hmem, rfl⟩ := List.mem_map.mp htask
    exact ⟨id, task, tasks.get?_eq_some_iff.mpr hmem, hload⟩
  · rintro ⟨id, task, hget, hload⟩
    exact ⟨task, List.mem_map.mpr ⟨(id, task), tasks.get?_eq_some_iff.mp hget, rfl⟩, hload⟩

/-- Tasks without loads hold none. -/
theorem loadsOf_eq_zero {tasks : Table String (Task P A V E)}
    (h : ∀ id task, tasks.get? id = some task → task.load? = none) : loadsOf tasks = 0 := by
  refine Multiset.eq_zero_of_forall_notMem fun load hload => ?_
  obtain ⟨id, task, hget, hheld⟩ := mem_loadsOf.mp hload
  rw [h id task hget] at hheld
  cases hheld

/-! ## What a step does to the tasks -/

/-- The session as a step finds it: with an empty trace. -/
def fresh (s : Session P A V E) : Session P A V E := { s with cache.env.trace := [] }

section Drop

variable [DecidableEq P] [DecidableEq A]

/-- To drop a task takes its name away and no other. -/
theorem tasks_dropTask (s : Session P A V E) (id id' : String) :
    (s.dropTask id').tasks.get? id = if id = id' then none else s.tasks.get? id := by
  unfold dropTask
  by_cases hid : id = id'
  · subst hid
    rw [if_pos rfl]
    split
    · assumption
    · exact Table.get?_erase_self _ _
  · rw [if_neg hid]
    split
    · rfl
    · exact Table.get?_erase_of_ne _ hid

/-- To drop tasks takes their names away and no others. -/
theorem tasks_dropTasks (s : Session P A V E) (id : String) (ids : List String) :
    (ids.foldl (fun s id => s.dropTask id) s).tasks.get? id =
      if id ∈ ids then none else s.tasks.get? id := by
  induction ids generalizing s with
  | nil => rfl
  | cons id' ids ih =>
    rw [List.foldl_cons, ih, tasks_dropTask]
    by_cases hid : id = id'
    · simp [hid]
    · simp [hid]

/-- To drop a task does to the cache what the task does when it is dropped. -/
theorem cache_dropTask (s : Session P A V E) (id : String) :
    (s.dropTask id).cache = ((s.tasks.get? id).elim s.cache (·.drop s.cache)) := by
  unfold dropTask
  split
  · rename_i hget
    rw [hget]
    rfl
  · rename_i task hget
    rw [hget]
    rfl

/-- To drop a task takes its load away and no other. -/
theorem loadsOf_dropTask (s : Session P A V E) (id : String) :
    loadsOf (s.dropTask id).tasks = loadsOf (s.tasks.erase id) := by
  unfold dropTask
  split
  · rename_i hget
    exact loadsOf_of_get?_none hget
  · rfl

end Drop

variable [DecidableEq P] [DecidableEq A] [DecidableEq V]

/-- A step does what it says, or nothing when it is refused. -/
theorem step_snd (s : Session P A V E) (st : Step P A V) :
    (s.step st).2 = if s.closed && st.needsCache then s.fresh else (s.fresh.perform st).2 := by
  show (if s.closed && st.needsCache then (Response.invalid, s.fresh)
    else s.fresh.perform st).2 = _
  split <;> rfl

/-- A step that needs an open cache is refused by a closed one, and all others are answered. -/
theorem response_step (s : Session P A V E) (st : Step P A V) :
    (s.step st).1.response =
      if s.closed && st.needsCache then .invalid else (s.fresh.perform st).1 := by
  show (if s.closed && st.needsCache then (Response.invalid, s.fresh)
    else s.fresh.perform st).1 = _
  split <;> rfl

/-- A step that is refused does nothing. -/
theorem step_of_refused {s : Session P A V E} (st : Step P A V) (hclosed : s.closed = true)
    (hneeds : st.needsCache = true) :
    (s.step st).1.response = .invalid ∧ (s.step st).2 = s.fresh := by
  rw [response_step, step_snd, hclosed, hneeds]
  exact ⟨rfl, rfl⟩

/-- A step that is not refused is performed. -/
theorem step_of_taken (s : Session P A V E) (st : Step P A V)
    (h : s.closed = false ∨ st.needsCache = false) :
    (s.step st).1.response = (s.fresh.perform st).1 ∧ (s.step st).2 = (s.fresh.perform st).2 := by
  have htaken : (s.closed && st.needsCache) = false := by
    rcases h with h | h
    · rw [h, Bool.false_and]
    · rw [h, Bool.and_false]
  rw [response_step, step_snd, htaken]
  exact ⟨rfl, rfl⟩

/-- A run of two parts is the run of the second after that of the first. -/
theorem run_append (s : Session P A V E) (before after : List (Step P A V)) :
    (s.run (before ++ after)).2 = ((s.run before).2.run after).2 := by
  induction before generalizing s with
  | nil => rfl
  | cons st rest ih => exact ih (s.step st).2

/-- To poll a task leaves all others as they are. -/
theorem tasks_pollTask_of_ne (s : Session P A V E) {id id' : String} (h : id' ≠ id) :
    (s.pollTask id).2.tasks.get? id' = s.tasks.get? id' := by
  unfold pollTask
  split
  · rfl
  · exact Table.get?_insert_of_ne _ _ h

end Session

end ReadThrough
