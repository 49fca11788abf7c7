import ReadThrough.Proofs.Polling
import ReadThrough.Proofs.Session.Conformance
import ReadThrough.Proofs.Session.Sharing
import ReadThrough.Proofs.Table
/-!
# Proofs: sessions side by side

Two sessions have the same tasks but for one name, where each has a task of its own, and caches that
are in step (`Session.SideBySide`). All that the other tasks do is the same in both sessions
(`SideBySide.pollTask_other`, `SideBySide.perform`). So what has to be shown of two requests that
are to be compared is what their own polls do.
-/

namespace ReadThrough

variable {P A V E : Type}

section Accord

variable [DecidableEq P] [DecidableEq A] {Q : Environment P A V E → Environment P A V E → Prop}
  {c c' : Cache P A V E}

/-! ## Environments of sessions -/

/-- Environments that are related stay so whatever a session does to both of them. -/
structure Environment.Accord (Q : Environment P A V E → Environment P A V E → Prop) : Prop extends
    Tuned Q, Lockstep Q where
  cancelled : ∀ {env env'}, Q env env' → env'.cancelled = env.cancelled
  withGates : ∀ {env env'} (gates : Gates), Q env env' →
    Q { env with gates := gates } { env' with gates := gates }
  setTime : ∀ {env env'} (now : Stamp), Q env env' →
    Q { env with clock := env.clock.set now } { env' with clock := env'.clock.set now }
  ask : ∀ {env env'} (query : Query (Key P A)), Q env env' →
    Q { env with store := (env.store.ask query).2 } { env' with store := (env'.store.ask query).2 }

open Cache (InStep)
open Environment (Tuned Accord)

/-- The same task is made in both caches. -/
theorem Task.tuned_create (hQ : Tuned Q) (h : InStep Q c c') (request : Request P A V) :
    Agree (InStep Q) (Task.create c request) (Task.create c' request) := by
  cases request with
  | stream whole key plan terms => exact ⟨rfl, h⟩
  | fetch params policy terms => exact ⟨rfl, h⟩
  | watch params retries =>
    unfold create Watch.create
    dsimp only
    rw [hQ.updates h.env]
    exact ⟨rfl, hQ.withUpdates _ h.env, h.flights⟩
  | updates =>
    unfold create
    dsimp only
    rw [hQ.updates h.env]
    exact ⟨rfl, hQ.withUpdates _ h.env, h.flights⟩
  | errors =>
    unfold create
    dsimp only
    rw [hQ.errors h.env]
    exact ⟨rfl, hQ.withErrors _ h.env, h.flights⟩

/-- A task is waited for equally long in both caches. -/
theorem Task.tuned_patience (hQ : Tuned Q) (h : InStep Q c c') (task : Task P A V E) :
    task.patience c' = task.patience c := by
  unfold patience
  rw [hQ.updates h.env, hQ.errors h.env]

end Accord

namespace Session

open Cache (InStep)
open Environment (Accord)

/-! ## Sessions that are the same but for one task -/

/-- Two sessions are the same but for the tasks with a name, of which `T` holds, and environments of
which `Q` holds. -/
structure SideBySide (Q : Environment P A V E → Environment P A V E → Prop)
    (T : Option (Task P A V E) → Option (Task P A V E) → Prop) (id : String)
    (s s' : Session P A V E) : Prop where
  cache : InStep Q s.cache s'.cache
  closed : s'.closed = s.closed
  others : ∀ id', id' ≠ id → s'.tasks.get? id' = s.tasks.get? id'
  own : T (s.tasks.get? id) (s'.tasks.get? id)

variable [DecidableEq P] [DecidableEq A] {Q : Environment P A V E → Environment P A V E → Prop}
  {T : Option (Task P A V E) → Option (Task P A V E) → Prop} {id id' : String}
  {s s' : Session P A V E}

/-- What the two tasks with the name must allow. They can be dropped, together or, if only the first
of them needs its cache, the first alone, which then does nothing to the cache. -/
structure TaskPair (Q : Environment P A V E → Environment P A V E → Prop)
    (T : Option (Task P A V E) → Option (Task P A V E) → Prop) : Prop where
  accord : Accord Q
  drop : ∀ {o o' c c'}, T o o' → InStep Q c c' →
    InStep Q (o.elim c (·.drop c)) (o'.elim c' (·.drop c'))
  gone : ∀ {o o'}, T o o' → T none none
  needs : ∀ {o o'}, T o o' → o'.any Task.needsCache = o.any Task.needsCache ∨
    o.any Task.needsCache = true ∧ o'.any Task.needsCache = false ∧
      (∀ c, o.elim c (·.drop c) = c) ∧ T none o'

namespace SideBySide

omit [DecidableEq P] [DecidableEq A] in
/-- The caches of both sessions may go on in step. -/
theorem moves (h : SideBySide Q T id s s') {c c' : Cache P A V E} (hcache : InStep Q c c') :
    SideBySide Q T id { s with cache := c } { s' with cache := c' } :=
  ⟨hcache, h.closed, h.others, h.own⟩

omit [DecidableEq P] [DecidableEq A] in
/-- Something happens to the environments. -/
theorem tends (h : SideBySide Q T id s s') {env env' : Environment P A V E} (henv : Q env env') :
    SideBySide Q T id (s.withEnv env) (s'.withEnv env') :=
  h.moves ⟨henv, h.cache.flights⟩

omit [DecidableEq P] [DecidableEq A] in
/-- The two tasks with the name are there or not together. -/
theorem tasks_cases (h : SideBySide Q T id s s') (hsome : ∀ {o o'}, T o o' → o'.isSome = o.isSome) :
    s.tasks.get? id = none ∧ s'.tasks.get? id = none ∨
      ∃ task task', s.tasks.get? id = some task ∧ s'.tasks.get? id = some task' ∧
        T (some task) (some task') := by
  have hown := h.own
  have hboth := hsome hown
  generalize s.tasks.get? id = o, s'.tasks.get? id = o' at hown hboth
  cases o with
  | none =>
    cases o' with
    | none => exact .inl ⟨rfl, rfl⟩
    | some task' => cases hboth
  | some task =>
    cases o' with
    | none => cases hboth
    | some task' => exact .inr ⟨task, task', rfl, rfl, hown⟩

omit [DecidableEq P] [DecidableEq A] in
/-- Both sessions have the same other names. -/
theorem contains (h : SideBySide Q T id s s') (hne : id' ≠ id) :
    s'.tasks.contains id' = s.tasks.contains id' := by
  unfold Table.contains
  rw [h.others id' hne]

/-- A task by any name may be dropped from both sessions. -/
theorem dropTask (hpaired : TaskPair Q T) (h : SideBySide Q T id s s') (id' : String) :
    SideBySide Q T id (s.dropTask id') (s'.dropTask id') := by
  refine ⟨?_, ?_, fun told htold => ?_, ?_⟩
  · rw [cache_dropTask, cache_dropTask]
    by_cases hid : id' = id
    · rw [hid]
      exact hpaired.drop h.own h.cache
    · rw [h.others id' hid]
      cases s.tasks.get? id' with
      | none => exact h.cache
      | some task => exact task.tuned_drop hpaired.accord.toTuned h.cache
  · rw [closed_dropTask, closed_dropTask, h.closed]
  · rw [tasks_dropTask, tasks_dropTask, h.others told htold]
  · rw [tasks_dropTask, tasks_dropTask]
    split
    · exact hpaired.gone h.own
    · exact h.own

/-- Tasks by any names may be dropped from both sessions. -/
theorem dropTasks (hpaired : TaskPair Q T) (h : SideBySide Q T id s s') (ids : List String) :
    SideBySide Q T id (ids.foldl (fun s id => s.dropTask id) s)
      (ids.foldl (fun s id => s.dropTask id) s') := by
  induction ids generalizing s s' with
  | nil => exact h
  | cons first rest ih => exact ih (h.dropTask hpaired first)

/-- The first task is dropped alone. -/
theorem dropFirst (h : SideBySide Q T id s s')
    (hdrop : ∀ c, (s.tasks.get? id).elim c (·.drop c) = c) (hnone : T none (s'.tasks.get? id)) :
    SideBySide Q T id (s.dropTask id) s' := by
  refine ⟨?_, ?_, fun told htold => ?_, ?_⟩
  · rw [cache_dropTask, hdrop]
    exact h.cache
  · rw [closed_dropTask, h.closed]
  · rw [tasks_dropTask, if_neg htold, h.others told htold]
  · rw [tasks_dropTask, if_pos rfl]
    exact hnone

/-- The same request may be begun in both sessions under another name. -/
theorem beginTask (hpaired : TaskPair Q T) (h : SideBySide Q T id s s') (hne : id' ≠ id)
    (request : Request P A V) :
    SideBySide Q T id (s.beginTask id' request) (s'.beginTask id' request) := by
  obtain ⟨task, c, c', hcreate, hcreate', hcaches⟩ :=
    (Task.tuned_create hpaired.accord.toTuned h.cache request).split
  have hdropped := (h.moves hcaches).dropTask hpaired id'
  unfold Session.beginTask
  rw [hcreate, hcreate']
  refine ⟨hdropped.cache, hdropped.closed, fun told htold => ?_, ?_⟩
  · dsimp only
    by_cases hid : told = id'
    · rw [hid, Table.get?_insert_self, Table.get?_insert_self]
    · rw [Table.get?_insert_of_ne _ _ hid, Table.get?_insert_of_ne _ _ hid]
      exact hdropped.others told htold
  · dsimp only
    rw [Table.get?_insert_of_ne _ _ hne.symm, Table.get?_insert_of_ne _ _ hne.symm]
    exact hdropped.own

/-- Both sessions may be shut. -/
theorem shut (hQ : Accord Q) (h : SideBySide Q T id s s') : SideBySide Q T id s.shut s'.shut := by
  refine ⟨⟨?_, ?_⟩, rfl, h.others, h.own⟩
  · have hclosed := hQ.withErrors s.cache.env.errors.close
      (hQ.withUpdates s.cache.env.updates.close h.cache.env)
    unfold Session.shut
    dsimp only
    rwa [hQ.updates h.cache.env, hQ.errors h.cache.env]
  · show s'.cache.flights.close = s.cache.flights.close
    rw [h.cache.flights]

/-- Both caches may be closed. -/
theorem close (hpaired : TaskPair Q T) (h : SideBySide Q T id s s') :
    SideBySide Q T id s.close s'.close := by
  have hothers : ∀ id', id' ≠ id →
      (s'.tasks.get? id').any Task.needsCache = (s.tasks.get? id').any Task.needsCache := by
    intro id' hne
    rw [h.others id' hne]
  rcases hpaired.needs h.own with hsame | ⟨hneeds, hneeds', hdrop, hnone⟩
  · have hdependents : s'.dependents = s.dependents := by
      refine Table.keysWhere_congr fun id' => ?_
      by_cases hid : id' = id
      · rw [hid]
        exact hsame
      · exact hothers id' hid
    unfold Session.close
    rw [hdependents]
    exact (h.dropTasks hpaired s.dependents).shut hpaired.accord
  · -- The first session drops its task somewhere between the others.
    obtain ⟨before, after, hdependents', hdependents⟩ :=
      Table.exists_place (fun a b : String => decide (a ≤ b)) id s'.dependents
    have hplaced : s.dependents = before ++ id :: after :=
      (Table.keysWhere_place hneeds hneeds' hothers).trans hdependents
    have hnot : id ∉ before := by
      intro hmem
      have hdependent : id ∈ s'.dependents := hdependents' ▸ List.mem_append_left _ hmem
      obtain ⟨task, hget, htask⟩ := Table.exists_of_mem_keysWhere _ hdependent
      rw [hget, Option.any_some, htask] at hneeds'
      cases hneeds'
    have hbefore := h.dropTasks hpaired before
    have hown : ∀ s : Session P A V E,
        (before.foldl (fun s id => s.dropTask id) s).tasks.get? id = s.tasks.get? id := fun s => by
      rw [tasks_dropTasks, if_neg hnot]
    have hfirst := hbefore.dropFirst (by rwa [hown]) (by rwa [hown])
    unfold Session.close
    rw [hplaced, hdependents', List.foldl_append, List.foldl_append, List.foldl_cons]
    exact (hfirst.dropTasks hpaired after).shut hpaired.accord

variable [DecidableEq V]

/-- A task with another name answers the same in both sessions. -/
theorem pollTask_other (hQ : Accord Q) (h : SideBySide Q T id s s') (hne : id' ≠ id) :
    (s'.pollTask id').1 = (s.pollTask id').1 ∧
      SideBySide Q T id (s.pollTask id').2 (s'.pollTask id').2 := by
  unfold Session.pollTask
  rw [h.others id' hne]
  cases s.tasks.get? id' with
  | none => exact ⟨rfl, h⟩
  | some task =>
    obtain ⟨answer, _, _, hpoll, hpoll', hrest⟩ :=
      (task.tuned_poll hQ.toTuned hQ.toLockstep h.cache).split
    obtain ⟨task₁, c, c', rfl, rfl, hcaches⟩ := hrest.split
    dsimp only
    rw [hpoll, hpoll']
    refine ⟨rfl, hcaches, h.closed, fun told htold => ?_, ?_⟩
    · dsimp only
      by_cases hid : told = id'
      · rw [hid, Table.get?_insert_self, Table.get?_insert_self]
      · rw [Table.get?_insert_of_ne _ _ hid, Table.get?_insert_of_ne _ _ hid]
        exact h.others told htold
    · dsimp only
      rw [Table.get?_insert_of_ne _ _ hne.symm, Table.get?_insert_of_ne _ _ hne.symm]
      exact h.own

/-- The two tasks with the name are polled, if they answer the same. -/
theorem pollTask_self {Q' : Environment P A V E → Environment P A V E → Prop}
    {T' : Option (Task P A V E) → Option (Task P A V E) → Prop} {task task' : Task P A V E}
    (h : SideBySide Q T id s s') (hget : s.tasks.get? id = some task)
    (hget' : s'.tasks.get? id = some task')
    (hpoll : Agree (fun x x' => T' (some x.1) (some x'.1) ∧ InStep Q' x.2 x'.2)
      (task.poll s.cache) (task'.poll s'.cache)) :
    (s'.pollTask id).1 = (s.pollTask id).1 ∧
      SideBySide Q' T' id (s.pollTask id).2 (s'.pollTask id).2 := by
  obtain ⟨answer, ⟨left, c⟩, ⟨left', c'⟩, hpolled, hpolled', htasks, hcaches⟩ := hpoll.split
  unfold Session.pollTask
  rw [hget, hget']
  dsimp only
  rw [hpolled, hpolled']
  refine ⟨rfl, hcaches, h.closed, fun told htold => ?_, ?_⟩
  · dsimp only
    rw [Table.get?_insert_of_ne _ _ htold, Table.get?_insert_of_ne _ _ htold]
    exact h.others told htold
  · dsimp only
    rw [Table.get?_insert_self, Table.get?_insert_self]
    exact htasks

/-- A task that is run at once answers the same in both sessions. -/
theorem runTask (hQ : Accord Q) (h : SideBySide Q T id s s') (request : Request P A V) :
    (s'.runTask request).1 = (s.runTask request).1 ∧
      SideBySide Q T id (s.runTask request).2 (s'.runTask request).2 := by
  obtain ⟨task, c, c', hcreate, hcreate', hcaches⟩ :=
    (Task.tuned_create hQ.toTuned h.cache request).split
  let Same (x x' : Task P A V E × Cache P A V E) : Prop := Agree (InStep Q) x x'
  have hpolls : ∀ x x', Same x x' → (x'.1.poll x'.2).1 = (x.1.poll x.2).1 ∧
      Same (x.1.poll x.2).2 (x'.1.poll x'.2).2 := by
    rintro ⟨task, c⟩ ⟨task', c'⟩ ⟨hsame, hcaches⟩
    obtain rfl : task' = task := hsame
    obtain ⟨hanswer, hrest⟩ := Task.tuned_poll hQ.toTuned hQ.toLockstep hcaches task'
    exact ⟨hanswer, hrest⟩
  have hstart : Same (task, c) (task, c') := ⟨rfl, hcaches⟩
  obtain ⟨hanswers, hlast⟩ := drain_alike hpolls (task.patience c) hstart
  have hpatience := task.tuned_patience hQ.toTuned hcaches
  unfold Session.runTask
  rw [hcreate, hcreate']
  dsimp only
  rw [hpatience]
  refine ⟨hanswers, h.moves ?_⟩
  rw [hlast.1]
  exact Task.tuned_drop hQ.toTuned hlast.2 _

omit [DecidableEq V] in
/-- Both sessions are equally patient with tasks, if they are with the two that differ. -/
theorem patience (hQ : Accord Q) (h : SideBySide Q T id s s') {ids : List String}
    (hids : ∀ id' ∈ ids, id' = id → ((s'.tasks.get? id).map (Task.patience s'.cache)).getD 0 =
      ((s.tasks.get? id).map (Task.patience s.cache)).getD 0) :
    s'.patience ids = s.patience ids := by
  have heach : ids.map (fun id => ((s'.tasks.get? id).map (Task.patience s'.cache)).getD 0) =
      ids.map (fun id => ((s.tasks.get? id).map (Task.patience s.cache)).getD 0) := by
    refine List.map_congr_left fun id' hid' => ?_
    by_cases hid : id' = id
    · rw [hid]
      exact hids id' hid' hid
    · rw [h.others id' hid]
      cases s.tasks.get? id' with
      | none => rfl
      | some task =>
        rw [Option.map_some, Option.map_some, task.tuned_patience hQ.toTuned h.cache]
  unfold Session.patience
  rw [heach]

end SideBySide

/-! ## Steps -/

/-- The tasks that a step polls by name, if it does. -/
def Step.polled : Step P A V → Option (List String)
  | .poll id | .drain id => some [id]
  | .join ids => some ids
  | _ => none

/-- Whether a step looks at the state of the session. -/
def Step.inspects : Step P A V → Bool
  | .ask _ | .overview => true
  | _ => false

variable [DecidableEq V] {st : Step P A V}

/-- Steps that poll tasks do the same, if the polls of these tasks do. -/
theorem perform_polls {R : Session P A V E → Session P A V E → Prop} {ids : List String}
    (hpolled : st.polled = some ids)
    (hpolls : ∀ id ∈ ids, ∀ s s', R s s' → (s'.pollTask id).1 = (s.pollTask id).1 ∧
      R (s.pollTask id).2 (s'.pollTask id).2)
    (hpatience : s'.patience ids = s.patience ids) (h : R s s') :
    (s'.perform st).1 = (s.perform st).1 ∧ R (s.perform st).2 (s'.perform st).2 := by
  cases st with
  | poll id =>
    obtain rfl : [id] = ids := Option.some.inj hpolled
    obtain ⟨hanswer, hafter⟩ := hpolls id (List.mem_singleton_self id) s s' h
    exact ⟨congrArg Response.answer hanswer, hafter⟩
  | drain id =>
    obtain rfl : [id] = ids := Option.some.inj hpolled
    obtain ⟨hanswers, hafter⟩ :=
      drain_alike (hpolls id (List.mem_singleton_self id)) (s.patience [id]) h
    unfold Session.perform drainTask
    dsimp only
    rw [hpatience]
    exact ⟨congrArg Response.answers hanswers, hafter⟩
  | join ids' =>
    obtain rfl : ids' = ids := Option.some.inj hpolled
    obtain ⟨hanswers, hafter⟩ := join_alike hpolls (s.patience ids') h
    unfold Session.perform
    dsimp only
    rw [hpatience]
    exact ⟨congrArg Response.joined hanswers, hafter⟩
  | _ => cases hpolled

/-- Steps that poll no task by name do the same. -/
theorem SideBySide.perform (hpaired : TaskPair Q T) (h : SideBySide Q T id s s')
    (hbegins : ¬ st.begins id)
    (hpolled : st.polled = none) :
    (st.inspects = false → st ≠ .drop id → (s'.perform st).1 = (s.perform st).1) ∧
      SideBySide Q T id (s.perform st).2 (s'.perform st).2 := by
  have hQ := hpaired.accord
  have hgates := hQ.gates h.cache.env
  cases st with
  | poll | drain | join => cases hpolled
  | begin id' request =>
    have hne : id' ≠ id := fun heq => hbegins (by simp [Step.begins, heq])
    exact ⟨fun _ _ => rfl, h.beginTask hpaired hne request⟩
  | run request =>
    obtain ⟨hanswers, hafter⟩ := h.runTask hQ request
    exact ⟨fun _ _ => congrArg Response.answers hanswers, hafter⟩
  | drop id' =>
    refine ⟨fun _ hother => ?_, h.dropTask hpaired id'⟩
    have hne : id' ≠ id := fun heq => hother (by rw [heq])
    exact congrArg Response.flag (h.contains hne)
  | openGate gate =>
    have hopened := hQ.withGates (s.cache.env.gates.opening gate) h.cache.env
    refine ⟨fun _ _ => rfl, h.tends ?_⟩
    rwa [hgates]
  | closeGate gate =>
    have hclosed := hQ.withGates (s.cache.env.gates.closing gate) h.cache.env
    refine ⟨fun _ _ => rfl, h.tends ?_⟩
    rwa [hgates]
  | advance d => exact ⟨fun _ _ => rfl, h.tends (hQ.advance d h.cache.env)⟩
  | setTime now => exact ⟨fun _ _ => rfl, h.tends (hQ.setTime now h.cache.env)⟩
  | clear => exact ⟨fun _ _ => rfl, h.tends (hQ.clearStore h.cache.env)⟩
  | put key entry => exact ⟨fun _ _ => rfl, h.tends (hQ.writeStore key entry h.cache.env)⟩
  | ask query => exact ⟨(fun hst => by cases hst), h.tends (hQ.ask query h.cache.env)⟩
  | overview => exact ⟨(fun hst => by cases hst), h⟩
  | close => exact ⟨fun _ _ => rfl, h.close hpaired⟩

/-- A relation between two sessions that is kept by every step that does not begin a task with the
name, and lets them answer the same. -/
structure StepRelation (R : Session P A V E → Session P A V E → Prop) (id : String) : Prop where
  closed : ∀ {s s'}, R s s' → s'.closed = s.closed
  patience : ∀ {s s'} (ids : List String), R s s' → s'.patience ids = s.patience ids
  polls : ∀ {s s'} (id' : String), R s s' → (s'.pollTask id').1 = (s.pollTask id').1 ∧
    R (s.pollTask id').2 (s'.pollTask id').2
  performs : ∀ {s s'} {st : Step P A V}, ¬ st.begins id → st.polled = none → R s s' →
    (st.inspects = false → (s'.perform st).1 = (s.perform st).1) ∧
      R (s.perform st).2 (s'.perform st).2

/-- Steps that poll no task by name do the same, where the two tasks are there or not together. -/
theorem SideBySide.performs (hpaired : TaskPair Q T) (h : SideBySide Q T id s s')
    (hsome : (s'.tasks.get? id).isSome = (s.tasks.get? id).isSome) (hbegins : ¬ st.begins id)
    (hpolled : st.polled = none) :
    (st.inspects = false → (s'.perform st).1 = (s.perform st).1) ∧
      SideBySide Q T id (s.perform st).2 (s'.perform st).2 := by
  obtain ⟨hanswers, hafter⟩ := h.perform hpaired hbegins hpolled
  refine ⟨fun hinspects => ?_, hafter⟩
  by_cases hdrop : st = .drop id
  · rw [hdrop]
    exact congrArg Response.flag hsome
  · exact hanswers hinspects hdrop

namespace StepRelation

variable {R : Session P A V E → Session P A V E → Prop}

/-- A step is performed alike in both sessions, and answers the same if it does not look at their
state. -/
theorem perform (hR : StepRelation R id) (h : R s s') (hbegins : ¬ st.begins id) :
    (st.inspects = false → (s'.perform st).1 = (s.perform st).1) ∧
      R (s.perform st).2 (s'.perform st).2 := by
  cases hpolled : st.polled with
  | none => exact hR.performs hbegins hpolled h
  | some ids =>
    obtain ⟨hanswer, hafter⟩ := perform_polls hpolled (fun id' _ _ _ hrel => hR.polls id' hrel)
      (hR.patience ids h) h
    exact ⟨fun _ => hanswer, hafter⟩

/-- A step is taken alike in both sessions, and answers the same if it does not look at their state.
-/
theorem step (hR : StepRelation R id) (h : R s.fresh s'.fresh) (hbegins : ¬ st.begins id) :
    (st.inspects = false → (s'.step st).1.response = (s.step st).1.response) ∧
      R (s.step st).2 (s'.step st).2 := by
  have hfresh := hR.closed h
  have hclosed : s'.closed = s.closed := hfresh
  rw [response_step, response_step, step_snd, step_snd, hclosed]
  split
  · exact ⟨fun _ => rfl, h⟩
  · exact hR.perform h hbegins

end StepRelation

/-- Two tasks that are there or not together, wait as patiently and answer the same. -/
theorem SideBySide.stepRelation (hpaired : TaskPair Q T)
    (hsome : ∀ {o o'}, T o o' → o'.isSome = o.isSome)
    (hpatience : ∀ {o o'}, T o o' → ∀ c c', (o'.map (Task.patience c')).getD 0 =
      (o.map (Task.patience c)).getD 0)
    (hpoll : ∀ {task task' c c'}, T (some task) (some task') → InStep Q c c' →
      Agree (fun x x' => T (some x.1) (some x'.1) ∧ InStep Q x.2 x'.2) (task.poll c)
        (task'.poll c')) (id : String) :
    StepRelation (SideBySide Q T id : Session P A V E → Session P A V E → Prop) id where
  closed h := h.closed
  patience ids h := h.patience hpaired.accord fun _ _ _ => hpatience h.own _ _
  performs hbegins hpolled h := h.performs hpaired (hsome h.own) hbegins hpolled
  polls {s s'} id' h := by
    by_cases hid : id' = id
    · subst hid
      rcases h.tasks_cases hsome with ⟨hget, hget'⟩ | ⟨task, task', hget, hget', htasks⟩
      · unfold Session.pollTask
        rw [hget, hget']
        exact ⟨rfl, h⟩
      · exact h.pollTask_self hget hget' (hpoll htasks h.cache)
    · exact h.pollTask_other hpaired.accord hid

/-- Two requests that begin in the same session under the same name. -/
theorem sideBySide_begin (hQ : Accord Q) (hopen : s.closed = false)
    (hsame : InStep Q s.fresh.cache s.fresh.cache) {request request' : Request P A V}
    {task task' : Task P A V E} (hcreate : ∀ c, Task.create c request = (task, c))
    (hcreate' : ∀ c, Task.create c request' = (task', c)) (htasks : T (some task) (some task')) :
    SideBySide Q T id (s.step (.begin id request)).2 (s.step (.begin id request')).2 := by
  have htaken : ∀ request : Request P A V,
      (s.step (.begin id request)).2 = s.fresh.beginTask id request := fun request =>
    (s.step_of_taken (.begin id request) (.inl hopen)).2
  have hdropped : InStep Q (s.fresh.dropTask id).cache (s.fresh.dropTask id).cache := by
    rw [cache_dropTask]
    cases s.fresh.tasks.get? id with
    | none => exact hsame
    | some task => exact task.tuned_drop hQ.toTuned hsame
  rw [htaken, htaken]
  unfold beginTask
  rw [hcreate, hcreate']
  refine ⟨hdropped, rfl, fun id' hne => ?_, ?_⟩
  · dsimp only
    rw [Table.get?_insert_of_ne _ _ hne, Table.get?_insert_of_ne _ _ hne]
  · dsimp only
    rw [Table.get?_insert_self, Table.get?_insert_self]
    exact htasks

/-- A report, but for what happened. -/
def Report.outline (r : Report P A V E) : Report P A V E := { r with events := [] }

/-- Sessions that are left side by side report the same, if they answer the same. -/
theorem SideBySide.outline (hQ : Accord Q) (h : SideBySide Q T id (s.step st).2 (s'.step st).2)
    (hresponse : (s'.step st).1.response = (s.step st).1.response) :
    (s'.step st).1.outline = (s.step st).1.outline := by
  have hreport : ∀ s : Session P A V E, (s.step st).1.outline =
      { response := (s.step st).1.response
        calls := (s.step st).2.cache.env.called.length
        cancelled := (s.step st).2.cache.env.cancelled
        ongoing := if (s.step st).2.closed then none else some (s.step st).2.cache.ongoing
        events := [] } := fun _ => rfl
  rw [hreport, hreport, hresponse, hQ.called h.cache.env, hQ.cancelled h.cache.env, h.closed,
    Cache.ongoing, h.cache.flights, Cache.ongoing]

/-- What is reported of the steps that do not look at the state of the session. -/
def unseeing (steps : List (Step P A V)) (reports : List (Report P A V E)) :
    List (Report P A V E) :=
  ((steps.zip reports).filter fun p => !p.1.inspects).map (·.2)

/-- The reports of a run are that of its first step, if it is looked at, and those of the rest. -/
theorem unseeing_run (s : Session P A V E) (st : Step P A V) (rest : List (Step P A V)) :
    unseeing (st :: rest) (s.run (st :: rest)).1 =
      (if st.inspects then [] else [(s.step st).1]) ++
        unseeing rest ((s.step st).2.run rest).1 := by
  show List.map _ (List.filter _ ((st, (s.step st).1) :: _)) = _
  cases hinspects : st.inspects with
  | true => rw [List.filter_cons_of_neg (by simp [hinspects])]; rfl
  | false => rw [List.filter_cons_of_pos (by simp [hinspects])]; rfl

/-- The events of a run are those of its first step and then those of the rest. -/
theorem eventsOf_run (s : Session P A V E) (st : Step P A V) (rest : List (Step P A V)) :
    eventsOf (s.run (st :: rest)).1 =
      (s.step st).1.events ++ eventsOf ((s.step st).2.run rest).1 :=
  rfl

end Session

end ReadThrough
