import ReadThrough.Proofs.Session.Aims
/-!
# Proofs: sessions that are closed

Only one step closes a session. It drops all requests and watches, so that nothing is left that
could call the source or publish anything (`Session.Forsaken`), and nothing comes after it.
-/

namespace ReadThrough

variable {P A V E : Type}

namespace Session

variable [DecidableEq P] [DecidableEq A] {s : Session P A V E}

/-! ## Which steps close -/

/-- To drop a task does not close the session. -/
theorem closed_dropTask (s : Session P A V E) (id : String) :
    (s.dropTask id).closed = s.closed := by
  unfold dropTask
  split <;> rfl

/-- To drop tasks does not close the session. -/
theorem closed_dropTasks (s : Session P A V E) (ids : List String) :
    (ids.foldl (fun s id => s.dropTask id) s).closed = s.closed := by
  induction ids generalizing s with
  | nil => rfl
  | cons id ids ih => exact (ih (s.dropTask id)).trans (closed_dropTask s id)

section Steps

variable [DecidableEq V]

/-- To poll a task does not close the session. -/
theorem closed_pollTask (s : Session P A V E) (id : String) :
    (s.pollTask id).2.closed = s.closed := by
  unfold pollTask
  split <;> rfl

/-- Only one step closes the session. -/
theorem closed_perform (s : Session P A V E) {st : Step P A V} (hclose : st ≠ .close) :
    (s.perform st).2.closed = s.closed := by
  cases st with
  | close => exact absurd rfl hclose
  | begin id request =>
    exact closed_dropTask { s with cache := (Task.create s.cache request).2 } id
  | drop id => exact closed_dropTask s id
  | poll id => exact closed_pollTask s id
  | drain id =>
    exact drain_keeps (K := fun s' : Session P A V E => s'.closed = s.closed)
      (fun s' h => (closed_pollTask s' id).trans h) (s.patience [id]) rfl
  | join ids =>
    exact join_keeps (K := fun s' : Session P A V E => s'.closed = s.closed)
      (fun id (_ : id ∈ ids) s' h => (closed_pollTask s' id).trans h) (s.patience ids) rfl
  | _ => rfl

end Steps

/-- The cache is dropped, when nobody needs it any more. -/
def shut (s : Session P A V E) : Session P A V E :=
  let c := s.cache
  let env := { c.env with updates := c.env.updates.close, errors := c.env.errors.close }
  { s with closed := true, cache := { env, flights := c.flights.close } }

/-! ## What is left -/

/-- Only subscriptions are left, and tasks that have ended. -/
def Relieved (s : Session P A V E) : Prop :=
  ∀ id task, s.tasks.get? id = some task → task.needsCache = false

/-- Nobody is left to publish anything: the cache has been dropped with all requests and watches,
and no shared load is under way. -/
structure Forsaken (s : Session P A V E) : Prop where
  closed : s.closed = true
  relieved : s.Relieved
  idle : ∀ e, ¬ s.cache.flights.Runs e

/-- Without requests and watches no shared load is under way. -/
theorem Steady.idle (h : s.Steady) (hrelieved : s.Relieved) (e : Nat) :
    ¬ s.cache.flights.Runs e := by
  rintro ⟨x, hx, hrunning⟩
  have hwanted := (h.attended.tracked.sound hx).wanted hrunning
  have hnone : loadsOf s.tasks = 0 := by
    apply loadsOf_eq_zero
    intro id task hget
    have hneeds := hrelieved id task hget
    cases task with
    | call | fetch | watch => cases hneeds
    | updates | errors | ended => rfl
  have hzero : waitingAmong s.world.loads e = 0 := by
    rw [show s.world.loads = loadsOf s.tasks from rfl, hnone]
    rfl
  omega

/-- A relieved session stays so with one task less. -/
theorem Relieved.dropTask (h : s.Relieved) (id : String) : (s.dropTask id).Relieved := by
  intro id' task hget
  rw [tasks_dropTask] at hget
  split at hget
  · cases hget
  · exact h id' task hget

/-- A session that is closed is relieved of all tasks that need the cache. -/
theorem relieved_close (s : Session P A V E) : s.close.Relieved := by
  intro id task hget
  have hdropped : (s.dependents.foldl (fun s id => s.dropTask id) s).tasks.get? id = some task :=
    hget
  rw [tasks_dropTasks] at hdropped
  split at hdropped
  · cases hdropped
  · rename_i hnot
    apply Bool.eq_false_iff.mpr
    intro hneeds
    exact hnot (Table.mem_keysWhere s.tasks hdropped hneeds)

variable [DecidableEq V]

/-- A task that does not need the cache does not need it after a poll. -/
theorem needsCache_poll {task : Task P A V E} (h : task.needsCache = false) (c : Cache P A V E) :
    (task.poll c).2.1.needsCache = false := by
  unfold Task.poll
  cases task with
  | call | fetch | watch => cases h
  | ended => rfl
  | updates position =>
    dsimp only
    split <;> rfl
  | errors position =>
    dsimp only
    split <;> rfl

/-- A relieved session stays so when a task is polled. -/
theorem Relieved.pollTask (h : s.Relieved) (id : String) : (s.pollTask id).2.Relieved := by
  intro id' task hget
  by_cases hid : id' = id
  · subst hid
    unfold Session.pollTask at hget
    cases hold : s.tasks.get? id' with
    | none =>
      simp only [hold] at hget
      cases hget
    | some old =>
      rw [hold] at hget
      obtain rfl := Option.some.inj ((Table.get?_insert_self _ _ _).symm.trans hget)
      exact needsCache_poll (h id' old hold) s.cache
  · rw [tasks_pollTask_of_ne s hid] at hget
    exact h id' task hget

/-- A relieved session stays so in all steps that do not need the cache. -/
theorem Relieved.perform (h : s.Relieved) {st : Step P A V} (hneeds : st.needsCache = false) :
    (s.perform st).2.Relieved := by
  cases st with
  | begin | run | clear | put | ask | overview | close => cases hneeds
  | openGate | closeGate | advance | setTime => exact h
  | drop id => exact h.dropTask id
  | poll id => exact h.pollTask id
  | drain id => exact drain_keeps (fun _ hs => hs.pollTask id) (s.patience [id]) h
  | join ids =>
    exact join_keeps (fun id (_ : id ∈ ids) _ hs => hs.pollTask id) (s.patience ids) h

/-- A session that is closed after a step is relieved. -/
theorem relieved_step (h : s.closed = true → s.Relieved) (st : Step P A V)
    (hclosed : (s.step st).2.closed = true) : (s.step st).2.Relieved := by
  rw [step_snd] at hclosed ⊢
  split at hclosed
  · rename_i hrefused
    rw [if_pos hrefused]
    exact h hclosed
  · rename_i htaken
    rw [if_neg htaken]
    by_cases hst : st = .close
    · rw [hst]
      exact relieved_close s.fresh
    · rw [closed_perform s.fresh hst] at hclosed
      have hbefore : s.fresh.Relieved := h hclosed
      apply hbefore.perform
      rw [Bool.and_eq_true, not_and] at htaken
      exact Bool.eq_false_iff.mpr (htaken hclosed)

/-- A session that has been closed in a run is forsaken. -/
theorem forsaken_run (setup : Setup (Store (Key P A) V)) (source : Source P V E)
    (steps : List (Step P A V))
    (hclosed : ((create (Cache.create setup source)).run steps).2.closed = true) :
    ((create (Cache.create setup source)).run steps).2.Forsaken := by
  have hrun : ∀ (steps : List (Step P A V)) (s : Session P A V E), (s.closed = true → s.Relieved) →
      (s.run steps).2.closed = true → (s.run steps).2.Relieved := by
    intro steps
    induction steps with
    | nil => exact fun s h hclosed => h hclosed
    | cons st rest ih => exact fun s h hclosed => ih (s.step st).2 (relieved_step h st) hclosed
  have hrelieved := hrun steps (create (Cache.create setup source)) nofun hclosed
  exact ⟨hclosed, hrelieved, (steady_run setup source steps).idle hrelieved⟩

end Session

end ReadThrough
