import ReadThrough.Proofs.Session.Visits
/-!
# Proofs: how many loads are shared at a time

As many shared loads are under way as there are keys whose load some task shares, from the first
poll of the load until its execution settles (`Exact`). The calls of the source are those of the
shared executions, each of which some load has visited, and of the loads that were visited alone
(`Tally`).
-/

namespace ReadThrough

variable {P A V E : Type}

/-- Whether the work has ended with an outcome. -/
def Stage.isSettled {W T : Type} : Stage W T → Bool
  | .settled _ => true
  | .running _ | .abandoned => false

/-- The key whose load a task shares, as long as the shared execution has not settled. -/
def Task.occupies? (f : Flights (Key P A) (Work P A V E) (Result V E)) (task : Task P A V E) :
    Option (Key P A) :=
  match task.load? with
  | some (.attached e) => if (f.stage? e).any Stage.isSettled then none else task.aim?.map (·.1)
  | some (.unstarted _ _) | some (.alone _) | none => none

/-- Whether a request reads the store next, be it first of all or instead of a failed load. -/
def Call.looks (call : Call P A V E) : Bool :=
  match call.stage with
  | .looking | .rescuing _ => true
  | .loading _ | .spent => false

/-- Whether a task reads the store next. -/
def Task.looks : Task P A V E → Bool
  | .call _ request => request.looks
  | .fetch request => request.call.looks
  | .watch _ | .updates _ | .errors _ | .ended => false

namespace Session

/-- Whether a step polls a task under a name. -/
def Step.polls (st : Step P A V) (id : String) : Bool :=
  match st with
  | .poll id' | .drain id' => id' = id
  | .join ids => id ∈ ids
  | _ => false

variable [DecidableEq P] [DecidableEq A]

/-- The keys whose loads tasks share. -/
def occupied (s : Session P A V E) : List (Key P A) :=
  (s.tasks.values.filterMap (Task.occupies? s.cache.flights)).dedup

/-- The count of shared loads is exact. -/
structure Exact (s : Session P A V E) : Prop where
  counted : s.cache.ongoing = s.occupied.length
  /-- No two executions run for one key. -/
  single : ∀ (e e' : Nat) (x x' : Execution (Key P A) (Work P A V E) (Result V E)),
    s.cache.flights.executions[e]? = some x → x.stage.isRunning = true →
    s.cache.flights.executions[e']? = some x' → x'.stage.isRunning = true →
    x.key = x'.key → e = e'
  /-- Nothing is counted once every task that shares a load has its outcome ahead or is gone. -/
  idle : (∀ id task e, s.tasks.get? id = some task → task.load? = some (.attached e) →
    ∃ outcome, s.cache.flights.stage? e = some (.settled outcome)) → s.cache.ongoing = 0
  /-- Whoever reads the store or may not share contributes nothing. -/
  free : ∀ id task, s.tasks.get? id = some task →
    (task.looks = true ∨ ∃ key, task.aim? = some (key, false)) →
      task.occupies? s.cache.flights = none

/-! ## What tasks contribute -/

section Contributions

variable {s : Session P A V E} {id : String} {task : Task P A V E} {key : Key P A}

omit [DecidableEq P] [DecidableEq A] in
/-- A task occupies its key if it is attached to an execution that has not settled. -/
theorem occupies?_eq_some_iff {f : Flights (Key P A) (Work P A V E) (Result V E)} :
    task.occupies? f = some key ↔ ∃ e share, task.load? = some (.attached e) ∧
      (∀ outcome, f.stage? e ≠ some (.settled outcome)) ∧ task.aim? = some (key, share) := by
  unfold Task.occupies?
  constructor
  · intro h
    split at h
    · rename_i e hload
      simp only [Option.ite_none_left_eq_some, Option.map_eq_some_iff] at h
      obtain ⟨hstage, ⟨key', share⟩, haim, rfl⟩ := h
      refine ⟨e, share, hload, fun outcome hsettled => hstage ?_, haim⟩
      rw [hsettled]
      rfl
    · cases h
    · cases h
    · cases h
  · rintro ⟨e, share, hload, hstage, haim⟩
    have hrunning : (f.stage? e).any Stage.isSettled = false := by
      cases hs : f.stage? e with
      | none => rfl
      | some stage =>
        cases stage with
        | settled outcome => exact absurd hs (hstage outcome)
        | running | abandoned => rfl
    simp [hload, haim, hrunning]

omit [DecidableEq P] [DecidableEq A] in
/-- Whoever reads the store holds no load. -/
theorem load?_of_looks (h : task.looks = true) : task.load? = none := by
  have hcall : ∀ {call : Call P A V E}, call.looks = true → call.load? = none := by
    intro call hlooks
    unfold Call.looks at hlooks
    unfold Call.load?
    cases hstage : call.stage with
    | looking | rescuing => rfl
    | loading load =>
      rw [hstage] at hlooks
      cases hlooks
    | spent => rfl
  cases task with
  | call whole request => exact hcall h
  | fetch request => exact hcall h
  | watch | updates | errors | ended => cases h

/-- A task whose load has not settled with an outcome waits for a running execution of its key. -/
theorem Steady.runs (h : s.Steady)
    (hget : s.tasks.get? id = some task) {e : Nat} (hload : task.load? = some (.attached e))
    (hstage : ∀ outcome, s.cache.flights.stage? e ≠ some (.settled outcome)) :
    ∃ x, s.cache.flights.executions[e]? = some x ∧ x.stage.isRunning = true ∧
      task.aim? = some (x.key, true) := by
  obtain ⟨x, hx, haim⟩ := h.aimed hget (.attached e) hload
  refine ⟨x, hx, ?_, haim⟩
  -- The load makes the task a caller, and an abandoned execution has none.
  have hmem : .attached e ∈ loadsOf s.tasks := mem_loadsOf.mpr ⟨id, task, hget, hload⟩
  have hwaits : 0 < waitingAmong (loadsOf s.tasks) e :=
    Multiset.countP_pos.mpr ⟨.attached e, hmem, rfl⟩
  have hsound := h.attended.tracked.sound hx
  cases hs : x.stage with
  | running work => rfl
  | settled outcome => exact absurd (hs ▸ Flights.stage?_of_getElem? hx) (hstage outcome)
  | abandoned => exact absurd hwaits (hsound.deserted hs ▸ Nat.lt_irrefl 0)

/-- A key is registered if and only if some task shares its load. -/
theorem Steady.mem_occupied (h : s.Steady) (key : Key P A) :
    key ∈ s.occupied ↔ key ∈ s.cache.flights.registry.keys := by
  rw [occupied, List.mem_dedup, List.mem_filterMap, Table.keys, List.mem_map]
  constructor
  · rintro ⟨task, htask, hkey⟩
    obtain ⟨⟨id, task⟩, hmem, rfl⟩ := List.mem_map.mp htask
    have hget := s.tasks.get?_eq_some_iff.mpr hmem
    obtain ⟨e, share, hload, hstage, haim⟩ := occupies?_eq_some_iff.mp hkey
    obtain ⟨x, hx, hrun, haim'⟩ := h.runs hget hload hstage
    cases haim.symm.trans haim'
    have hregistered := h.attended.registered.get?_key hx hrun
    exact ⟨_, (Table.get?_eq_some_iff _).mp hregistered, rfl⟩
  · rintro ⟨⟨key, ticket⟩, hmem, rfl⟩
    have hget := (Table.get?_eq_some_iff _).mpr hmem
    obtain ⟨⟨x, work, hx, rfl, hstage⟩, hload⟩ := h.attended.runs_of_registered hget
    obtain ⟨id, task, htask, hheld⟩ := mem_loadsOf.mp hload
    obtain ⟨x', hx', haim⟩ := h.aimed htask _ hheld
    obtain rfl : x = x' := Option.some.inj (hx.symm.trans hx')
    refine ⟨task, List.mem_map.mpr ⟨_, s.tasks.get?_eq_some_iff.mp htask, rfl⟩, ?_⟩
    refine occupies?_eq_some_iff.mpr ⟨_, true, hheld, fun outcome hsettled => ?_, haim⟩
    have hrunning := Flights.stage?_of_getElem? hx'
    rw [hstage] at hrunning
    cases hrunning.symm.trans hsettled

/-- In a steady session the tasks occupy exactly what runs. -/
theorem Steady.exact (h : s.Steady) : s.Exact := by
  have hcounted : s.cache.ongoing = s.occupied.length := by
    have hperm : s.cache.flights.registry.keys.Perm s.occupied :=
      (List.perm_ext_iff_of_nodup s.cache.flights.registry.distinct (List.nodup_dedup _)).mpr
        fun key => (h.mem_occupied key).symm
    rw [← hperm.length_eq]
    exact (List.length_map _).symm
  refine ⟨hcounted, fun e e' x x' hx hrun hx' hrun' => ?_, fun hsettled => ?_, ?_⟩
  · exact h.attended.registered.key_unique hx hrun hx' hrun'
  · rw [hcounted, List.length_eq_zero_iff, List.eq_nil_iff_forall_not_mem]
    intro key hkey
    obtain ⟨task, htask, hoccupies⟩ := List.mem_filterMap.mp (List.mem_dedup.mp hkey)
    obtain ⟨⟨id, task⟩, hmem, rfl⟩ := List.mem_map.mp htask
    obtain ⟨e, share, hload, hstage, -⟩ := occupies?_eq_some_iff.mp hoccupies
    obtain ⟨outcome, houtcome⟩ :=
      hsettled id task e (s.tasks.get?_eq_some_iff.mpr hmem) hload
    exact hstage outcome houtcome
  · intro id task hget hfree
    refine Option.eq_none_iff_forall_not_mem.mpr fun key hoccupies => ?_
    obtain ⟨e, share, hload, hstage, -⟩ := occupies?_eq_some_iff.mp hoccupies
    rcases hfree with hlooks | ⟨key', haim⟩
    · rw [load?_of_looks hlooks] at hload
      cases hload
    · obtain ⟨x, -, -, haim'⟩ := h.runs hget hload hstage
      cases haim.symm.trans haim'

end Contributions

/-! ## Tasks that are not polled -/

section Unpolled

variable [DecidableEq V] {s : Session P A V E} {id : String}

/-- A step that neither begins nor polls a task leaves it as it is, unless it drops it. -/
theorem tasks_step_of_unpolled {st : Step P A V} (hbegins : ¬ st.begins id)
    (hpolls : ¬ st.polls id) :
    (s.step st).2.tasks.get? id = s.tasks.get? id ∨ (s.step st).2.tasks.get? id = none := by
  rw [step_snd]
  split
  · exact .inl rfl
  have hpoll : ∀ id' (s : Session P A V E), id' ≠ id →
      (s.pollTask id').2.tasks.get? id = s.tasks.get? id :=
    fun id' s hid => tasks_pollTask_of_ne s (Ne.symm hid)
  cases st with
  | poll id' => exact .inl (hpoll id' s.fresh fun hid => hpolls (by simp [Step.polls, hid]))
  | drain id' =>
    have hne : id' ≠ id := fun hid => hpolls (by simp [Step.polls, hid])
    have hdrain := drain_rel
      (R := fun (s : Session P A V E) _ s' => s'.tasks.get? id = s.tasks.get? id)
      (fun _ => rfl) (fun hfirst hrest => hrest.trans hfirst) (fun s => hpoll id' s hne)
      (s.fresh.patience [id']) s.fresh
    exact .inl hdrain
  | join ids =>
    have hne : ∀ id' ∈ ids, id' ≠ id := fun id' hmem hid =>
      hpolls (by simpa [Step.polls] using hid ▸ hmem)
    have hjoin := join_rel
      (R := fun (s : Session P A V E) _ s' => s'.tasks.get? id = s.tasks.get? id)
      (fun _ => rfl) (fun hfirst hrest => hrest.trans hfirst)
      (fun id' hmem s => hpoll id' s (hne id' hmem)) (s.fresh.patience ids) s.fresh
    exact .inl hjoin
  | _ =>
    exact tasks_perform s.fresh hbegins (fun _ h => by cases h) (fun _ h => by cases h)
      fun _ h => by cases h

/-- A task that is not polled stays as it is or is dropped. -/
theorem tasks_run_of_unpolled {steps : List (Step P A V)} (hbegins : ∀ st ∈ steps, ¬ st.begins id)
    (hpolls : ∀ st ∈ steps, ¬ st.polls id) :
    (s.run steps).2.tasks.get? id = s.tasks.get? id ∨
      (s.run steps).2.tasks.get? id = none := by
  induction steps generalizing s with
  | nil => exact .inl rfl
  | cons st rest ih =>
    have hstep : (s.step st).2.tasks.get? id = s.tasks.get? id ∨ _ :=
      tasks_step_of_unpolled (hbegins st (List.mem_cons_self ..))
        (hpolls st (List.mem_cons_self ..))
    have hrest : ((s.step st).2.run rest).2.tasks.get? id = (s.step st).2.tasks.get? id ∨ _ :=
      ih (fun st hst => hbegins st (List.mem_cons_of_mem _ hst))
        fun st hst => hpolls st (List.mem_cons_of_mem _ hst)
    rcases hrest with hsame | hnone
    · rcases hstep with hsame' | hnone
      · exact .inl (hsame.trans hsame')
      · exact .inr (hsame.trans hnone)
    · exact .inr hnone

/-- A task that has not been polled since it was begun contributes nothing. -/
theorem occupies?_of_unpolled {steps : List (Step P A V)} {request : Request P A V}
    (hopen : s.closed = false) (hbegins : ∀ st ∈ steps, ¬ st.begins id)
    (hpolls : ∀ st ∈ steps, ¬ st.polls id) {task : Task P A V E}
    {f : Flights (Key P A) (Work P A V E) (Result V E)}
    (hget : ((s.step (.begin id request)).2.run steps).2.tasks.get? id = some task) :
    task.occupies? f = none := by
  have hbegun : (s.step (.begin id request)).2.tasks.get? id =
      some (Task.create s.fresh.cache request).1 := by
    rw [step_snd, hopen]
    exact Table.get?_insert_self _ _ _
  have hnone : (Task.create s.fresh.cache request).1.occupies? f = none := by
    refine Option.eq_none_iff_forall_not_mem.mpr fun key hoccupies => ?_
    obtain ⟨e, -, hload, -⟩ := occupies?_eq_some_iff.mp hoccupies
    have hsuited := Task.suited_create (f := Flights.empty) s.fresh.cache request _ hload
    obtain ⟨x, hx, -⟩ := hsuited
    cases hx
  have hrun : ((s.step (.begin id request)).2.run steps).2.tasks.get? id = _ ∨ _ :=
    tasks_run_of_unpolled hbegins hpolls
  rcases hrun with hsame | hgone
  · rw [hsame, hbegun] at hget
    exact Option.some.inj hget ▸ hnone
  · rw [hgone] at hget
    cases hget

end Unpolled

/-! ## Runs -/

variable [DecidableEq V]

/-- No shared call of the source is leaked and none is made twice. After any run of a session over a
new cache, as many shared loads are under way as there are keys whose load some task shares: a task
that has not been polled since it was begun, that reads the store or that may not share contributes
nothing. And the calls of the source in the whole run are as many as the shared executions that were
visited and the loads that were visited alone. -/
theorem shared_loads_counted (setup : Setup (Store (Key P A) V)) (source : Source P V E)
    (steps : List (Step P A V)) :
    let start : Session P A V E := create (Cache.create setup source)
    let last := (start.run steps).2
    last.Exact ∧
      (∀ before id request after, steps = before ++ .begin id request :: after →
        (start.run before).2.closed = false →
        (∀ st ∈ after, ¬ st.begins id) → (∀ st ∈ after, ¬ st.polls id) →
        ∀ task, last.tasks.get? id = some task → task.occupies? last.cache.flights = none) ∧
      (∃ visits, start.Visits steps visits) ∧
      ∀ visits, start.Visits steps visits →
        last.cache.env.called.length = (visits.filterMap (·.execution)).dedup.length +
          visits.countP Visit.isDetour := by
  intro start last
  have hsound : start.Sound := fun _ _ hget => by cases hget
  have htally : Tally start.world [] := by
    refine ⟨fun e => ⟨?_, fun he => absurd he (Nat.not_lt_zero e)⟩, rfl, fun _ => rfl,
      fun work hmem => absurd hmem (Multiset.notMem_zero _)⟩
    rintro ⟨visit, hmem, -⟩
    cases hmem
  refine ⟨(steady_run setup source steps).exact, ?_, exists_visits steps hsound,
    fun visits hvisits => ?_⟩
  · intro before id request after hsteps hopen hbegins hpolls task hget
    have hlast : last = (((start.run before).2.step (.begin id request)).2.run after).2 := by
      show (start.run steps).2 = _
      rw [hsteps, run_append]
      rfl
    rw [hlast] at hget
    exact occupies?_of_unpolled hopen hbegins hpolls hget
  · have hend := hvisits.tally (attended_run setup source []) htally
    have hcalled := hend.called
    rw [hend.executions_eq] at hcalled
    exact hcalled

/-- Two callers share a load, a third one loads alone and a fourth one reads the store. The load
stays shared when the caller that began it is dropped, and not when the last one is. -/
def crowd : List (Step String Unit Int64) :=
  [.begin "a" (.stream true (Key.ofParams "x") (.policy .never) {}),
    .begin "b" (.stream true (Key.ofParams "x") (.policy .never) {}),
    .begin "c" (.stream true (Key.ofParams "x") (.policy .never) { share := false }),
    .begin "d" (.stream true (Key.ofParams "x") (.policy .only) {}),
    .poll "a", .poll "b", .poll "c", .poll "d", .drop "a", .drop "b", .drop "c"]

example :
    let setup : Setup (Store (Key String Unit) Int64) :=
      { store := .gated { readGate := some "read", entries := Table.empty },
        clock := .counter 1000 1, broadcastCapacity := 64 }
    let source : Source String Int64 String :=
      scriptedSource [{ wait := { yields := 9 } }, { wait := { yields := 9 } }]
    let reports := ((create (Cache.create setup source)).run crowd).1
    reports.map (·.ongoing) = [0, 0, 0, 0, 1, 1, 1, 1, 1, 0, 0].map some ∧
      reports.map (·.calls) = [0, 0, 0, 0, 1, 1, 2, 2, 2, 2, 2] :=
  ⟨rfl, rfl⟩

end Session

end ReadThrough