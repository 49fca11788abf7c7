import ReadThrough.Proofs.Call.Course
import ReadThrough.Proofs.Polling
import ReadThrough.Proofs.Session.Tasks
/-!
# Proofs: requests conform to their policies

A session can be run with a record of what one of its tasks does and is answered, poll by poll, in
whatever steps the polls are made. The record of a request is a course of its policy, or the
beginning of one as long as the request has not ended, whatever else happens in the session.
-/

namespace ReadThrough

variable {P A V E : Type}

namespace Session

/-- Whether a step begins a task under a name. -/
def Step.begins (st : Step P A V) (id : String) : Bool :=
  match st with
  | .begin id' _ => id' = id
  | _ => false

/-- A session, with what one of its tasks has done and was answered. -/
abbrev Recorded (P A V E : Type) := Session P A V E × List (Act P A V E)

/-- What a poll that leads from one session to another does and answers. -/
def actsOf (s s' : Session P A V E) : TaskAnswer (Item P V E) → List (Act P A V E)
  | .answer answer =>
    did (s'.cache.env.trace.drop s.cache.env.trace.length) ++ Act.ofAnswer answer
  | .finished | .unknown => did (s'.cache.env.trace.drop s.cache.env.trace.length)

variable [DecidableEq P] [DecidableEq A] [DecidableEq V]

/-- A poll of the task `polled`, recorded if this is the task `id`. -/
def pollRecorded (id polled : String) (r : Recorded P A V E) :
    TaskAnswer (Item P V E) × Recorded P A V E :=
  let (answer, s) := r.1.pollTask polled
  (answer, s, if polled = id then r.2 ++ actsOf r.1 s answer else r.2)

/-- A step, with the polls of the task `id` recorded. -/
def stepRecorded (id : String) (r : Recorded P A V E) (st : Step P A V) : Recorded P A V E :=
  let fresh : Recorded P A V E := (r.1.fresh, r.2)
  match st with
  | .poll polled => (pollRecorded id polled fresh).2
  | .drain polled => (drain (pollRecorded id polled) (fresh.1.patience [polled]) fresh).2
  | .join ids => (join (pollRecorded id) (fresh.1.patience ids) ids fresh).2
  | _ => ((r.1.step st).2, r.2)

/-- A run, with the polls of the task `id` recorded. -/
def runRecorded (id : String) (s : Session P A V E) (steps : List (Step P A V)) :
    Recorded P A V E :=
  steps.foldl (stepRecorded id) (s, [])

/-- A step that polls tasks by name leads to the same session when something is recorded beside
it. -/
theorem step_record {R : Type} {π : R → Session P A V E}
    {poll : String → R → TaskAnswer (Item P V E) × R}
    (hanswer : ∀ id r, (poll id r).1 = ((π r).pollTask id).1)
    (hstate : ∀ id r, π (poll id r).2 = ((π r).pollTask id).2) {s : Session P A V E} {r : R}
    (hfresh : π r = s.fresh) :
    (∀ id, π (poll id r).2 = (s.step (.poll id)).2) ∧
      (∀ id, π (drain (poll id) ((π r).patience [id]) r).2 = (s.step (.drain id)).2) ∧
      ∀ ids, π (join poll ((π r).patience ids) ids r).2 = (s.step (.join ids)).2 := by
  have hcache : ∀ st : Step P A V, st.needsCache = false →
      (s.step st).2 = (s.fresh.perform st).2 := fun st h => by
    rw [step_snd, h, Bool.and_false]
    rfl
  refine ⟨fun id => ?_, fun id => ?_, fun ids => ?_⟩
  · rw [hcache _ rfl, hstate, hfresh]
    rfl
  · rw [hcache _ rfl, ← hfresh]
    exact (drain_record (hanswer id) (hstate id) _ r).2
  · rw [hcache _ rfl, ← hfresh]
    exact (join_record hanswer hstate ids _ r).2

/-- The record does not change the step. -/
theorem fst_stepRecorded (id : String) (r : Recorded P A V E) (st : Step P A V) :
    (stepRecorded id r st).1 = (r.1.step st).2 := by
  have hanswer : ∀ polled (r : Recorded P A V E),
      (pollRecorded id polled r).1 = (r.1.pollTask polled).1 := fun _ _ => rfl
  have hstate : ∀ polled (r : Recorded P A V E),
      (pollRecorded id polled r).2.1 = (r.1.pollTask polled).2 := fun _ _ => rfl
  have hfresh : ((r.1.fresh, r.2) : Recorded P A V E).1 = r.1.fresh := rfl
  obtain ⟨hpoll, hdrain, hjoin⟩ := step_record hanswer hstate hfresh
  cases st with
  | poll polled => exact hpoll polled
  | drain polled => exact hdrain polled
  | join ids => exact hjoin ids
  | _ => rfl

/-- The session of a recorded run is the one of the run. -/
theorem fst_foldl_stepRecorded (id : String) (steps : List (Step P A V))
    (r : Recorded P A V E) : (steps.foldl (stepRecorded id) r).1 = (r.1.run steps).2 := by
  induction steps generalizing r with
  | nil => rfl
  | cons st rest ih =>
    rw [List.foldl_cons, ih, fst_stepRecorded]
    rfl

/-! ## What lasts -/

omit [DecidableEq V] in
/-- To drop tasks leaves a task as it is or takes it away. -/
theorem tasks_dropTasks_cases (s : Session P A V E) (id : String) (ids : List String) :
    (ids.foldl (fun s id => s.dropTask id) s).tasks.get? id = s.tasks.get? id ∨
      (ids.foldl (fun s id => s.dropTask id) s).tasks.get? id = none := by
  rw [tasks_dropTasks]
  split
  · exact .inr rfl
  · exact .inl rfl

/-- A step that polls no task by name leaves a task where it is, unless it is dropped. -/
theorem tasks_perform (s : Session P A V E) {id : String} {st : Step P A V}
    (hbegins : ¬ st.begins id) (hpoll : ∀ id, st ≠ .poll id) (hdrain : ∀ id, st ≠ .drain id)
    (hjoin : ∀ ids, st ≠ .join ids) :
    (s.perform st).2.tasks.get? id = s.tasks.get? id ∨
      (s.perform st).2.tasks.get? id = none := by
  cases st with
  | poll id' => exact absurd rfl (hpoll id')
  | drain id' => exact absurd rfl (hdrain id')
  | join ids => exact absurd rfl (hjoin ids)
  | begin id' request =>
    have hid : id ≠ id' := fun h => hbegins (by simp [Step.begins, h])
    rcases hcreate : Task.create s.cache request with ⟨task, cache⟩
    have hdrop := tasks_dropTasks_cases { s with cache } id [id']
    simp only [perform, beginTask, hcreate]
    rwa [Table.get?_insert_of_ne _ _ hid]
  | drop id' => exact tasks_dropTasks_cases s id [id']
  | close => exact tasks_dropTasks_cases s id s.dependents
  | _ => exact .inl rfl

/-- What is kept by the polls of a task that is recorded, by those of others, and by all other
steps, whether they leave the task alone or drop it. -/
structure Lasting (id : String) (K : Recorded P A V E → Prop) : Prop where
  fresh : ∀ {s acts}, K (s, acts) → K (s.fresh, acts)
  self : ∀ {s acts}, K (s, acts) →
    K ((s.pollTask id).2, acts ++ actsOf s (s.pollTask id).2 (s.pollTask id).1)
  other : ∀ {s acts} (polled : String),
    (s.pollTask polled).2.tasks.get? id = s.tasks.get? id → K (s, acts) →
      K ((s.pollTask polled).2, acts)
  step : ∀ {s acts} (st : Step P A V),
    (s.step st).2.tasks.get? id = s.tasks.get? id ∨ (s.step st).2.tasks.get? id = none →
      K (s, acts) → K ((s.step st).2, acts)

namespace Lasting

variable {id : String} {K : Recorded P A V E → Prop} {r : Recorded P A V E}

/-- What lasts is kept by a poll of any task. -/
theorem pollRecorded (hK : Lasting id K) (polled : String) (h : K r) :
    K (pollRecorded id polled r).2 := by
  by_cases hid : polled = id
  · subst hid
    show K ((r.1.pollTask polled).2, if polled = polled then _ else _)
    rw [if_pos rfl]
    exact hK.self h
  · show K ((r.1.pollTask polled).2, if polled = id then _ else r.2)
    rw [if_neg hid]
    exact hK.other polled (tasks_pollTask_of_ne r.1 (Ne.symm hid)) h

/-- What lasts is kept by every step that does not begin the name again. -/
theorem stepRecorded (hK : Lasting id K) {st : Step P A V} (hbegins : ¬ st.begins id) (h : K r) :
    K (stepRecorded id r st) := by
  have hfresh : K (r.1.fresh, r.2) := hK.fresh h
  -- All steps but polls leave the record alone.
  have hother : (∀ id, st ≠ .poll id) → (∀ id, st ≠ .drain id) → (∀ ids, st ≠ .join ids) →
      K ((r.1.step st).2, r.2) := by
    intro hpoll hdrain hjoin
    refine hK.step st ?_ h
    rw [step_snd]
    split
    · exact .inl rfl
    · exact tasks_perform r.1.fresh hbegins hpoll hdrain hjoin
  cases st with
  | poll polled => exact hK.pollRecorded polled hfresh
  | drain polled => exact drain_keeps (fun _ => hK.pollRecorded polled) _ hfresh
  | join ids => exact join_keeps (fun polled _ _ => hK.pollRecorded polled) _ hfresh
  | _ => exact hother (fun _ h => by cases h) (fun _ h => by cases h) fun _ h => by cases h

/-- What lasts is kept by every run that does not begin the name again. -/
theorem run (hK : Lasting id K) {steps : List (Step P A V)}
    (hbegins : ∀ st ∈ steps, ¬ st.begins id) (h : K r) :
    K (steps.foldl (Session.stepRecorded id) r) := by
  induction steps generalizing r with
  | nil => exact h
  | cons st rest ih =>
    exact ih (fun st' hst' => hbegins st' (List.mem_cons_of_mem _ hst'))
      (hK.stepRecorded (hbegins st (List.mem_cons_self ..)) h)

end Lasting

/-! ## Following a task -/

/-- How far the task `id` is on its way, by its record: a request stands somewhere on it, one that
has ended has completed it, and one that was dropped has left it somewhere. -/
def Routed (id : String) (route : Route P A V E) (r : Recorded P A V E) : Prop :=
  match r.1.tasks.get? id with
  | some (.call whole call) => whole = route.whole ∧ route.On call r.2
  | some .ended => route.Whole r.2
  | some (.fetch _) | some (.watch _) | some (.updates _) | some (.errors _) => False
  | none => ∃ rest, route.Whole (r.2 ++ rest)

/-- How far the task `id` is on the course of a policy. -/
abbrev Follows (id : String) (whole : Bool) (key : Key P A) (terms : Terms) (policy : Policy)
    (r : Recorded P A V E) : Prop :=
  Routed id (Route.ofPolicy whole key terms policy) r

section Routed

variable {id : String} {route : Route P A V E} {r r' : Recorded P A V E}

omit [DecidableEq V]

/-- Whatever has been done on a route can be completed. -/
theorem Routed.exists_course (h : Routed id route r) : ∃ rest, route.Whole (r.2 ++ rest) := by
  unfold Routed at h
  split at h
  · exact route.completes h.2
  · exact ⟨[], by rw [List.append_nil]; exact h⟩
  · exact h.elim
  · exact h.elim
  · exact h.elim
  · exact h.elim
  · exact h

/-- A task that is not touched stays where it is, and one that is dropped leaves its way. -/
theorem Routed.kept (h : Routed id route r)
    (htask : r'.1.tasks.get? id = r.1.tasks.get? id ∨ r'.1.tasks.get? id = none)
    (hacts : r'.2 = r.2) : Routed id route r' := by
  rcases htask with hsame | hgone
  · unfold Routed
    rw [hsame, hacts]
    exact h
  · have hcourse := h.exists_course
    unfold Routed
    rw [hgone, hacts]
    exact hcourse

end Routed

/-- A poll of the task takes it further on its way. -/
theorem Routed.pollTask {id : String} {route : Route P A V E} {s : Session P A V E}
    {acts : List (Act P A V E)} (h : Routed id route (s, acts)) :
    Routed id route ((s.pollTask id).2, acts ++ actsOf s (s.pollTask id).2 (s.pollTask id).1) := by
  have hnothing : ∀ {trace : List (Event P A V E)}, acts ++ did (trace.drop trace.length) = acts :=
    fun {trace} => by rw [List.drop_length, did_nil, List.append_nil]
  unfold Session.pollTask
  cases htask : s.tasks.get? id with
  | none => exact h.kept (.inl rfl) hnothing
  | some task =>
    unfold Routed at h
    rw [htask] at h
    cases task with
    | fetch f => exact h.elim
    | watch w => exact h.elim
    | updates position => exact h.elim
    | errors position => exact h.elim
    | ended =>
      unfold Routed
      simp only [Task.poll, Table.get?_insert_self]
      exact hnothing.symm ▸ h
    | call whole call =>
      obtain ⟨rfl, hon⟩ := h
      obtain ⟨events, htrace, hnext⟩ := route.goes hon s.cache
      rcases hpoll : call.poll s.cache with ⟨answer, call', c'⟩
      rw [hpoll] at htrace hnext
      have hacts : acts ++ (did (c'.env.trace.drop s.cache.env.trace.length) ++
            Act.ofAnswer (answer.map (Item.ofResult route.whole))) =
          acts ++ did events ++ Act.ofAnswer (answer.map (Item.ofResult route.whole)) := by
        rw [show c'.env.trace = s.cache.env.trace ++ events from htrace, List.drop_left,
          List.append_assoc]
      unfold Routed
      simp only [Task.poll, hpoll, Table.get?_insert_self, actsOf, hacts]
      cases answer with
      | pending => exact ⟨rfl, hnext⟩
      | item result => exact ⟨rfl, hnext⟩
      | done => exact hnext
      | panicked message => exact hnext.elim

/-- Nothing takes a task off its way. -/
theorem Routed.lasting (id : String) (route : Route P A V E) : Lasting id (Routed id route) where
  fresh h := h.kept (.inl rfl) rfl
  self h := h.pollTask
  other _ htask h := h.kept (.inl htask) rfl
  step _ htask h := h.kept htask rfl

/-- A task stays on its route throughout every run that does not begin its name again. -/
theorem Routed.run {id : String} {route : Route P A V E} {r : Recorded P A V E}
    {steps : List (Step P A V)} (hbegins : ∀ st ∈ steps, ¬ st.begins id) (h : Routed id route r) :
    Routed id route (steps.foldl (Session.stepRecorded id) r) :=
  (Routed.lasting id route).run hbegins h

omit [DecidableEq V] in
/-- What a request has done is the beginning of a whole way, and is one once it has ended. -/
theorem Routed.conforms {id : String} {route : Route P A V E} {r : Recorded P A V E}
    (h : Routed id route r) :
    (∃ rest, route.Whole (r.2 ++ rest)) ∧ (.ended ∈ r.2 → route.Whole r.2) := by
  obtain ⟨rest, hcourse⟩ := h.exists_course
  refine ⟨⟨rest, hcourse⟩, fun hended => ?_⟩
  rwa [route.eq_of_ended hcourse hended, List.append_nil] at hcourse

/-- A request that has just begun is at the beginning of its way. -/
theorem routed_begin (s : Session P A V E) (hopen : s.closed = false) (id : String)
    (route : Route P A V E) {key : Key P A} {plan : Plan V} {terms : Terms}
    (hon : route.On (Call.create key plan terms) []) :
    Routed id route ((s.step (.begin id (.stream route.whole key plan terms))).2, []) := by
  have hstep : (s.step (.begin id (.stream route.whole key plan terms))).2.tasks.get? id =
      some (.call route.whole (.create key plan terms)) := by
    rw [step, hopen]
    exact Table.get?_insert_self _ _ _
  unfold Routed
  rw [hstep]
  exact ⟨rfl, hon⟩

/-- A request that is begun stands at the beginning of its course. -/
theorem follows_begin (s : Session P A V E) (hopen : s.closed = false) (id : String)
    (whole : Bool) (key : Key P A) (terms : Terms) (policy : Policy) :
    Follows id whole key terms policy
      ((s.step (.begin id (.stream whole key (.policy policy) terms))).2, []) :=
  routed_begin s hopen id (Route.ofPolicy whole key terms policy)
    (Call.onCourse_create whole key policy terms)

/-- A request conforms to its policy under any interleaving. It is begun in any session, under a
name that no later task takes, and any steps follow. What it does and yields in them is the
beginning of a course of its policy, and the whole course once it has ended. The record of this
belongs to the very run: it leaves the session that the run leaves. -/
theorem request_conforms (s : Session P A V E) (id : String) (whole : Bool) (key : Key P A)
    (policy : Policy) (terms : Terms) (steps : List (Step P A V)) (hopen : s.closed = false)
    (hbegins : ∀ st ∈ steps, ¬ st.begins id) :
    let begun := (s.step (.begin id (.stream whole key (.policy policy) terms))).2
    let record := runRecorded id begun steps
    record.1 = (begun.run steps).2 ∧
    (∃ rest, Course whole key terms policy (record.2 ++ rest)) ∧
    (.ended ∈ record.2 → Course whole key terms policy record.2) := by
  intro begun record
  have hfollows : Follows id whole key terms policy record :=
    (follows_begin s hopen id whole key terms policy).run hbegins
  obtain ⟨rest, hcourse⟩ := hfollows.exists_course
  refine ⟨fst_foldl_stepRecorded id steps (begun, []), ⟨rest, hcourse⟩, fun hended => ?_⟩
  rwa [hcourse.eq_of_ended hended, List.append_nil] at hcourse

/-- A cache with one stored value, over a source whose calls return their numbers after a while. -/
def stockedCache : Cache Nat Unit Nat Nat where
  env :=
    { source := fun number _ => .replies { wait := { yields := 1 }, took := none,
                                           ending := .value number },
      store := .gated { entries := Table.empty.insert (Key.ofParams 7) (Entry.stamped 40 0) },
      clock := .counter 5 1, gates := {}, called := [], updates := Channel.ofCapacity 1,
      errors := Channel.ofCapacity 1, cancelled := 0, asked := 0, trace := [] }
  flights := Flights.empty

/-- Another request starts the load that the first one then shares, and finishes it. -/
def interleaving : List (Step Nat Unit Nat) :=
  [.poll "a", .begin "b" (.stream true (Key.ofParams 7) (.policy .never) {}), .poll "b",
    .put (Key.ofParams 7) (Entry.unstamped 0), .poll "a", .join ["b"], .drain "a"]

/-- Whether an act is the end. -/
def isEnd : Act P A V E → Bool
  | .ended => true
  | .did _ | .yielded _ | .panicked _ => false

omit [DecidableEq P] [DecidableEq A] [DecidableEq V] in
/-- Acts with an end among them show it. -/
theorem ended_mem_of_any {acts : List (Act P A V E)} (h : acts.any isEnd = true) :
    .ended ∈ acts := by
  obtain ⟨act, hmem, hact⟩ := List.any_eq_true.mp h
  cases act with
  | ended => exact hmem
  | _ => cases hact

theorem request_conforms_interleaved :
    let begun := ((create stockedCache).step (.begin "a"
      (.stream true (Key.ofParams 7) (.policy .cachedThenLoad) {}))).2
    (create stockedCache).closed = false ∧ (∀ st ∈ interleaving, ¬ st.begins "a") ∧
      .ended ∈ (runRecorded "a" begun interleaving).2 ∧
      Course true (Key.ofParams 7) {} .cachedThenLoad (runRecorded "a" begun interleaving).2 := by
  intro begun
  have hbegins : ∀ st ∈ interleaving, ¬ st.begins "a" := by decide
  have hany : (runRecorded "a" begun interleaving).2.any isEnd = true := by decide +kernel
  have hended := ended_mem_of_any hany
  obtain ⟨-, -, hcourse⟩ := request_conforms (create stockedCache) "a" true (Key.ofParams 7)
    .cachedThenLoad {} interleaving rfl hbegins
  exact ⟨rfl, hbegins, hended, hcourse hended⟩

end Session

end ReadThrough
