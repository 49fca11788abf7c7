import ReadThrough.Proofs.Session.Meetings
import ReadThrough.Proofs.Session.Unfolding
import ReadThrough.Proofs.Table
/-!
# Proofs: sessions without some of the subscribers

One session has subscribers that another one lacks, and is the same otherwise
(`Session.Overlooks`). A step that has nothing to do with these subscribers does and answers the
same in both sessions, which are then related as before (`Session.Alongside.step`).
-/

namespace ReadThrough

variable {P A V E : Type}

/-- Two optional values stay related under whatever the relation implies for them. -/
theorem rel_imp {α β : Type} {R R' : α → β → Prop} {o : Option α} {o' : Option β}
    (h : Option.Rel R o o') (himp : ∀ a b, o = some a → R a b → R' a b) : Option.Rel R' o o' := by
  cases h with
  | some hab => exact .some (himp _ _ rfl hab)
  | none => exact .none

/-- The outputs, before anything has been told. -/
def Outputs.silent (v : Outputs P A V E) : Outputs P A V E := { v with trace := [] }

namespace Session

variable {hidden : String → Bool} {s s' t t' : Session P A V E} {id : String}

/-- The first session has subscribers with hidden names, which the second lacks. Otherwise the two
are the same, and the subscribers of both have the same to read. -/
structure Overlooks (hidden : String → Bool) (s s' : Session P A V E) : Prop where
  cache : Cache.Meeting (fun _ _ _ => False) s.cache s'.cache
  closed : s'.closed = s.closed
  tasks : ∀ id, hidden id = false →
    Option.Rel (Task.Alike True fun topic => topic.Meets s.cache s'.cache)
      (s.tasks.get? id) (s'.tasks.get? id)
  absent : ∀ id, hidden id = true → s'.tasks.get? id = none
  screened : s.Screened hidden

/-- A task weighs no more than all together. -/
theorem le_weigh {weight : Task P A V E → Nat} {counted : String → Bool}
    {tasks : Table String (Task P A V E)} {task : Task P A V E} (hcounted : counted id = true)
    (hget : tasks.get? id = some task) : weight task ≤ weigh weight counted tasks := by
  rw [weigh_of_get? hcounted hget]
  exact Nat.le_add_right _ _

/-- All that listens is a task. -/
def Counted (s : Session P A V E) : Prop :=
  ∀ topic : Topic, topic.heard s.cache = weigh topic.listening (fun _ => true) s.tasks

namespace Overlooks

/-- A task that is not hidden and missing in the first session is missing in the second. -/
theorem missing (h : Overlooks hidden s s') (hvisible : hidden id = false)
    (hget : s.tasks.get? id = none) : s'.tasks.get? id = none := by
  have hrel := h.tasks id hvisible
  rw [hget] at hrel
  generalize s'.tasks.get? id = found' at hrel ⊢
  cases hrel with
  | none => rfl

/-- A task that is not hidden has its like in the second session. -/
theorem found (h : Overlooks hidden s s') (hvisible : hidden id = false) {task : Task P A V E}
    (hget : s.tasks.get? id = some task) :
    ∃ task', s'.tasks.get? id = some task' ∧
      Task.Alike True (fun topic => topic.Meets s.cache s'.cache) task task' := by
  have hrel := h.tasks id hvisible
  rw [hget] at hrel
  generalize s'.tasks.get? id = found' at hrel ⊢
  cases hrel with
  | some halike => exact ⟨_, rfl, halike⟩

/-- What happens to one task. -/
theorem replace (h : Overlooks hidden s s')
    (hcache : Cache.Meeting (fun _ _ _ => False) t.cache t'.cache) (hclosed : t'.closed = t.closed)
    (hvisible : hidden id = false)
    (hself : Option.Rel (Task.Alike True fun topic => topic.Meets t.cache t'.cache)
      (t.tasks.get? id) (t'.tasks.get? id))
    (hothers : ∀ id', id' ≠ id →
      t.tasks.get? id' = s.tasks.get? id' ∧ t'.tasks.get? id' = s'.tasks.get? id')
    (hmeets : ∀ id' task, id' ≠ id → s.tasks.get? id' = some task → ∀ topic : Topic,
      0 < topic.listening task → ∀ p p', hidden id' = false →
        topic.Meets s.cache s'.cache p p' → topic.Meets t.cache t'.cache p p') :
    Overlooks hidden t t' := by
  refine ⟨hcache, hclosed, fun id' hid' => ?_, fun id' hid' => ?_, fun id' task hid' hget => ?_⟩
  · by_cases hsame : id' = id
    · rw [hsame]
      exact hself
    · obtain ⟨hget, hget'⟩ := hothers id' hsame
      rw [hget, hget']
      refine rel_imp (h.tasks id' hid') fun task task' htask halike => ?_
      exact halike.mono (fun _ => trivial) fun topic p p' hlistens hp =>
        hmeets id' task hsame htask topic hlistens p p' hid' hp
  · have hne : id' ≠ id := fun heq => by simp [heq, hvisible] at hid'
    rw [(hothers id' hne).2]
    exact h.absent id' hid'
  · have hne : id' ≠ id := fun heq => by simp [heq, hvisible] at hid'
    rw [(hothers id' hne).1] at hget
    exact h.screened id' task hid' hget

/-- Something happens to the caches, and the tasks that had the same to read have so still. -/
theorem carries (h : Overlooks hidden s s') {c c' : Cache P A V E}
    (hcache : Cache.Meeting (fun _ _ _ => False) c c')
    (hmeets : ∀ id task, hidden id = false → s.tasks.get? id = some task → ∀ topic : Topic,
      0 < topic.listening task → ∀ p p', topic.Meets s.cache s'.cache p p' →
        topic.Meets c c' p p') :
    Overlooks hidden { s with cache := c } { s' with cache := c' } where
  cache := hcache
  closed := h.closed
  tasks id hid := rel_imp (h.tasks id hid) fun task _ hget halike =>
    halike.mono (fun _ => trivial) fun topic p p' hlistens hp =>
      hmeets id task hid hget topic hlistens p p' hp
  absent := h.absent
  screened := h.screened

/-- The caches of both sessions may go on alike. -/
theorem moves (h : Overlooks hidden s s') {c c' : Cache P A V E}
    (hcache : Cache.Meeting (fun topic => topic.Meets s.cache s'.cache) c c') :
    Overlooks hidden { s with cache := c } { s' with cache := c' } :=
  h.carries hcache.forget fun _ _ _ _ topic _ p p' hp => hcache.env.outputs.meets topic p p' hp

/-- The environments of both sessions may go on alike. -/
theorem tends (h : Overlooks hidden s s') {env env' : Environment P A V E}
    (henv : Environment.Alike (Outputs.Meeting fun topic => topic.Meets s.cache s'.cache) env
      env') :
    Overlooks hidden (s.withEnv env) (s'.withEnv env') :=
  h.moves ⟨henv, h.cache.flights⟩

/-- Something happens to the environments that has nothing to do with subscribers. -/
theorem tends_alike (h : Overlooks hidden s s') {f : Environment P A V E → Environment P A V E}
    (hwith : ∀ env v, f (env.withOutputs v) = (f env).withOutputs v)
    (houtputs : ∀ env, (f env).outputs = env.outputs) :
    Overlooks hidden (s.withEnv (f s.cache.env)) (s'.withEnv (f s'.cache.env)) := by
  obtain ⟨⟨v, henv, hv⟩, -⟩ := h.cache.gather
  refine h.tends ⟨v, ?_, ?_⟩
  · rw [henv, hwith]
  · rwa [houtputs]

/-- The hidden subscribers alone do something, and what was told is forgotten. -/
theorem aside (h : Overlooks hidden s s') (haside : s.Aside hidden t) :
    Overlooks hidden t.fresh s'.fresh := by
  obtain ⟨⟨v, henv, hv⟩, hflights⟩ := h.cache.gather
  obtain ⟨⟨w, henv', hw⟩, hflights'⟩ := haside.cache
  have hrests : ∀ (v : Outputs P A V E) (topic : Topic),
      (topic.channel v).Rests (topic.channel v.silent) := fun _ topic => by
    cases topic <;> exact .refl _
  have hcache : Cache.Meeting (fun topic => topic.Meets s.cache s'.cache) t.fresh.cache
      s'.fresh.cache := by
    refine ⟨⟨v.silent, ?_, ?_⟩, hflights.trans hflights'.symm⟩
    · show { s'.cache.env with trace := [] } =
        Environment.withOutputs { t.cache.env with trace := [] } v.silent
      rw [henv, henv']
      rfl
    · have houtputs : t.fresh.cache.env.outputs = w.silent := by
        show t.cache.env.outputs.silent = w.silent
        rw [henv']
        rfl
      rw [houtputs]
      exact hv.rests (fun topic => (hw.rests topic).trans (hrests w topic)) (hrests v) rfl
  refine ⟨hcache.forget, h.closed.trans haside.closed.symm, fun id hid => ?_, h.absent,
    haside.screened⟩
  show Option.Rel _ (t.tasks.get? id) (s'.tasks.get? id)
  rw [haside.tasks id hid]
  refine rel_imp (h.tasks id hid) fun task task' _ halike => ?_
  exact halike.mono (fun _ => trivial) fun topic p p' _ hp => hcache.env.outputs.meets topic p p' hp

/-- Both traces may be emptied. -/
theorem fresh (h : Overlooks hidden s s') : Overlooks hidden s.fresh s'.fresh :=
  h.aside h.screened.aside

/-- Both sessions may be shut. -/
theorem shut (h : Overlooks hidden s s') : Overlooks hidden s.shut s'.shut := by
  obtain ⟨⟨v, henv, hv⟩, hflights⟩ := h.cache.gather
  have hcache : Cache.Meeting (fun topic => topic.Meets s.cache s'.cache) s.shut.cache
      s'.shut.cache := by
    refine ⟨⟨{ v with updates := v.updates.close, errors := v.errors.close }, ?_, ?_⟩, ?_⟩
    · show { s'.cache.env with
        updates := s'.cache.env.updates.close, errors := s'.cache.env.errors.close } = _
      rw [henv]
      rfl
    · refine ⟨fun topic => ?_, fun topic p p' hp => ?_, hv.audible⟩
      · have hshape := (hv.sameShape topic).close
        cases topic <;> exact hshape
      · obtain ⟨unread, hawaits, hawaits'⟩ := hv.meets topic p p' hp
        refine ⟨unread, hawaits.still ?_, hawaits'.still ?_⟩
        · cases topic <;> exact ⟨rfl, rfl⟩
        · cases topic <;> exact ⟨rfl, rfl⟩
    · show s'.cache.flights.close = s.cache.flights.close
      rw [hflights]
  have hmoved := h.moves hcache
  exact ⟨hmoved.cache, rfl, hmoved.tasks, hmoved.absent, hmoved.screened⟩

/-- Both sessions are equally patient with tasks that are not hidden. -/
theorem patience (h : Overlooks hidden s s') {ids : List String}
    (hids : ∀ id ∈ ids, hidden id = false) : s'.patience ids = s.patience ids := by
  have heach : ids.map (fun id => ((s'.tasks.get? id).map (Task.patience s'.cache)).getD 0) =
      ids.map (fun id => ((s.tasks.get? id).map (Task.patience s.cache)).getD 0) := by
    refine List.map_congr_left fun id hid => ?_
    have hrel := h.tasks id (hids id hid)
    generalize s.tasks.get? id = found, s'.tasks.get? id = found' at hrel
    cases hrel with
    | none => rfl
    | some halike => exact halike.patience h.cache
  unfold Session.patience
  rw [heach]

/-- Both sessions have the same names that are not hidden. -/
theorem contains (h : Overlooks hidden s s') (hvisible : hidden id = false) :
    s'.tasks.contains id = s.tasks.contains id := by
  have hrel := h.tasks id hvisible
  unfold Table.contains
  generalize s.tasks.get? id = found, s'.tasks.get? id = found' at hrel
  cases hrel with
  | none => rfl
  | some halike => rfl

/-- The tasks that need the cache are the same in both sessions, since subscriptions do not. -/
theorem dependents (h : Overlooks hidden s s') : s'.dependents = s.dependents := by
  refine Table.keysWhere_congr fun id => ?_
  cases hid : hidden id with
  | true =>
    rw [h.absent id hid]
    cases hget : s.tasks.get? id with
    | none => rfl
    | some task => exact (h.screened id task hid hget).symm
  | false =>
    have hrel := h.tasks id hid
    generalize s.tasks.get? id = found, s'.tasks.get? id = found' at hrel
    cases hrel with
    | none => rfl
    | some halike => exact halike.needsCache

/-- A visible task that listens is one of those that do, in both sessions. -/
theorem weigh_pos (h : Overlooks hidden s s') {counted : String → Bool} {task : Task P A V E}
    {topic : Topic} (hcounted : counted id = true) (hvisible : hidden id = false)
    (hget : s.tasks.get? id = some task) (hlistens : 0 < topic.listening task) :
    0 < weigh topic.listening counted s.tasks ∧ 0 < weigh topic.listening counted s'.tasks := by
  obtain ⟨task', hget', halike⟩ := h.found hvisible hget
  have hlistens' : 0 < topic.listening task' := halike.listening topic ▸ hlistens
  exact ⟨Nat.lt_of_lt_of_le hlistens (le_weigh hcounted hget),
    Nat.lt_of_lt_of_le hlistens' (le_weigh hcounted hget')⟩

variable [DecidableEq P] [DecidableEq A]

/-- The same task may be dropped from both sessions. -/
theorem dropTask (h : Overlooks hidden s s') (hvisible : hidden id = false) :
    Overlooks hidden (s.dropTask id) (s'.dropTask id) ∧
      Cache.Meeting (fun topic => topic.Meets s.cache s'.cache) (s.dropTask id).cache
        (s'.dropTask id).cache := by
  have hcache : Cache.Meeting (fun topic => topic.Meets s.cache s'.cache) (s.dropTask id).cache
      (s'.dropTask id).cache := by
    have hrel := h.tasks id hvisible
    rw [cache_dropTask, cache_dropTask]
    generalize s.tasks.get? id = found, s'.tasks.get? id = found' at hrel
    cases hrel with
    | none => exact h.cache.gather
    | some halike => exact halike.drop h.cache
  refine ⟨h.replace hcache.forget ?_ hvisible ?_ ?_ ?_, hcache⟩
  · rw [closed_dropTask, closed_dropTask, h.closed]
  · rw [tasks_dropTask, tasks_dropTask, if_pos rfl, if_pos rfl]
    exact .none
  · intro id' hne
    rw [tasks_dropTask, tasks_dropTask, if_neg hne, if_neg hne]
    exact ⟨rfl, rfl⟩
  · intro id' task _ _ topic _ p p' _ hmeets
    exact hcache.env.outputs.meets topic p p' hmeets

/-- The same tasks may be dropped from both sessions. -/
theorem dropTasks (h : Overlooks hidden s s') {ids : List String}
    (hids : ∀ id ∈ ids, hidden id = false) :
    Overlooks hidden (ids.foldl (fun s id => s.dropTask id) s)
      (ids.foldl (fun s id => s.dropTask id) s') := by
  induction ids generalizing s s' with
  | nil => exact h
  | cons id ids ih =>
    obtain ⟨hfirst, hrest⟩ := List.forall_mem_cons.mp hids
    exact ih (h.dropTask hfirst).1 hrest

/-- The same request may be begun in both sessions. -/
theorem beginTask (h : Overlooks hidden s s') (hvisible : hidden id = false)
    (request : Request P A V) :
    Overlooks hidden (s.beginTask id request) (s'.beginTask id request) := by
  obtain ⟨hpaired, hcreated⟩ := Task.paired_create h.cache request
  let created := Task.create s.cache request
  let created' := Task.create s'.cache request
  let begun : Session P A V E := { s with cache := created.2 }
  let begun' : Session P A V E := { s' with cache := created'.2 }
  have hbegun : Overlooks hidden begun begun' := h.moves hcreated
  -- The task that had the name before is dropped.
  obtain ⟨hdropped, hcache⟩ := hbegun.dropTask hvisible
  refine hdropped.replace hcache.forget hdropped.closed hvisible ?_ ?_ ?_
  · show Option.Rel _ (((begun.dropTask id).tasks.insert id _).get? id)
      (((begun'.dropTask id).tasks.insert id _).get? id)
    rw [Table.get?_insert_self, Table.get?_insert_self]
    refine .some (hpaired.task.mono (fun _ => trivial) fun topic p p' _ hmeets => ?_)
    exact hcache.env.outputs.meets topic p p' hmeets
  · intro id' hne
    exact ⟨Table.get?_insert_of_ne _ _ hne, Table.get?_insert_of_ne _ _ hne⟩
  · intro id' task _ _ topic _ p p' _ hmeets
    exact hmeets

/-- Both caches may be closed. -/
theorem close (h : Overlooks hidden s s') : Overlooks hidden s.close s'.close := by
  have hvisible : ∀ id ∈ s.dependents, hidden id = false := by
    intro id hid
    obtain ⟨task, hget, hneeds⟩ := Table.exists_of_mem_keysWhere _ hid
    apply Bool.eq_false_iff.mpr
    intro hhidden
    rw [h.screened id task hhidden hget] at hneeds
    cases hneeds
  have hdropped := h.dropTasks hvisible
  unfold Session.close
  rw [h.dependents]
  exact hdropped.shut

variable [DecidableEq V]

/-- A poll of a task that is not hidden answers the same in both sessions. -/
theorem pollTask (h : Overlooks hidden s s') (hcounted : s.Counted) (hcounted' : s'.Counted)
    (hvisible : hidden id = false) :
    (s'.pollTask id).1 = (s.pollTask id).1 ∧
      Overlooks hidden (s.pollTask id).2 (s'.pollTask id).2 := by
  unfold Session.pollTask
  cases hget : s.tasks.get? id with
  | none =>
    rw [h.missing hvisible hget]
    exact ⟨rfl, h⟩
  | some task =>
    obtain ⟨task', hget', halike⟩ := h.found hvisible hget
    rw [hget']
    let others (s : Session P A V E) (topic : Topic) : Nat :=
      weigh topic.listening (· ≠ id) s.tasks
    have hpaired : Task.Paired (others s) (others s') (task, s.cache) (task', s'.cache) :=
      ⟨halike, h.cache,
        fun topic => (hcounted topic).trans ((weigh_all hget).trans (Nat.add_comm _ _)),
        fun topic => (hcounted' topic).trans ((weigh_all hget').trans (Nat.add_comm _ _))⟩
    obtain ⟨hanswer, hafter, hreunites⟩ := hpaired.poll
    refine ⟨hanswer, h.replace hafter.cache h.closed hvisible ?_ ?_ ?_⟩
    · show Option.Rel _ ((s.tasks.insert id _).get? id) ((s'.tasks.insert id _).get? id)
      rw [Table.get?_insert_self, Table.get?_insert_self]
      exact .some hafter.task
    · intro id' hne
      exact ⟨Table.get?_insert_of_ne _ _ hne, Table.get?_insert_of_ne _ _ hne⟩
    · intro id' other hne hother topic hlistens p p' hid' hmeets
      have hheard : 0 < others s topic ∧ 0 < others s' topic :=
        h.weigh_pos (decide_eq_true hne) hid' hother hlistens
      exact hreunites topic hheard.1 hheard.2 p p' hmeets

/-- A task that is run at once answers the same in both sessions. -/
theorem runTask (h : Overlooks hidden s s') (hcounted : s.Counted) (hcounted' : s'.Counted)
    (request : Request P A V) :
    (s'.runTask request).1 = (s.runTask request).1 ∧
      Overlooks hidden (s.runTask request).2 (s'.runTask request).2 := by
  obtain ⟨hpaired, hcreated⟩ := Task.paired_create h.cache request
  let Rel (x x' : Task P A V E × Cache P A V E) : Prop :=
    Task.Paired (fun topic => topic.heard s.cache) (fun topic => topic.heard s'.cache) x x' ∧
      Reunites (fun topic => topic.heard s.cache) (fun topic => topic.heard s'.cache) s.cache
        s'.cache x.2 x'.2
  have hstart : Rel (Task.create s.cache request) (Task.create s'.cache request) :=
    ⟨hpaired, fun topic _ _ p p' hp => hcreated.env.outputs.meets topic p p' hp⟩
  have hpolls : ∀ x x', Rel x x' → (x'.1.poll x'.2).1 = (x.1.poll x.2).1 ∧
      Rel (x.1.poll x.2).2 (x'.1.poll x'.2).2 := by
    rintro ⟨task, c⟩ ⟨task', c'⟩ ⟨hpair, hreunites⟩
    obtain ⟨hanswer, hafter, hrejoins⟩ := hpair.poll
    exact ⟨hanswer, hafter, hreunites.trans hrejoins⟩
  obtain ⟨hanswers, hlast, hreunites⟩ :=
    drain_alike hpolls ((Task.create s.cache request).1.patience (Task.create s.cache request).2)
      hstart
  have hpatience := hpaired.task.patience hcreated
  unfold Session.runTask
  dsimp only
  rw [hpatience]
  refine ⟨hanswers, ?_⟩
  have hdropped := hlast.task.drop hlast.cache
  refine h.carries hdropped.forget fun id task hid hget topic hlistens p p' hmeets => ?_
  have hheard : 0 < weigh topic.listening (fun _ => true) s.tasks ∧
      0 < weigh topic.listening (fun _ => true) s'.tasks := h.weigh_pos rfl hid hget hlistens
  rw [← hcounted topic, ← hcounted' topic] at hheard
  exact hdropped.env.outputs.meets topic p p' (hreunites topic hheard.1 hheard.2 p p' hmeets)

end Overlooks

/-! ## Steps -/

/-- A report, but for whether anybody heard what was published. -/
def Report.muted (r : Report P A V E) : Report P A V E := { r with events := audible r.events }

variable [DecidableEq P] [DecidableEq A] [DecidableEq V] {hidden : String → Bool}
  {capacity : Nat} {s s' : Session P A V E}

/-- The first session has subscribers that the second lacks, and all is in order with the channels
of both. -/
structure Alongside (hidden : String → Bool) (capacity : Nat) (s s' : Session P A V E) : Prop where
  overlooks : Overlooks hidden s s'
  aware : ∀ topic, s.Aware topic capacity
  aware' : ∀ topic, s'.Aware topic capacity

namespace Alongside

variable {id : String}

omit [DecidableEq V] in
/-- In both sessions all that listens is a task. -/
theorem counted (h : Alongside hidden capacity s s') : s.Counted ∧ s'.Counted :=
  ⟨fun topic => (h.aware topic).subscribed, fun topic => (h.aware' topic).subscribed⟩

omit [DecidableEq V] in
/-- Both traces may be emptied, and the channels stay in order. -/
theorem fresh (h : Alongside hidden capacity s s') : Alongside hidden capacity s.fresh s'.fresh :=
  ⟨h.overlooks.fresh, fun topic => (h.aware topic).fresh, fun topic => (h.aware' topic).fresh⟩

/-- A poll of a task that is not hidden answers the same, and leaves the channels in order. -/
theorem pollTask (h : Alongside hidden capacity s s') (hvisible : hidden id = false) :
    (s'.pollTask id).1 = (s.pollTask id).1 ∧
      Alongside hidden capacity (s.pollTask id).2 (s'.pollTask id).2 := by
  obtain ⟨hanswer, hafter⟩ := h.overlooks.pollTask h.counted.1 h.counted.2 hvisible
  exact ⟨hanswer, hafter, fun topic => (h.aware topic).polls id,
    fun topic => (h.aware' topic).polls id⟩

/-- Steps that have nothing to do with the hidden subscribers do and answer the same. -/
theorem perform {hidden : Option String → Bool} (h : Alongside (hidden ∘ some) capacity s s')
    {st : Step P A V} (hvisible : st.isOf hidden = false)
    (hsingle : st.mixes (hidden ∘ some) = false) :
    (s'.perform st).1 = (s.perform st).1 ∧
      Overlooks (hidden ∘ some) (s.perform st).2 (s'.perform st).2 := by
  have hover := h.overlooks
  cases st with
  | begin id request => exact ⟨rfl, hover.beginTask hvisible request⟩
  | run request =>
    obtain ⟨hanswers, hafter⟩ := hover.runTask h.counted.1 h.counted.2 request
    exact ⟨congrArg Response.answers hanswers, hafter⟩
  | poll id =>
    obtain ⟨hanswer, hafter⟩ := h.pollTask hvisible
    exact ⟨congrArg Response.answer hanswer, hafter.overlooks⟩
  | drain id =>
    have hpatience := hover.patience (List.forall_mem_singleton.mpr hvisible)
    obtain ⟨hanswers, hafter⟩ :=
      drain_alike (fun _ _ h => h.pollTask hvisible) (s.patience [id]) h
    unfold Session.perform drainTask
    dsimp only
    rw [hpatience]
    exact ⟨congrArg Response.answers hanswers, hafter.overlooks⟩
  | join ids =>
    have hids : ∀ id ∈ ids, (hidden ∘ some) id = false := by
      simpa [Step.mixes] using hsingle
    have hpatience := hover.patience hids
    have hpolls : ∀ id ∈ ids, ∀ s s' : Session P A V E, Alongside (hidden ∘ some) capacity s s' →
        (s'.pollTask id).1 = (s.pollTask id).1 ∧
          Alongside (hidden ∘ some) capacity (s.pollTask id).2 (s'.pollTask id).2 :=
      fun id hid _ _ h => h.pollTask (hids id hid)
    obtain ⟨hanswers, hafter⟩ := join_alike hpolls (s.patience ids) h
    unfold Session.perform
    dsimp only
    rw [hpatience]
    exact ⟨congrArg Response.joined hanswers, hafter.overlooks⟩
  | drop id =>
    exact ⟨congrArg Response.flag (hover.contains hvisible), (hover.dropTask hvisible).1⟩
  | openGate gate =>
    exact ⟨rfl, hover.tends_alike (f := fun env => { env with gates := env.gates.opening gate })
      (fun _ _ => rfl) fun _ => rfl⟩
  | closeGate gate =>
    exact ⟨rfl, hover.tends_alike (f := fun env => { env with gates := env.gates.closing gate })
      (fun _ _ => rfl) fun _ => rfl⟩
  | advance d =>
    exact ⟨rfl, hover.tends_alike (f := fun env => env.advance d) (fun _ _ => rfl) fun _ => rfl⟩
  | setTime now =>
    exact ⟨rfl, hover.tends_alike (f := fun env => { env with clock := env.clock.set now })
      (fun _ _ => rfl) fun _ => rfl⟩
  | clear =>
    exact ⟨rfl, hover.tends ((Outputs.noting_meeting _).quiet.clearStore hover.cache.gather.env)⟩
  | put key entry =>
    have hwritten := (Outputs.noting_meeting _).quiet.writeStore key entry hover.cache.gather.env
    exact ⟨rfl, hover.tends hwritten⟩
  | ask query =>
    have hstore : s'.cache.env.store = s.cache.env.store := by
      obtain ⟨⟨v, henv, -⟩, -⟩ := hover.cache
      rw [henv]
      rfl
    refine ⟨?_, hover.tends_alike (f := fun env => { env with store := (env.store.ask query).2 })
      (fun _ _ => rfl) fun _ => rfl⟩
    show Response.finding (s'.cache.env.store.ask query).1 = _
    rw [hstore]
    rfl
  | overview =>
    refine ⟨?_, hover⟩
    show Response.overview s'.summary = Response.overview s.summary
    obtain ⟨⟨v, henv, -⟩, hflights⟩ := hover.cache
    unfold summary Cache.inspect
    rw [henv, hflights]
    rfl
  | close => exact ⟨rfl, hover.close⟩

/-- What is reported is the same in both sessions. -/
theorem step {hidden : Option String → Bool}
    (h : Alongside (hidden ∘ some) capacity s.fresh s'.fresh) {st : Step P A V}
    (hvisible : st.isOf hidden = false) (hsingle : st.mixes (hidden ∘ some) = false) :
    (s'.step st).1.muted = (s.step st).1.muted ∧
      Alongside (hidden ∘ some) capacity (s.step st).2 (s'.step st).2 := by
  have hclosed : s'.closed = s.closed := h.overlooks.closed
  have hdone : (s'.step st).1.response = (s.step st).1.response ∧
      Overlooks (hidden ∘ some) (s.step st).2 (s'.step st).2 := by
    rw [response_step, response_step, step_snd, step_snd, hclosed]
    split
    · exact ⟨rfl, h.overlooks⟩
    · exact h.perform hvisible hsingle
  obtain ⟨hresponse, hafter⟩ := hdone
  refine ⟨?_, hafter, fun topic => (h.aware topic).steps st, fun topic => (h.aware' topic).steps st⟩
  have hreport : ∀ s : Session P A V E, (s.step st).1.muted =
      { response := (s.step st).1.response
        calls := (s.step st).2.cache.env.called.length
        cancelled := (s.step st).2.cache.env.cancelled
        ongoing := if (s.step st).2.closed then none else some (s.step st).2.cache.ongoing
        events := audible (s.step st).2.cache.env.trace } := fun _ => rfl
  have hunheard : audible (s'.step st).2.cache.env.trace = audible (s.step st).2.cache.env.trace :=
    hafter.cache.env.outputs.audible
  obtain ⟨⟨v, henv, -⟩, hflights⟩ := hafter.cache
  have hcalled : (s'.step st).2.cache.env.called = (s.step st).2.cache.env.called := by
    rw [henv]
    rfl
  have hcancelled : (s'.step st).2.cache.env.cancelled = (s.step st).2.cache.env.cancelled := by
    rw [henv]
    rfl
  rw [hreport, hreport, hresponse, hunheard, hcalled, hcancelled, hafter.closed, Cache.ongoing,
    hflights, Cache.ongoing]

/-- A step of the hidden subscribers is not missed in the second session. -/
theorem aside {hidden : Option String → Bool}
    (h : Alongside (hidden ∘ some) capacity s.fresh s'.fresh) {st : Step P A V}
    (hof : st.isOf hidden = true)
    (hsubscribes : ∀ id request, st = .begin id request → request.Subscribes) :
    (∀ event ∈ (s.step st).1.events, event.isLag = true) ∧
      Alongside (hidden ∘ some) capacity (s.step st).2.fresh s'.fresh := by
  have hscreened : s.Screened (hidden ∘ some) := h.overlooks.screened
  have haside := hscreened.step hof hsubscribes
  refine ⟨?_, h.overlooks.aside haside, fun topic => ((h.aware topic).steps st).fresh, h.aware'⟩
  obtain ⟨⟨v, henv, -, lags, htrace, hlags⟩, -⟩ := haside.cache
  have hevents : (s.step st).1.events = lags := by
    show (s.step st).2.cache.env.trace = lags
    rw [henv]
    exact htrace
  rwa [hevents]

end Alongside

end Session

end ReadThrough
