import ReadThrough.Proofs.Session.Contents
import ReadThrough.Proofs.Session.SideBySide
import ReadThrough.Proofs.Session.Unfolding
import ReadThrough.Proofs.Session.Unread
import ReadThrough.Script
/-!
# Proofs: a cleared store

To clear the store disturbs nothing that is under way. Two sessions whose stores are of one kind do
the same in every step (`SameButStore`), unless the step reads the store; then they are parted for
good, but what was told before the read is the same (`ReadApart`). So two runs from such sessions
have the same overture (`SameButStore.run`), and what is told in it is told at the same place
(`ToldUnread`). On the other hand a cleared store has nothing but what is written afterwards: a key
is missed until it is written, and what an execution has stored is supplied until something happens
to the key.
-/

namespace ReadThrough

variable {P A V E : Type} [DecidableEq P] [DecidableEq A]

namespace Session

open Cache (InStep)
open Environment (AlikeButStore)

/-! ## Sessions with stores of one kind -/

/-- Two sessions have the same tasks, the same executions and stores of one kind. -/
structure SameButStore (s s' : Session P A V E) : Prop where
  cache : InStep AlikeButStore s.cache s'.cache
  tasks : s'.tasks = s.tasks
  closed : s'.closed = s.closed
  sound : s.Sound

/-- The stores of two sessions were read, and until then the same was told. -/
structure ReadApart (s s' : Session P A V E) : Prop where
  parted : Parted s.cache s'.cache
  left : s.Sound
  right : s'.Sound

/-- Two answers are the same and leave sessions that are the same but for their stores, unless these
were read. -/
def Accords {α : Type} (answered answered' : α × Session P A V E) : Prop :=
  ReadApart answered.2 answered'.2 ∨ Agree SameButStore answered answered'

variable {s s' s₁ : Session P A V E}

/-- Moves only add to what was told. -/
theorem Goes.grows (h : Goes s s') : s.cache.env.trace <+: s'.cache.env.trace := h.moves.grows

/-- Sessions that are read apart stay so when the first goes on. -/
theorem ReadApart.goes_left (h : ReadApart s s') (hgoes : Goes s s₁) : ReadApart s₁ s' :=
  ⟨h.parted.grow hgoes.grows List.prefix_rfl, hgoes.sound, h.right⟩

/-- Sessions that are read apart stay so when the second goes on. -/
theorem ReadApart.goes_right (h : ReadApart s s') (hgoes : Goes s' s₁) : ReadApart s s₁ :=
  ⟨h.parted.grow List.prefix_rfl hgoes.grows, h.left, hgoes.sound⟩

namespace SameButStore

omit [DecidableEq P] [DecidableEq A] in
/-- A session that is the same as a sound one but for the store is sound. -/
theorem sound' (h : SameButStore s s') : s'.Sound := fun _ _ hget => h.sound (h.tasks ▸ hget)

omit [DecidableEq P] [DecidableEq A] in
/-- The caches of both sessions may go on in step. -/
theorem moves (h : SameButStore s s') {c c' : Cache P A V E} (hcache : InStep AlikeButStore c c') :
    SameButStore { s with cache := c } { s' with cache := c' } :=
  ⟨hcache, h.tasks, h.closed, h.sound⟩

omit [DecidableEq P] [DecidableEq A] in
/-- Something happens to the environments. -/
theorem tends (h : SameButStore s s') {env env' : Environment P A V E}
    (henv : AlikeButStore env env') :
    SameButStore (s.withEnv env) (s'.withEnv env') :=
  h.moves ⟨henv, h.cache.flights⟩

/-- The same task may be dropped from both sessions. -/
theorem dropTask (h : SameButStore s s') (id : String) :
    SameButStore (s.dropTask id) (s'.dropTask id) := by
  have hsound : (s.dropTask id).Sound := (travels_dropTask h.sound.fit id).sessionActs.goes.sound
  revert hsound
  unfold Session.dropTask
  rw [h.tasks]
  cases s.tasks.get? id with
  | none => exact fun _ => h
  | some task =>
    exact fun hsound => ⟨task.tuned_drop AlikeButStore.tuned h.cache, rfl, h.closed, hsound⟩

/-- The same tasks may be dropped from both sessions. -/
theorem dropTasks (h : SameButStore s s') (ids : List String) :
    SameButStore (ids.foldl (fun s id => s.dropTask id) s)
      (ids.foldl (fun s id => s.dropTask id) s') := by
  induction ids generalizing s s' with
  | nil => exact h
  | cons first rest ih => exact ih (h.dropTask first)

/-- The same request may be begun in both sessions. -/
theorem beginTask (h : SameButStore s s') (id : String) (request : Request P A V) :
    SameButStore (s.beginTask id request) (s'.beginTask id request) := by
  have hsound : (s.beginTask id request).Sound :=
    (travels_beginTask h.sound.fit id fun _ _ _ => trivial).sessionActs.goes.sound
  revert hsound
  obtain ⟨task, c, c', hcreate, hcreate', hcaches⟩ :=
    (Task.tuned_create AlikeButStore.tuned h.cache request).split
  have hdropped := (h.moves hcaches).dropTask id
  unfold Session.beginTask
  rw [hcreate, hcreate']
  exact fun hsound => ⟨hdropped.cache, congrArg (·.insert id task) hdropped.tasks, hdropped.closed,
    hsound⟩

/-- Both sessions may be shut. -/
theorem shut (h : SameButStore s s') : SameButStore s.shut s'.shut := by
  have hclosed := AlikeButStore.tuned.withErrors s.cache.env.errors.close
    (AlikeButStore.tuned.withUpdates s.cache.env.updates.close h.cache.env)
  refine ⟨⟨?_, ?_⟩, h.tasks, rfl, h.sound⟩
  · unfold Session.shut
    dsimp only
    rwa [AlikeButStore.tuned.updates h.cache.env, AlikeButStore.tuned.errors h.cache.env]
  · exact congrArg Flights.close h.cache.flights

/-- Both caches may be closed. -/
theorem close (h : SameButStore s s') : SameButStore s.close s'.close := by
  have hdependents : s'.dependents = s.dependents := by
    unfold dependents
    rw [h.tasks]
  unfold Session.close
  rw [hdependents]
  exact (h.dropTasks s.dependents).shut

/-- Both sessions are equally patient with the same tasks. -/
theorem patience (h : SameButStore s s') (ids : List String) :
    s'.patience ids = s.patience ids := by
  have hpatience : Task.patience s'.cache = Task.patience s.cache :=
    funext fun task => task.tuned_patience AlikeButStore.tuned h.cache
  unfold Session.patience
  rw [h.tasks, hpatience]

variable [DecidableEq V]

/-- A poll of a task answers the same in both sessions, unless the stores are read. -/
theorem pollTask (h : SameButStore s s') (id : String) :
    Accords (s.pollTask id) (s'.pollTask id) := by
  have hsound := (goes_pollTask h.sound id).sound
  have hsound' := (goes_pollTask h.sound' id).sound
  revert hsound hsound'
  unfold Session.pollTask
  rw [h.tasks]
  cases s.tasks.get? id with
  | none => exact fun _ _ => .inr ⟨rfl, h⟩
  | some task =>
    rcases task.untilRead_poll h.cache with hparted | hagree
    · exact fun hsound hsound' => .inl ⟨hparted, hsound, hsound'⟩
    · obtain ⟨answer, _, _, hpoll, hpoll', hrest⟩ := hagree.split
      obtain ⟨left, c, c', rfl, rfl, hcaches⟩ := hrest.split
      dsimp only
      rw [hpoll, hpoll']
      exact fun hsound _ => .inr ⟨rfl, hcaches, rfl, h.closed, hsound⟩

/-- A task drained in both sessions answers the same, unless the stores are read. -/
theorem drainTask (h : SameButStore s s') (id : String) :
    Accords (s.drainTask id) (s'.drainTask id) := by
  unfold Session.drainTask
  rw [h.patience]
  exact drain_unless (fun _ _ hsame => hsame.pollTask id)
    (fun _ _ hapart => hapart.goes_left (goes_pollTask hapart.left id))
    (fun _ _ hapart => hapart.goes_right (goes_pollTask hapart.right id)) _ h

/-- Tasks polled in turns answer the same in both sessions, unless the stores are read. -/
theorem joinTasks (h : SameButStore s s') (passes : Nat) (ids : List String) :
    Accords (join Session.pollTask passes ids s) (join Session.pollTask passes ids s') :=
  join_unless (fun id _ _ _ hsame => hsame.pollTask id)
    (fun id _ _ hapart => hapart.goes_left (goes_pollTask hapart.left id))
    (fun id _ _ hapart => hapart.goes_right (goes_pollTask hapart.right id)) passes h

/-- A task that is run at once answers the same in both sessions, unless the stores are read. -/
theorem runTask (h : SameButStore s s') (request : Request P A V) :
    Accords (s.runTask request) (s'.runTask request) := by
  obtain ⟨task, c, c', hcreate, hcreate', hcaches⟩ :=
    (Task.tuned_create AlikeButStore.tuned h.cache request).split
  have hsound : task.Sound := by
    have hcreated := (Task.moves_create s.cache request 0).2
    rwa [hcreate] at hcreated
  let R (x x' : Task P A V E × Cache P A V E) : Prop :=
    x.1.Sound ∧ x'.1 = x.1 ∧ InStep AlikeButStore x.2 x'.2
  let D (x x' : Task P A V E × Cache P A V E) : Prop :=
    x.1.Sound ∧ x'.1.Sound ∧ Parted x.2 x'.2
  let poll (x : Task P A V E × Cache P A V E) := x.1.poll x.2
  have hgrows : ∀ x : Task P A V E × Cache P A V E, x.1.Sound →
      x.2.env.trace <+: (poll x).2.2.env.trace ∧ (poll x).2.1.Sound := fun x hx =>
    Task.grows_poll hx x.2
  have hpolls : ∀ x x', R x x' → D (poll x).2 (poll x').2 ∨
      (poll x').1 = (poll x).1 ∧ R (poll x).2 (poll x').2 := by
    rintro ⟨task, c⟩ ⟨_, c'⟩ ⟨hsound, rfl, hcaches⟩
    rcases Task.untilRead_poll hcaches _ with hparted | hagree
    · exact .inl ⟨(hgrows _ hsound).2, (hgrows (_, c') hsound).2, hparted⟩
    · exact .inr ⟨hagree.1, (hgrows _ hsound).2, hagree.2⟩
  have hstart : R (task, c) (task, c') := ⟨hsound, rfl, hcaches⟩
  have hdrained := drain_unless hpolls
    (fun x x' ⟨hsound, hsound', hparted⟩ =>
      ⟨(hgrows x hsound).2, hsound', hparted.grow (hgrows x hsound).1 List.prefix_rfl⟩)
    (fun x x' ⟨hsound, hsound', hparted⟩ =>
      ⟨hsound, (hgrows x' hsound').2, hparted.grow List.prefix_rfl (hgrows x' hsound').1⟩)
    (task.patience c) hstart
  have hpatience := task.tuned_patience AlikeButStore.tuned hcaches
  unfold Session.runTask
  rw [hcreate, hcreate']
  dsimp only
  rw [hpatience]
  rcases hdrained with ⟨-, -, hparted⟩ | ⟨hanswers, -, htask, hlast⟩
  · refine .inl ⟨?_, h.sound, h.sound'⟩
    exact hparted.grow (Task.grows_drop _ _) (Task.grows_drop _ _)
  · refine .inr ⟨hanswers, h.moves ?_⟩
    rw [htask]
    exact Task.tuned_drop AlikeButStore.tuned hlast _

/-- A step does the same in both sessions, or reads the store. -/
theorem perform (h : SameButStore s s') (st : Step P A V) :
    ReadApart (s.perform st).2 (s'.perform st).2 ∨
      (st.inspects = false → (s'.perform st).1 = (s.perform st).1) ∧
        SameButStore (s.perform st).2 (s'.perform st).2 := by
  have hgates := AlikeButStore.tuned.gates h.cache.env
  cases st with
  | begin id request => exact .inr ⟨fun _ => rfl, h.beginTask id request⟩
  | run request =>
    exact (h.runTask request).imp id fun hagree =>
      ⟨fun _ => congrArg Response.answers hagree.1, hagree.2⟩
  | poll id =>
    exact (h.pollTask id).imp (fun hapart => hapart) fun hagree =>
      ⟨fun _ => congrArg Response.answer hagree.1, hagree.2⟩
  | drain id =>
    exact (h.drainTask id).imp (fun hapart => hapart) fun hagree =>
      ⟨fun _ => congrArg Response.answers hagree.1, hagree.2⟩
  | join ids =>
    have hjoined := h.joinTasks (s.patience ids) ids
    unfold Session.perform
    dsimp only
    rw [h.patience]
    exact hjoined.imp id fun hagree => ⟨fun _ => congrArg Response.joined hagree.1, hagree.2⟩
  | drop id =>
    refine .inr ⟨fun _ => ?_, h.dropTask id⟩
    show Response.flag _ = Response.flag _
    rw [h.tasks]
  | openGate gate =>
    have hopened := h.cache.env.withGates (s.cache.env.gates.opening gate)
    refine .inr ⟨fun _ => rfl, h.tends ?_⟩
    rwa [hgates]
  | closeGate gate =>
    have hclosed := h.cache.env.withGates (s.cache.env.gates.closing gate)
    refine .inr ⟨fun _ => rfl, h.tends ?_⟩
    rwa [hgates]
  | advance d => exact .inr ⟨fun _ => rfl, h.tends (AlikeButStore.tuned.advance d h.cache.env)⟩
  | setTime now => exact .inr ⟨fun _ => rfl, h.tends (h.cache.env.setTime now)⟩
  | clear => exact .inr ⟨fun _ => rfl, h.tends (AlikeButStore.tuned.clearStore h.cache.env)⟩
  | put key entry => exact .inr ⟨fun _ => rfl, h.tends (h.cache.env.writeStore key entry)⟩
  | ask query => exact .inr ⟨nofun, h.tends (h.cache.env.ask query)⟩
  | overview => exact .inr ⟨nofun, h⟩
  | close => exact .inr ⟨fun _ => rfl, h.close⟩

omit [DecidableEq P] [DecidableEq A] [DecidableEq V] in
/-- Both traces may be emptied. -/
theorem fresh (h : SameButStore s s') : SameButStore s.fresh s'.fresh :=
  ⟨⟨h.cache.env.fresh, h.cache.flights⟩, h.tasks, h.closed, h.sound⟩

omit [DecidableEq P] [DecidableEq A] [DecidableEq V] in
/-- They differ in the store alone, and in what was told. -/
theorem eq_of_fresh (h : SameButStore s.fresh s'.fresh) :
    ∃ store trace, s' = { s with cache.env.store := store, cache.env.trace := trace } := by
  obtain ⟨⟨⟨store, trace, henv, -⟩, hflights⟩, htasks, hclosed, -⟩ := h
  refine ⟨s'.cache.env.store, s'.cache.env.trace, ?_⟩
  rcases s with ⟨⟨env, flights⟩, tasks, closed⟩
  rcases s' with ⟨⟨⟨source, store', clock, gates, updates, errors, called, cancelled, asked,
    trace'⟩, flights'⟩, tasks', closed'⟩
  cases henv
  cases hflights
  cases htasks
  cases hclosed
  rfl

/-- A step does and answers the same in both sessions, unless it reads the stores. -/
theorem step (h : SameButStore s.fresh s'.fresh) (st : Step P A V) :
    ReadApart (s.step st).2 (s'.step st).2 ∨
      (st.inspects = false → (s'.step st).1.response = (s.step st).1.response) ∧
        SameButStore (s.step st).2 (s'.step st).2 := by
  have hclosed : s'.closed = s.closed := h.closed
  rw [response_step, response_step, step_snd, step_snd, hclosed]
  split
  · exact .inr ⟨fun _ => rfl, h⟩
  · exact h.perform st

end SameButStore

/-! ## What is reported until the store is read -/

/-- A report without the displaced entries, and without the answer to a step that looks at the state
of the session. -/
def Report.plain (st : Step P A V) (r : Report P A V E) : Report P A V E :=
  { r with
    response := if st.inspects then .nothing else r.response
    events := ReadThrough.plain r.events }

/-- What is reported until the store is read: of each step before the one that reads it, and what
was told in that step before it was read. -/
def overture : List (Step P A V) → List (Report P A V E) →
    List (Report P A V E) × List (Event P A V E)
  | st :: steps, r :: reports =>
    if r.events.any Event.reads then ([], unread r.events)
    else
      let (before, last) := overture steps reports
      (r.plain st :: before, last)
  | _, _ => ([], [])

section Overture

variable [DecidableEq V] {st : Step P A V}

/-- Steps that leave the sessions the same but for their stores have the same plain report. -/
theorem SameButStore.plain_step (h : SameButStore (s.step st).2 (s'.step st).2)
    (hresponse : st.inspects = false → (s'.step st).1.response = (s.step st).1.response) :
    (s'.step st).1.plain st = (s.step st).1.plain st := by
  have hreport : ∀ s : Session P A V E, (s.step st).1.plain st =
      { response := if st.inspects then .nothing else (s.step st).1.response
        calls := (s.step st).2.cache.env.called.length
        cancelled := (s.step st).2.cache.env.cancelled
        ongoing := if (s.step st).2.closed then none else some (s.step st).2.cache.ongoing
        events := ReadThrough.plain (s.step st).2.cache.env.trace } := fun _ => rfl
  have hcancelled : (s'.step st).2.cache.env.cancelled = (s.step st).2.cache.env.cancelled := by
    obtain ⟨store, trace, henv, -⟩ := h.cache.env
    rw [henv]
  have hsame : (if st.inspects then Response.nothing else (s'.step st).1.response) =
      if st.inspects then .nothing else (s.step st).1.response := by
    split
    · rfl
    · exact hresponse (Bool.eq_false_of_not_eq_true ‹_›)
  rw [hreport, hreport, hsame, AlikeButStore.tuned.called h.cache.env, hcancelled, h.closed,
    h.cache.env.plain_eq, Cache.ongoing, h.cache.flights, Cache.ongoing]

/-- Until the store is read, the same is reported of two sessions that are the same but for their
stores. If it is not read
at all, they stay so. -/
theorem SameButStore.run (h : SameButStore s.fresh s'.fresh) (steps : List (Step P A V)) :
    overture steps (s'.run steps).1 = overture steps (s.run steps).1 ∧
      ((eventsOf (s.run steps).1).any Event.reads = false →
        SameButStore (s.run steps).2.fresh (s'.run steps).2.fresh) := by
  induction steps generalizing s s' with
  | nil => exact ⟨rfl, fun _ => h⟩
  | cons st rest ih =>
    rw [eventsOf_run, List.any_append]
    have hrun : ∀ s : Session P A V E, overture (st :: rest) (s.run (st :: rest)).1 =
        if (s.step st).1.events.any Event.reads then ([], unread (s.step st).1.events)
        else ((s.step st).1.plain st :: (overture rest ((s.step st).2.run rest).1).1,
          (overture rest ((s.step st).2.run rest).1).2) := fun _ => rfl
    rw [hrun, hrun]
    rcases h.step st with ⟨⟨told, hopened, hopened'⟩, -, -⟩ | ⟨hresponse, hsame⟩
    · have hevents : ∀ s : Session P A V E,
          (s.step st).1.events = (s.step st).2.cache.env.trace := fun _ => rfl
      rw [hevents, hevents, hopened.read, hopened'.read, hopened.unread, hopened'.unread]
      exact ⟨rfl, fun hunread => by cases hunread⟩
    · obtain ⟨hrest, hlast⟩ := ih hsame.fresh
      have hplain : ReadThrough.plain (s'.step st).1.events =
          ReadThrough.plain (s.step st).1.events := hsame.cache.env.plain_eq
      have hreads : (s'.step st).1.events.any Event.reads =
          (s.step st).1.events.any Event.reads := by
        rw [← any_reads_plain, hplain, any_reads_plain]
      have hunread : unread (s'.step st).1.events = unread (s.step st).1.events := by
        unfold unread
        rw [hplain]
      rw [hreads, hunread, hrest, hsame.plain_step hresponse]
      refine ⟨rfl, fun hnone => hlast ?_⟩
      exact (Bool.or_eq_false_iff.mp hnone).2

/-! ### Where it is told -/

/-- An event is told in the given step of a run, what was told before it is known, the displaced
entries aside, and nobody has read the store until then. -/
def ToldUnread (reports : List (Report P A V E)) (step : Nat) (told : List (Event P A V E))
    (event : Event P A V E) : Prop :=
  ∃ before r after begun rest, reports = before ++ r :: after ∧ before.length = step ∧
    r.events = begun ++ event :: rest ∧ ReadThrough.plain (eventsOf before ++ begun) = told ∧
    told.any Event.reads = false

omit [DecidableEq P] [DecidableEq A] [DecidableEq V] in
/-- The first of two reports tell the same until the store is read, and the rest do if it is not
read in the first. -/
theorem unread_of_overture {steps : List (Step P A V)} {r r' : Report P A V E}
    {reports reports' : List (Report P A V E)}
    (h : overture (st :: steps) (r' :: reports') = overture (st :: steps) (r :: reports)) :
    unread r'.events = unread r.events ∧ (r.events.any Event.reads = false →
      ReadThrough.plain r'.events = ReadThrough.plain r.events ∧
        overture steps reports' = overture steps reports) := by
  unfold overture at h
  cases hread : r.events.any Event.reads <;> cases hread' : r'.events.any Event.reads <;>
    simp only [hread, hread', if_true, Bool.false_eq_true, if_false, Prod.mk.injEq] at h
  · obtain ⟨hbefore, hlast⟩ := h
    obtain ⟨hplain, hrest⟩ := List.cons.inj hbefore
    have hevents : ReadThrough.plain r'.events = ReadThrough.plain r.events :=
      congrArg Report.events hplain
    refine ⟨?_, fun _ => ⟨hevents, Prod.ext hrest hlast⟩⟩
    unfold unread
    rw [hevents]
  · exact absurd h.1 nofun
  · exact absurd h.1 nofun
  · exact ⟨h.2, nofun⟩

omit [DecidableEq P] [DecidableEq A] [DecidableEq V] in
/-- What is told before the store is read is told in both of two runs whose overtures are one. -/
theorem ToldUnread.of_overture {event : Event P A V E} (hevicts : event.evicts = false)
    (hreads : event.reads = false) {steps : List (Step P A V)}
    {reports reports' : List (Report P A V E)} (hlength : reports.length = steps.length)
    (hlength' : reports'.length = steps.length)
    (hsame : overture steps reports' = overture steps reports) {step : Nat}
    {told : List (Event P A V E)} (h : ToldUnread reports step told event) :
    ToldUnread reports' step told event := by
  have hsplit : ∀ (first : Report P A V E) before begun,
      ReadThrough.plain (eventsOf (first :: before) ++ begun) =
        ReadThrough.plain first.events ++ ReadThrough.plain (eventsOf before ++ begun) := by
    intro first before begun
    rw [← plain_append, ← List.append_assoc]
    rfl
  obtain ⟨before, r, after, begun, rest, rfl, rfl, hr, rfl, hunread⟩ := h
  -- Along the reports before the one that tells of the event.
  induction before generalizing steps reports' with
  | nil =>
    obtain ⟨st, steps, rfl⟩ := List.exists_cons_of_length_eq_add_one hlength.symm
    obtain ⟨r', reports', rfl⟩ := List.exists_cons_of_length_eq_add_one hlength'
    have hfirst := (unread_of_overture hsame).1
    rw [hr] at hfirst
    have hbegun := unread_append_cons hevicts hreads hunread rest
    obtain ⟨begun', rest', hr', hplain⟩ := exists_of_unread (hfirst.trans hbegun)
    exact ⟨[], r', reports', begun', rest', rfl, rfl, hr', hplain, hunread⟩
  | cons first before ih =>
    obtain ⟨st, steps, rfl⟩ := List.exists_cons_of_length_eq_add_one hlength.symm
    obtain ⟨first', reports', rfl⟩ := List.exists_cons_of_length_eq_add_one hlength'
    have hparts := hunread
    rw [hsplit, List.any_append, any_reads_plain, Bool.or_eq_false_iff] at hparts
    obtain ⟨hplain, hrest⟩ := (unread_of_overture hsame).2 hparts.1
    obtain ⟨before', r', after', begun', rest', hreports', hstep, hr', htold, -⟩ :=
      ih (Nat.succ.inj hlength') (Nat.succ.inj hlength) hrest hparts.2
    refine ⟨first' :: before', r', after', begun', rest', ?_, ?_, hr', ?_, hunread⟩
    · rw [hreports', List.cons_append]
    · rw [List.length_cons, hstep, List.length_cons]
    · rw [hsplit, hsplit, hplain, htold]

end Overture

end Session

/-! ## Requests to the store alone -/

section Only

variable {key : Key P A} {entry : Entry V}

/-- To a reader who accepts every age, whatever is stored is usable. -/
theorem Environment.lookup_of_find {env : Environment P A V E}
    (hfind : env.store.find key = some entry) :
    (env.lookup key none).1 = some (Delivery.cached entry) := by
  have hget := env.store.get_fst key
  unfold lookup readStore
  rcases hread : env.store.get key with ⟨found, store⟩
  obtain rfl : found = some entry := by rw [← hfind, ← hget, hread]
  rfl

/-- A request to the store alone that accepts every age yields what is stored. -/
theorem Call.poll_only {c : Cache P A V E} (hreadable : c.env.store.readable c.env.gates = true)
    (hfind : c.env.store.find key = some entry) (share : Bool) :
    let call : Call P A V E := Call.create key (.policy .only) ⟨none, share⟩
    ∃ c', call.poll c =
      (.item (.ok (Delivery.cached entry)), { call with stage := .spent }, c') := by
  intro call
  have hlook : c.lookup key none =
      some (some (Delivery.cached entry), { c with env := (c.env.lookup key none).2 }) := by
    unfold Cache.lookup
    rw [hreadable, if_pos rfl, ← Environment.lookup_of_find hfind]
  refine ⟨{ c with env := (c.env.lookup key none).2 }, ?_⟩
  show call.look c = _
  unfold look
  rw [show c.lookup call.key call.terms.maxAge = _ from hlook]
  rfl

variable [DecidableEq V]

/-- It is the only thing that such a request yields. -/
theorem Session.run_only {s : Session P A V E} (hopen : s.closed = false)
    (hreadable : s.cache.env.store.readable s.cache.env.gates = true)
    (hfind : s.cache.env.store.find key = some entry) (share : Bool) :
    (s.step (.run (.stream true key (.policy .only) ⟨none, share⟩))).1.response =
      .answers [.answer (.item (.delivery (Delivery.cached entry))), .answer .done] := by
  obtain ⟨c, hpoll⟩ := Call.poll_only (c := s.fresh.cache) hreadable hfind share
  rw [(s.step_of_taken _ (.inl hopen)).1]
  unfold perform runTask Task.create Task.patience
  dsimp only
  generalize (Call.create key (.policy .only) ⟨none, share⟩ : Call P A V E) = call at hpoll ⊢
  have hfirst : (Task.call true call).poll s.fresh.cache =
      (.answer (.item (.delivery (Delivery.cached entry))),
        .call true { call with stage := .spent }, c) := by
    unfold Task.poll
    dsimp only
    rw [hpoll]
    rfl
  have hthen : (Task.call true { call with stage := .spent }).poll c =
      (.answer .done, .ended, c) := rfl
  simp only [drain, hfirst, hthen, TaskAnswer.mayContinue, if_true, Bool.false_eq_true, if_false]

/-- Requests to the store alone that accept every age are answered with the value as it was stored
at the given time: one that is polled for the first time, and while there is a cache one that is
made only now. -/
def Session.Supplies (s : Session P A V E) (key : Key P A) (value : V) (stamp : Stamp) : Prop :=
  ∀ share, ((Call.create key (.policy .only) ⟨none, share⟩ : Call P A V E).poll s.cache).1 =
      .item (.ok ⟨value, true, some stamp⟩) ∧
    (s.closed = false →
      (s.step (.run (.stream true key (.policy .only) ⟨none, share⟩))).1.response =
        .answers [.answer (.item (.delivery ⟨value, true, some stamp⟩)), .answer .done])

/-- A value that is stored and can be read is supplied. -/
theorem Session.supplies_of_find {s : Session P A V E} {value : V} {stamp : Stamp}
    (hreadable : s.cache.env.store.readable s.cache.env.gates = true)
    (hfind : s.cache.env.store.find key = some (Entry.stamped value stamp)) :
    s.Supplies key value stamp := by
  refine fun share => ⟨?_, fun hopen => run_only hopen hreadable hfind share⟩
  obtain ⟨c, hpoll⟩ := Call.poll_only hreadable hfind share
  rw [hpoll]
  rfl

end Only

/-! ## The cleared store -/

section Cleared

/-- Every lookup misses a key until the key is written. -/
def MissesUntilWritten (T : List (Event P A V E)) : Prop :=
  ∀ before key found after, T = before ++ .storeRead key found :: after →
    (∀ entry, .storeWritten key entry ∉ before) →
      found = none ∧ ∃ rest, after = .miss key :: rest

namespace Sincere

variable {seed : Store (Key P A) V} {T : List (Event P A V E)} {env : Environment P A V E}

/-- What nobody has stored at first is missed until it is written. -/
theorem missesUntilWritten (h : Sincere seed T env) (hseed : seed.find = fun _ => none) :
    MissesUntilWritten T := by
  intro before key found after hT hunwritten
  have hfound : found = stocks seed.find before key := h.faithful before _ after hT
  cases found with
  | none => exact ⟨rfl, h.missed before key after hT⟩
  | some entry =>
    cases latest_of_stocks hfound.symm with
    | written => exact absurd (List.mem_append_right _ (List.mem_cons_self ..)) (hunwritten entry)
    | seeded hentry =>
      rw [hseed] at hentry
      cases hentry

/-- An execution that ended with a result has stored it, and it stays until something happens to the
key. -/
theorem stocks_settled (h : Sincere seed T env) {told later : List (Event P A V E)}
    {execution : Option Nat} {number : Nat} {key : Key P A} {delivery : Delivery V}
    (hT : T = told ++ .settled execution number key (.value (.ok delivery)) :: later) :
    ∃ value stamp, delivery = Delivery.loaded value stamp ∧
      ∀ begun rest, later = begun ++ rest → (∀ event ∈ begun, event.spares key) →
        stocks seed.find
            (told ++ .settled execution number key (.value (.ok delivery)) :: begun) key =
          some (Entry.stamped value stamp) := by
  obtain ⟨value, stamp, hdelivery, hstored⟩ := h.faithful told _ later hT
  refine ⟨value, stamp, hdelivery, fun begun rest hlater hspares => ?_⟩
  rw [stocks_append, ← hstored]
  exact stocks_of_spares hspares (stocks seed.find told)

end Sincere

namespace Session

variable [DecidableEq V]

/-- A run reports every step. -/
theorem length_run (s : Session P A V E) (steps : List (Step P A V)) :
    (s.run steps).1.length = steps.length := by
  induction steps generalizing s with
  | nil => rfl
  | cons st rest ih => exact congrArg (· + 1) (ih (s.step st).2)

/-- What a step tells is told in it. -/
theorem toldUnread_run {s : Session P A V E} {before after : List (Step P A V)} {st : Step P A V}
    {event : Event P A V E} {begun rest told : List (Event P A V E)}
    (hevents : ((s.run before).2.step st).1.events = begun ++ event :: rest)
    (htold : ReadThrough.plain (eventsOf (s.run before).1 ++ begun) = told)
    (hunread : told.any Event.reads = false) :
    ToldUnread (s.run (before ++ st :: after)).1 before.length told event :=
  ⟨_, _, _, begun, rest, (reports_append s before (st :: after)).1, length_run s before, hevents,
    htold, hunread⟩

/-- To clear the store disturbs nothing that is under way. In the session that a run leads to, it
changes the store and nothing else. However the run goes on, with the store cleared or as it was,
the same is reported until the store is read: whatever happens until then, the end of an execution,
its write and its publication among it, does so in the same step and after the same other events,
except that other entries may be displaced; and if the store is not read at all, the sessions differ
in what is stored only. From then on every lookup misses a key until it is written. And once an
execution has ended with a result, every read of its key finds this result as it was stored, and
requests to the store alone are supplied with it, until the key is written, displaced or cleared. -/
theorem clear_disturbs_nothing (setup : Setup (Store (Key P A) V)) (source : Source P V E)
    (before : List (Step P A V)) :
    let s := ((create (Cache.create setup source)).run before).2
    let cleared := (s.step .clear).2
    s.closed = false →
      cleared =
          { s with
            cache.env.store := s.cache.env.store.clear
            cache.env.trace := [.cleared] } ∧
        ∀ rest : List (Step P A V),
          let run := s.run rest
          let run' := cleared.run rest
          overture rest run'.1 = overture rest run.1 ∧
          (∀ step told event, event.evicts = false → event.reads = false →
            (ToldUnread run'.1 step told event ↔ ToldUnread run.1 step told event)) ∧
          ((eventsOf run.1).any Event.reads = false → ∃ store trace,
            run'.2 = { run.2 with cache.env.store := store, cache.env.trace := trace }) ∧
          MissesUntilWritten (eventsOf run'.1) ∧
          ∀ told execution number key delivery later,
            eventsOf run'.1 =
                told ++ .settled execution number key (.value (.ok delivery)) :: later →
              ∃ value stamp, delivery = Delivery.loaded value stamp ∧
                (∀ begun found more, later = begun ++ .storeRead key found :: more →
                  (∀ event ∈ begun, event.spares key) →
                    found = some (Entry.stamped value stamp)) ∧
                ((∀ event ∈ later, event.spares key) →
                  run'.2.cache.env.store.readable run'.2.cache.env.gates = true →
                    run'.2.Supplies key value stamp) := by
  intro s cleared hopen
  have hcleared : cleared =
      { s with
        cache.env.store := s.cache.env.store.clear
        cache.env.trace := [.cleared] } := (s.step_of_taken .clear (.inl hopen)).2
  refine ⟨hcleared, fun rest => ?_⟩
  intro run run'
  have hsound : s.Sound := sound_run (fun id task hget => by cases hget) before
  have hsame : SameButStore s.fresh cleared.fresh := by
    rw [hcleared]
    exact ⟨⟨⟨_, [], rfl, Store.sameKind_clear _, rfl⟩, rfl⟩, rfl, rfl, hsound⟩
  obtain ⟨hsame, hlast⟩ := hsame.run rest
  -- The store is empty when the run begins, and what the events of the run tell about it is so.
  have hsincere : Sincere cleared.cache.env.store (eventsOf run'.1) run'.2.cache.env := by
    refine Sincere.run (T := []) (sound_step hsound .clear) ⟨rfl, ?_, ?_, ?_⟩ rest
    · show cleared.cache.env.store.Consistent
      rw [hcleared]
      exact Store.consistent_clear _
    · exact faithful_of_forall (List.forall_mem_nil _)
    · exact missed_of_forall (List.forall_mem_nil _)
  refine ⟨hsame, fun step told event hevicts hreads => ⟨?_, ?_⟩, fun hunread => ?_, ?_, ?_⟩
  · exact ToldUnread.of_overture hevicts hreads (length_run _ _) (length_run _ _) hsame.symm
  · exact ToldUnread.of_overture hevicts hreads (length_run _ _) (length_run _ _) hsame
  · exact (hlast hunread).eq_of_fresh
  · refine hsincere.missesUntilWritten ?_
    rw [hcleared]
    exact Store.find_clear _
  · intro told execution number key delivery later hT
    obtain ⟨value, stamp, hdelivery, hstocks⟩ := hsincere.stocks_settled hT
    refine ⟨value, stamp, hdelivery, fun begun found more hlater hspares => ?_, ?_⟩
    · rw [← hstocks begun _ hlater hspares]
      refine hsincere.faithful _ (.storeRead key found) more ?_
      rw [hT, hlater, List.append_assoc, List.cons_append]
    · refine fun hspares hreadable => supplies_of_find hreadable ?_
      rw [hsincere.stocked, hT]
      exact hstocks later [] (List.append_nil _).symm hspares

/-- A full store, a load with two callers, one of a single caller, and a subscriber. -/
def suspended : Session Nat Unit Int64 Nat :=
  let source : Source Nat Int64 Nat :=
    scriptedSource [{}, {}, { wait := { gate := some "source" } }]
  let setup : Setup (Store (Key Nat Unit) Int64) :=
    { store := .bounded (Bounded.ofCapacity 2 (by decide)), clock := .counter 1000 1,
      broadcastCapacity := 4 }
  ((create (Cache.create setup source)).run
    [.run (.stream true (Key.ofParams 8) (.policy .never) {}),
      .run (.stream true (Key.ofParams 9) (.policy .never) {}), .begin "u" .updates,
      .begin "a" (.stream true (Key.ofParams 7) (.policy .never) {}),
      .begin "b" (.stream true (Key.ofParams 7) (.policy .never) {}),
      .begin "c" (.stream true (Key.ofParams 6) (.policy .never) { share := false }),
      .poll "a", .poll "b", .poll "c"]).2

/-- The loads end, and everybody hears of it. -/
def resuming : List (Step Nat Unit Int64) :=
  [.openGate "source", .poll "a", .poll "b", .poll "u", .poll "c"]

/-- The loads displace two entries, or none if the store was cleared. -/
theorem clear_disturbs_nothing_full :
    let cleared := (suspended.step .clear).2
    let key : Key Nat Unit := Key.ofParams 7
    let told : List (Event Nat Unit Int64 Nat) :=
      [.clockRead 1002, .storeWritten key (Entry.stamped 3 1002), .succeeded key 1002,
        .updatePublished 7 (Delivery.loaded 3 1002)]
    let settled := .settled (some 2) 3 key (.value (.ok (Delivery.loaded 3 1002)))
    suspended.closed = false ∧
      (eventsOf (suspended.run resuming).1).countP Event.evicts = 2 ∧
      (eventsOf (cleared.run resuming).1).countP Event.evicts = 0 ∧
      ToldUnread (cleared.run resuming).1 1 told settled ∧
      (∃ store trace, (cleared.run resuming).2 =
        { (suspended.run resuming).2 with cache.env.store := store, cache.env.trace := trace }) ∧
      (cleared.run resuming).2.Supplies key 3 1002 := by
  intro cleared key told settled
  have hopen : suspended.closed = false := by decide +kernel
  have hunread : (eventsOf (suspended.run resuming).1).any Event.reads = false := by decide +kernel
  obtain ⟨-, hrest⟩ := clear_disturbs_nothing _ _ _ hopen
  have htold : ToldUnread (suspended.run resuming).1 1 told settled := by
    have hquiet : eventsOf (suspended.run [.openGate "source"]).1 = [] := rfl
    have hevents : ((suspended.run [.openGate "source"]).2.step (.poll "a")).1.events =
        [.clockRead 1002, .storeWritten (Key.ofParams 7) (Entry.stamped 3 1002),
          .evicted (Key.ofParams 8) 2, .succeeded (Key.ofParams 7) 1002,
          .updatePublished 7 (Delivery.loaded 3 1002)] ++
          .settled (some 2) 3 (Key.ofParams 7) (.value (.ok (Delivery.loaded 3 1002))) ::
            ((suspended.run [.openGate "source"]).2.step (.poll "a")).1.events.drop 6 := rfl
    refine toldUnread_run hevents ?_ rfl
    rw [hquiet]
    rfl
  obtain ⟨-, htells, hlast, -, hserved⟩ := hrest resuming
  have hevents : eventsOf ((suspended.step .clear).2.run resuming).1 =
      told ++ settled :: (eventsOf ((suspended.step .clear).2.run resuming).1).drop 5 := rfl
  obtain ⟨value, stamp, hdelivery, -, hsupplies⟩ := hserved _ _ _ _ _ _ hevents
  cases hdelivery
  exact ⟨hopen, by decide +kernel, by decide +kernel, (htells 1 told settled rfl rfl).mpr htold,
    hlast hunread, hsupplies (by decide +kernel) (by decide +kernel)⟩

end Session

end Cleared

end ReadThrough
