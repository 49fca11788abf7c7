import ReadThrough.Proofs.Session.Conformance
import ReadThrough.Proofs.Session.Endings
import ReadThrough.Proofs.Session.Provenance
/-!
# Proofs: whatever is served has a source

A session can be run with a chronicle of what happens and of the items that its tasks yield, in
their order, with the requests that the tasks were begun for. The chronicle belongs to the very run,
and every item in it that a request for results of a key is answered with comes from where it may
come, by what has happened before.
-/

namespace ReadThrough

variable {P A V E : Type}

/-- What a chronicle tells, one thing after another. -/
inductive Chapter (P A V E : Type) where
  | happened (event : Event P A V E)
  /-- A task has yielded an item. It was begun for a request. -/
  | yielded (request : Option (Request P A V)) (item : Item P V E)

namespace Chapter

def event? : Chapter P A V E → Option (Event P A V E)
  | .happened event => some event
  | .yielded _ _ => none

def item? : Chapter P A V E → Option (Item P V E)
  | .happened _ => none
  | .yielded _ item => some item

end Chapter

/-- The items that a step answers with. -/
def Session.Response.items : Session.Response P A V E → List (Item P V E)
  | .answer given => given.item?.toList
  | .answers given => given.filterMap TaskAnswer.item?
  | .joined given => given.filterMap fun p => p.2.item?
  | .nothing | .flag _ | .finding _ | .overview _ | .invalid => []

/-- The items that reports tell of, in order. -/
def itemsOf (reports : List (Session.Report P A V E)) : List (Item P V E) :=
  reports.flatMap (·.response.items)

def eventsIn (log : List (Chapter P A V E)) : List (Event P A V E) := log.filterMap Chapter.event?

def itemsIn (log : List (Chapter P A V E)) : List (Item P V E) := log.filterMap Chapter.item?

/-- What has happened on the way from one cache to another. -/
def happening (c c' : Cache P A V E) : List (Chapter P A V E) :=
  (c'.env.trace.drop c.env.trace.length).map .happened

/-- What a poll of a task tells that leads from one cache to another. -/
def chapters (request : Option (Request P A V)) (c c' : Cache P A V E)
    (answer : TaskAnswer (Item P V E)) : List (Chapter P A V E) :=
  happening c c' ++ answer.item?.toList.map (.yielded request)

/-- The way from one cache to another is recorded, with some items. -/
def Records (log : List (Chapter P A V E)) (c : Cache P A V E) (items : List (Item P V E))
    (log' : List (Chapter P A V E)) (c' : Cache P A V E) : Prop :=
  ∃ part, log' = log ++ part ∧ itemsIn part = items ∧
    c'.env.trace = c.env.trace ++ eventsIn part

section Chapters

variable {c c' : Cache P A V E} {log log' : List (Chapter P A V E)} {events : List (Event P A V E)}

/-- The events of two parts of a chronicle are those of both, in order. -/
theorem eventsIn_append : eventsIn (log ++ log') = eventsIn log ++ eventsIn log' :=
  List.filterMap_append

/-- The items of two parts of a chronicle are those of both, in order. -/
theorem itemsIn_append : itemsIn (log ++ log') = itemsIn log ++ itemsIn log' :=
  List.filterMap_append

/-- Of what has only happened, the events are told. -/
theorem eventsIn_happened (events : List (Event P A V E)) :
    eventsIn (events.map .happened : List (Chapter P A V E)) = events := by
  rw [eventsIn, List.filterMap_map]
  exact List.filterMap_some

/-- What has only happened yields no item. -/
theorem itemsIn_happened (events : List (Event P A V E)) :
    itemsIn (events.map .happened : List (Chapter P A V E)) = [] := by
  rw [itemsIn, List.filterMap_map]
  exact List.filterMap_eq_nil_iff.mpr fun event _ => rfl

/-- What has happened between two caches is what their traces differ by. -/
theorem happening_eq (htrace : c'.env.trace = c.env.trace ++ events) :
    happening c c' = events.map .happened := by
  rw [happening, htrace, List.drop_left]

/-- What is yielded adds no event to what has happened. -/
theorem eventsIn_chapters (request : Option (Request P A V)) (c c' : Cache P A V E)
    (answer : TaskAnswer (Item P V E)) :
    eventsIn (chapters request c c' answer) = eventsIn (happening c c') := by
  rw [chapters, eventsIn_append]
  cases answer.item? with
  | none => exact List.append_nil _
  | some item => exact List.append_nil _

/-- A poll of a task tells of the item of its answer. -/
theorem itemsIn_chapters (request : Option (Request P A V)) (c c' : Cache P A V E)
    (answer : TaskAnswer (Item P V E)) :
    itemsIn (chapters request c c' answer) = answer.item?.toList := by
  rw [chapters, itemsIn_append, happening, itemsIn_happened]
  cases answer.item? with
  | none => rfl
  | some item => rfl

/-- Where nothing happens nothing is recorded. -/
theorem Records.refl (log : List (Chapter P A V E)) (c : Cache P A V E) : Records log c [] log c :=
  ⟨[], (List.append_nil _).symm, rfl, (List.append_nil _).symm⟩

/-- What is recorded in two parts is recorded. -/
theorem Records.trans {log'' : List (Chapter P A V E)} {c'' : Cache P A V E}
    {items items' : List (Item P V E)} (h : Records log c items log' c')
    (h' : Records log' c' items' log'' c'') : Records log c (items ++ items') log'' c'' := by
  obtain ⟨part, hlog, hitems, htrace⟩ := h
  obtain ⟨part', hlog', hitems', htrace'⟩ := h'
  refine ⟨part ++ part', ?_, ?_, ?_⟩
  · rw [hlog', hlog, List.append_assoc]
  · rw [itemsIn_append, hitems, hitems']
  · rw [htrace', htrace, eventsIn_append, List.append_assoc]

end Chapters

/-! ## Runs with a chronicle -/

/-- A session with the requests that were begun under each name, and what has been told. -/
structure Chronicle (P A V E : Type) where
  session : Session P A V E
  requests : Table String (Request P A V) := Table.empty
  log : List (Chapter P A V E) := []

/-- A task without a name, the cache that it uses, and what has been told. -/
structure UnnamedTask (P A V E : Type) where
  task : Task P A V E
  cache : Cache P A V E
  log : List (Chapter P A V E)

variable [DecidableEq P] [DecidableEq A] [DecidableEq V]

namespace UnnamedTask

def poll (request : Request P A V) (r : UnnamedTask P A V E) :
    TaskAnswer (Item P V E) × UnnamedTask P A V E :=
  let (answer, task, cache) := r.task.poll r.cache
  (answer, { task, cache, log := r.log ++ chapters (some request) r.cache cache answer })

def begin (request : Request P A V) (cache : Cache P A V E) (log : List (Chapter P A V E)) :
    UnnamedTask P A V E :=
  let (task, cache) := Task.create cache request
  { task, cache, log }

/-- Polls the task until it has nothing more to give. -/
def run (request : Request P A V) (r : UnnamedTask P A V E) :
    List (TaskAnswer (Item P V E)) × UnnamedTask P A V E :=
  drain (poll request) (r.task.patience r.cache) r

end UnnamedTask

namespace Chronicle

def poll (id : String) (r : Chronicle P A V E) : TaskAnswer (Item P V E) × Chronicle P A V E :=
  let (answer, s) := r.session.pollTask id
  let told := chapters (r.requests.get? id) r.session.cache s.cache answer
  (answer, { r with session := s, log := r.log ++ told })

def runTask (request : Request P A V) (r : Chronicle P A V E) : Chronicle P A V E :=
  let done := ((UnnamedTask.begin request r.session.cache r.log).run request).2
  let cache := done.task.drop done.cache
  { r with session.cache := cache, log := done.log ++ happening done.cache cache }

/-- A step in which no task is polled. -/
def tell (st : Session.Step P A V) (r : Chronicle P A V E) : Chronicle P A V E :=
  let (report, s) := r.session.step st
  { r with session := s, log := r.log ++ report.events.map .happened }

/-- Performs a step. A step that is refused begins nothing. -/
def step (r : Chronicle P A V E) (st : Session.Step P A V) : Chronicle P A V E :=
  let fresh := { r with session := r.session.fresh }
  match st with
  | .poll id => (fresh.poll id).2
  | .drain id => (drain (poll id) (fresh.session.patience [id]) fresh).2
  | .join ids => (join poll (fresh.session.patience ids) ids fresh).2
  | .run request => if r.session.closed then fresh else fresh.runTask request
  | .begin id request =>
    let told := r.tell (.begin id request)
    if r.session.closed then told else { told with requests := r.requests.insert id request }
  | st => r.tell st

def run (s : Session P A V E) (steps : List (Session.Step P A V)) : Chronicle P A V E :=
  steps.foldl step { session := s }

end Chronicle

/-! ## What is told is right -/

section Truthful

/-- Every item in a chronicle was yielded to a request, and has a source in what has happened
before. -/
def Truthful (seed : Key P A → Option (Entry V)) (log : List (Chapter P A V E)) : Prop :=
  ∀ earlier request item later, log = earlier ++ .yielded request item :: later →
    ∃ r, request = some r ∧ Served seed (eventsIn earlier) r item

/-- What a part of a chronicle tells is right: it leads from one world to another. -/
structure Passes (seed : Store (Key P A) V) (source : Source P V E)
    (log part : List (Chapter P A V E)) (w w' : World P A V E) : Prop where
  trace : w'.cache.env.trace = w.cache.env.trace ++ eventsIn part
  keeps : w.cache.flights.Keeps w'.cache.flights
  traced : Traced seed source (eventsIn (log ++ part)) w'
  truthful : Truthful seed.find (log ++ part)

variable {seed : Store (Key P A) V} {source : Source P V E} {log part : List (Chapter P A V E)}
  {w w' : World P A V E} {c c' : Cache P A V E} {loads : Multiset (Load P A V E)}

omit [DecidableEq P] [DecidableEq A] [DecidableEq V] in
/-- A truthful chronicle goes on with items that have a source in what has happened before. -/
theorem Truthful.append {seed : Key P A → Option (Entry V)} (h : Truthful seed log)
    (hpart : ∀ earlier request item later, part = earlier ++ .yielded request item :: later →
      ∃ r, request = some r ∧ Served seed (eventsIn (log ++ earlier)) r item) :
    Truthful seed (log ++ part) := by
  intro earlier request item later hsplit
  rcases append_eq_split hsplit with ⟨rest, hlog⟩ | ⟨begun, rfl, hbegun⟩
  · exact h earlier request item rest hlog
  · exact hpart begun request item later hbegun

omit [DecidableEq V] in
/-- Moves tell what happens, and yield nothing. -/
theorem passes_moves (hmoves : Moves w w') (h : Traced seed source (eventsIn log) w)
    (htruthful : Truthful seed.find log) :
    Passes seed source log (happening w.cache w'.cache) w w' := by
  obtain ⟨events, htrace⟩ := hmoves.trace
  obtain ⟨htraced, hkeeps⟩ := h.goes hmoves htrace
  rw [happening_eq htrace]
  refine ⟨?_, hkeeps, ?_, htruthful.append fun earlier request item later hsplit => ?_⟩
  · rw [eventsIn_happened]
    exact htrace
  · rw [eventsIn_append, eventsIn_happened]
    exact htraced
  · -- All chapters tell of events.
    have hmem :
        .yielded request item ∈ events.map (Chapter.happened (P := P) (A := A) (V := V)) := by
      rw [hsplit]
      exact List.mem_append_right _ (List.mem_cons_self ..)
    obtain ⟨event, -, heq⟩ := List.mem_map.mp hmem
    cases heq

omit [DecidableEq V] in
/-- To tell of an answer is right if what has happened is, and if the item of the answer has a
source. -/
theorem Passes.yields (h : Passes seed source log (happening c c') w w')
    {request : Option (Request P A V)} {answer : TaskAnswer (Item P V E)}
    (hserved : ∀ item, answer.item? = some item →
      ∃ r, request = some r ∧ Served seed.find (eventsIn (log ++ happening c c')) r item) :
    Passes seed source log (chapters request c c' answer) w w' := by
  have hevents := eventsIn_chapters request c c' answer
  refine ⟨?_, h.keeps, ?_, ?_⟩
  · rw [hevents]
    exact h.trace
  · rw [eventsIn_append, hevents, ← eventsIn_append]
    exact h.traced
  · -- An item is the last chapter, if there is one, so that all events of the poll come before it.
    rw [chapters, ← List.append_assoc]
    refine h.truthful.append fun earlier request' item later hsplit => ?_
    cases hitem : answer.item? with
    | none =>
      rw [hitem] at hsplit
      cases earlier <;> cases hsplit
    | some item' =>
      rw [hitem] at hsplit
      cases earlier with
      | cons chapter earlier =>
        obtain ⟨-, hnil⟩ := List.cons.inj hsplit
        cases earlier <;> cases hnil
      | nil =>
        cases hsplit
        rw [List.append_nil]
        exact hserved item hitem

/-- To tell of a poll is right: what the task yields has a source. -/
theorem Task.passes_poll {task : Task P A V E} {request : Request P A V}
    (h : Traced seed source (eventsIn log) ⟨c, held task.load? loads⟩)
    (htruthful : Truthful seed.find log) (hsound : task.Sound)
    (hheeds : task.Heeds request c.flights) :
    Passes seed source log (chapters (some request) c (task.poll c).2.2 (task.poll c).1)
      ⟨c, held task.load? loads⟩ ⟨(task.poll c).2.2, held (task.poll c).2.1.load? loads⟩ := by
  have hmoves := (Task.moves_poll hsound c loads).1
  obtain ⟨events, htrace, hserved⟩ := (Task.provides_poll h hsound hheeds).told
  refine (passes_moves hmoves h htruthful).yields fun item hitem => ⟨request, rfl, ?_⟩
  rw [happening_eq htrace, eventsIn_append, eventsIn_happened]
  exact hserved item (TaskAnswer.eq_of_item? hitem)

end Truthful

/-! ## Runs -/

namespace Chronicle

/-- All that a chronicle tells is right, and all tasks do what their requests ask for. -/
structure Kept (seed : Store (Key P A) V) (source : Source P V E) (r : Chronicle P A V E) :
    Prop where
  sound : r.session.Sound
  heeded : ∀ id task, r.session.tasks.get? id = some task →
    ∃ request, r.requests.get? id = some request ∧ task.Heeds request r.session.cache.flights
  traced : Traced seed source (eventsIn r.log) r.session.world
  truthful : Truthful seed.find r.log

/-- A chronicle goes on rightly, with some items. -/
structure Continues (seed : Store (Key P A) V) (source : Source P V E) (r : Chronicle P A V E)
    (items : List (Item P V E)) (r' : Chronicle P A V E) : Prop where
  records : Records r.log r.session.cache items r'.log r'.session.cache
  kept : r'.Kept seed source

variable {seed : Store (Key P A) V} {source : Source P V E} {r r' r'' : Chronicle P A V E}
  {items items' : List (Item P V E)}

omit [DecidableEq V] in
/-- A chronicle goes on to itself with no items. -/
theorem Continues.refl (h : r.Kept seed source) : Continues seed source r [] r :=
  ⟨.refl _ _, h⟩

omit [DecidableEq V] in
/-- A chronicle that goes on twice goes on with the items of both. -/
theorem Continues.trans (h : Continues seed source r items r')
    (h' : Continues seed source r' items' r'') : Continues seed source r (items ++ items') r'' :=
  ⟨h.records.trans h'.records, h'.kept⟩

omit [DecidableEq V] in
/-- The tasks that stay go on with what their requests ask for. -/
theorem Kept.heeded_of_keeps (h : r.Kept seed source) {s : Session P A V E}
    (hkeeps : r.session.cache.flights.Keeps s.cache.flights) {id : String} {task : Task P A V E}
    (hsame : s.tasks.get? id = r.session.tasks.get? id ∨ s.tasks.get? id = none)
    (hget : s.tasks.get? id = some task) :
    ∃ request, r.requests.get? id = some request ∧ task.Heeds request s.cache.flights := by
  rcases hsame with hsame | hnone
  · obtain ⟨request, hrequest, hheeds⟩ := h.heeded id task (hsame.symm.trans hget)
    exact ⟨request, hrequest, hheeds.kept hkeeps⟩
  · rw [hnone] at hget
    cases hget

/-- To tell of a poll by name is right, and the task under the name still does what its request asks
for. -/
theorem Kept.passes_pollTask (h : r.Kept seed source) (id : String) :
    Passes seed source r.log
        (chapters (r.requests.get? id) r.session.cache (r.session.pollTask id).2.cache
          (r.session.pollTask id).1)
        r.session.world (r.session.pollTask id).2.world ∧
      ∀ task, (r.session.pollTask id).2.tasks.get? id = some task →
        ∃ request, r.requests.get? id = some request ∧
          task.Heeds request (r.session.pollTask id).2.cache.flights := by
  unfold Session.pollTask
  cases hget : r.session.tasks.get? id with
  | none => exact ⟨(passes_moves .refl h.traced h.truthful).yields nofun, h.heeded id⟩
  | some task =>
    obtain ⟨request, hrequest, hheeds⟩ := h.heeded id task hget
    have htraced : Traced seed source (eventsIn r.log)
        ⟨r.session.cache, held task.load? (Session.loadsOf (r.session.tasks.erase id))⟩ := by
      rw [← Session.loadsOf_of_get? hget]
      exact h.traced
    rw [hrequest]
    refine ⟨?_, fun task' htask' => ?_⟩
    · show Passes _ _ _ _ ⟨_, Session.loadsOf r.session.tasks⟩
        ⟨_, Session.loadsOf (r.session.tasks.insert id (task.poll r.session.cache).2.1)⟩
      rw [Session.loadsOf_insert, Session.loadsOf_of_get? hget]
      exact Task.passes_poll htraced h.truthful (h.sound hget) hheeds
    · rw [Table.get?_insert_self] at htask'
      obtain rfl := Option.some.inj htask'
      exact ⟨request, rfl, (Task.provides_poll htraced (h.sound hget) hheeds).heeds⟩

/-- A poll by name continues the chronicle with the item of its answer. -/
theorem continues_poll (h : r.Kept seed source) (id : String) :
    Continues seed source r (poll id r).1.item?.toList (poll id r).2 := by
  obtain ⟨hpasses, hpolled⟩ := h.passes_pollTask id
  refine ⟨⟨_, rfl, itemsIn_chapters _ _ _ _, hpasses.trace⟩, ?_, fun id' task hget => ?_,
    hpasses.traced, hpasses.truthful⟩
  · exact (Session.goes_pollTask h.sound id).sound
  · by_cases hid : id' = id
    · subst hid
      exact hpolled task hget
    · exact h.heeded_of_keeps hpasses.keeps
        (.inl (Session.tasks_pollTask_of_ne r.session hid)) hget

/-- Draining a task continues the chronicle with the items of all its answers. -/
theorem continues_drain (h : r.Kept seed source) (id : String) (polls : Nat) :
    Continues seed source r ((drain (poll id) polls r).1.filterMap TaskAnswer.item?)
      (drain (poll id) polls r).2 := by
  have hpoll : ∀ r : Chronicle P A V E, r.Kept seed source →
      Continues seed source r ([(poll id r).1].filterMap TaskAnswer.item?) (poll id r).2 := by
    intro r hr
    rw [TaskAnswer.filterMap_item?]
    exact continues_poll hr id
  refine drain_rel (R := fun r answers r' => r.Kept seed source →
    Continues seed source r (answers.filterMap TaskAnswer.item?) r') (fun _ => .refl)
    (fun hfirst hrest hr => ?_) hpoll polls r h
  rw [List.filterMap_append]
  exact (hfirst hr).trans (hrest (hfirst hr).kept)

/-- Polling tasks in turns continues the chronicle with the items of all their answers. -/
theorem continues_join (h : r.Kept seed source) (passes : Nat) (ids : List String) :
    Continues seed source r ((join poll passes ids r).1.filterMap fun p => p.2.item?)
      (join poll passes ids r).2 := by
  have hpoll : ∀ id ∈ ids, ∀ r : Chronicle P A V E, r.Kept seed source →
      Continues seed source r ((told id (poll id r).1).filterMap fun p => p.2.item?)
        (poll id r).2 := by
    intro id _ r hr
    rw [filterMap_item?_told]
    exact continues_poll hr id
  refine join_rel (R := fun r answers r' => r.Kept seed source →
    Continues seed source r (answers.filterMap fun p => p.2.item?) r') (fun _ => .refl)
    (fun hfirst hrest hr => ?_) hpoll passes r h
  rw [List.filterMap_append]
  exact (hfirst hr).trans (hrest (hfirst hr).kept)

/-! ### Tasks without names -/

section Alone

/-- A task without a name does what its request asks for, while others hold loads. -/
structure Ready (seed : Store (Key P A) V) (source : Source P V E)
    (loads : Multiset (Load P A V E)) (request : Request P A V)
    (r : UnnamedTask P A V E) : Prop where
  sound : r.task.Sound
  heeds : r.task.Heeds request r.cache.flights
  traced : Traced seed source (eventsIn r.log) ⟨r.cache, held r.task.load? loads⟩
  truthful : Truthful seed.find r.log

/-- A task without a name goes on rightly, with some items. -/
structure Attends (seed : Store (Key P A) V) (source : Source P V E)
    (loads : Multiset (Load P A V E)) (request : Request P A V) (r : UnnamedTask P A V E)
    (items : List (Item P V E)) (r' : UnnamedTask P A V E) : Prop where
  records : Records r.log r.cache items r'.log r'.cache
  keeps : r.cache.flights.Keeps r'.cache.flights
  ready : Ready seed source loads request r'

variable {loads : Multiset (Load P A V E)} {request : Request P A V}
  {e e' e'' : UnnamedTask P A V E}

omit [DecidableEq V] in
/-- A task without a name that goes on twice goes on with the items of both. -/
theorem Attends.trans (h : Attends seed source loads request e items e')
    (h' : Attends seed source loads request e' items' e'') :
    Attends seed source loads request e (items ++ items') e'' :=
  ⟨h.records.trans h'.records, h.keeps.trans h'.keeps, h'.ready⟩

/-- A poll of a task without a name goes on with the item of its answer. -/
theorem attends_poll (h : Ready seed source loads request e) :
    Attends seed source loads request e (e.poll request).1.item?.toList (e.poll request).2 := by
  have hpasses := Task.passes_poll h.traced h.truthful h.sound h.heeds
  have hheeds := (Task.provides_poll h.traced h.sound h.heeds).heeds
  have hsound := (Task.moves_poll h.sound e.cache loads).2
  exact
    { records := ⟨_, rfl, itemsIn_chapters _ _ _ _, hpasses.trace⟩
      keeps := hpasses.keeps
      ready := ⟨hsound, hheeds, hpasses.traced, hpasses.truthful⟩ }

/-- Running a task without a name goes on with the items of all its answers. -/
theorem attends_run (h : Ready seed source loads request e) :
    Attends seed source loads request e ((e.run request).1.filterMap TaskAnswer.item?)
      (e.run request).2 := by
  have hpoll : ∀ e : UnnamedTask P A V E, Ready seed source loads request e →
      Attends seed source loads request e ([(e.poll request).1].filterMap TaskAnswer.item?)
        (e.poll request).2 := by
    intro e he
    rw [TaskAnswer.filterMap_item?]
    exact attends_poll he
  refine drain_rel (R := fun e answers e' => Ready seed source loads request e →
    Attends seed source loads request e (answers.filterMap TaskAnswer.item?) e')
    (fun e he => ?_) (fun hfirst hrest he => ?_) hpoll _ e h
  · exact ⟨.refl _ _, .refl _, he⟩
  · rw [List.filterMap_append]
    exact (hfirst he).trans (hrest (hfirst he).ready)

omit [DecidableEq P] [DecidableEq A] [DecidableEq V] in
/-- To make a task tells nothing. -/
theorem trace_create (c : Cache P A V E) (request : Request P A V) :
    (Task.create c request).2.env.trace = c.env.trace := by
  cases request <;> rfl

/-- The record changes neither what the task is answered nor what it leaves. -/
theorem runTask_record (r : Chronicle P A V E) (request : Request P A V) :
    ((UnnamedTask.begin request r.session.cache r.log).run request).1 =
    (r.session.runTask request).1 ∧
      (r.runTask request).session = (r.session.runTask request).2 := by
  let poll (p : Task P A V E × Cache P A V E) := p.1.poll p.2
  let forget (e : UnnamedTask P A V E) := (e.task, e.cache)
  have hanswer : ∀ e : UnnamedTask P A V E, (e.poll request).1 = (poll (forget e)).1 := fun _ => rfl
  have hstate : ∀ e : UnnamedTask P A V E, forget (e.poll request).2 = (poll (forget e)).2 :=
    fun _ => rfl
  obtain ⟨hanswers, hlast⟩ := drain_record hanswer hstate _
    (UnnamedTask.begin request r.session.cache r.log)
  exact ⟨hanswers, congrArg (fun p => { r.session with cache := p.1.drop p.2 }) hlast⟩

/-- A task that is run at once continues the chronicle with all that it yields. -/
theorem continues_runTask (h : r.Kept seed source) (request : Request P A V) :
    Continues seed source r ((r.session.runTask request).1.filterMap TaskAnswer.item?)
      (r.runTask request) := by
  obtain ⟨hcreate, hsound⟩ :=
    Task.moves_create r.session.cache request (Session.loadsOf r.session.tasks)
  have htrace : (Task.create r.session.cache request).2.env.trace =
      r.session.cache.env.trace ++ [] := by
    rw [trace_create, List.append_nil]
  obtain ⟨htraced, hkeeps⟩ := h.traced.goes hcreate htrace
  rw [List.append_nil] at htraced
  have hbegun : Ready seed source (Session.loadsOf r.session.tasks) request
      (UnnamedTask.begin request r.session.cache r.log) :=
    ⟨hsound, Task.heeds_create _ request, htraced, h.truthful⟩
  have hrun := attends_run hbegun
  rw [(runTask_record r request).1] at hrun
  unfold runTask
  generalize ((UnnamedTask.begin request r.session.cache r.log).run request).2 = done at hrun ⊢
  have hdrop := passes_moves (done.task.moves_drop done.cache) hrun.ready.traced hrun.ready.truthful
  have hbegin : Records r.log r.session.cache [] r.log (Task.create r.session.cache request).2 :=
    ⟨[], (List.append_nil _).symm, rfl, htrace⟩
  have hend : Records done.log done.cache []
      (done.log ++ happening done.cache (done.task.drop done.cache))
      (done.task.drop done.cache) :=
    ⟨_, rfl, itemsIn_happened _, hdrop.trace⟩
  -- The tasks with names stay as they are, while the one without comes and goes.
  refine ⟨?_, h.sound, fun id task hget => ?_, hdrop.traced, hdrop.truthful⟩
  · have hall := (hbegin.trans hrun.records).trans hend
    rwa [List.nil_append, List.append_nil] at hall
  · exact h.heeded_of_keeps (hkeeps.trans (hrun.keeps.trans hdrop.keeps)) (.inl rfl) hget

end Alone

/-! ### Steps -/

/-- Whether a step polls tasks. -/
def polls : Session.Step P A V → Bool
  | .run _ | .poll _ | .drain _ | .join _ => true
  | _ => false

section Steps

variable {s : Session P A V E} {st : Session.Step P A V}

/-- A step that polls no task answers with no items. -/
theorem items_of_polls (h : polls st = false) : (s.step st).1.response.items = [] := by
  rw [Session.response_step]
  split
  · rfl
  · cases st with
    | run | poll | drain | join => cases h
    | _ => rfl

/-- A step that polls nothing and does not begin a task under a name leaves the task that has the
name, or drops it. -/
theorem tasks_step (s : Session P A V E) {id : String} (hpolls : polls st = false)
    (hbegins : ¬ st.begins id) :
    (s.step st).2.tasks.get? id = s.tasks.get? id ∨ (s.step st).2.tasks.get? id = none := by
  rw [Session.step_snd]
  split
  · exact .inl rfl
  · refine Session.tasks_perform s.fresh hbegins ?_ ?_ ?_ <;> rintro _ rfl <;> cases hpolls

/-- While the cache is open, a step that begins a task has the new task under its name. -/
theorem tasks_begin (s : Session P A V E) (hopen : s.closed = false) (id : String)
    (request : Request P A V) :
    (s.step (.begin id request)).2.tasks.get? id =
      some (Task.create s.fresh.cache request).1 := by
  rw [Session.step_snd, hopen]
  exact Table.get?_insert_self _ _ _

omit [DecidableEq V] in
/-- A chronicle stays right when the trace is emptied. -/
theorem Kept.fresh (h : r.Kept seed source) :
    Kept seed source { r with session := r.session.fresh } :=
  ⟨h.sound, h.heeded, h.traced.fresh, h.truthful⟩

/-- A step that polls nothing tells what has happened. -/
theorem continues_tell (h : r.Kept seed source) (hst : st.isPut = false)
    (requests : Table String (Request P A V))
    (hheeded : r.session.cache.flights.Keeps (r.session.step st).2.cache.flights →
      ∀ id task, (r.session.step st).2.tasks.get? id = some task →
        ∃ request, requests.get? id = some request ∧
          task.Heeds request (r.session.step st).2.cache.flights) :
    Continues seed source { r with session := r.session.fresh } []
      { r.tell st with requests } := by
  obtain ⟨hmoves, hsound⟩ := Session.goes_step h.sound hst
  have hpasses := passes_moves hmoves h.fresh.traced h.truthful
  exact
    { records := ⟨_, rfl, itemsIn_happened _, hpasses.trace⟩
      kept := ⟨hsound, hheeded hpasses.keeps, hpasses.traced, hpasses.truthful⟩ }

/-- A step with a chronicle continues it with the items that the step answers, and leaves the
session that the step leaves without one. -/
structure Matches (seed : Store (Key P A) V) (source : Source P V E) (r : Chronicle P A V E)
    (st : Session.Step P A V) : Prop where
  continues : Continues seed source { r with session := r.session.fresh }
    (r.session.step st).1.response.items (r.step st)
  session : (r.step st).session = (r.session.step st).2

/-- A poll with a chronicle answers as it does without one. -/
theorem answer_poll (id : String) (r : Chronicle P A V E) :
    (poll id r).1 = (r.session.pollTask id).1 := rfl

/-- A poll with a chronicle leaves the session that it leaves without one. -/
theorem session_poll (id : String) (r : Chronicle P A V E) :
    (poll id r).2.session = (r.session.pollTask id).2 := rfl

/-- A step that polls a task is told with the item of its answer. -/
theorem matches_poll (h : r.Kept seed source) (id : String) :
    Matches seed source r (.poll id) := by
  obtain ⟨hresponse, hstate⟩ := Session.step_of_taken r.session (.poll id) (.inr rfl)
  refine ⟨?_, hstate.symm⟩
  rw [hresponse]
  exact continues_poll h.fresh id

/-- A step that drains a task is told with the items of all its answers. -/
theorem matches_drain (h : r.Kept seed source) (id : String) :
    Matches seed source r (.drain id) := by
  obtain ⟨hresponse, hstate⟩ := Session.step_of_taken r.session (.drain id) (.inr rfl)
  obtain ⟨hanswers, hlast⟩ := drain_record (answer_poll id) (session_poll id)
    (r.session.fresh.patience [id]) { r with session := r.session.fresh }
  refine ⟨?_, hlast.trans hstate.symm⟩
  have hitems : (r.session.fresh.perform (.drain id)).1.items =
      (drain (poll id) (r.session.fresh.patience [id])
        { r with session := r.session.fresh }).1.filterMap TaskAnswer.item? := by
    rw [hanswers]
    rfl
  rw [hresponse, hitems]
  exact continues_drain h.fresh id _

/-- A step that polls tasks in turns is told with the items of all answers. -/
theorem matches_join (h : r.Kept seed source) (ids : List String) :
    Matches seed source r (.join ids) := by
  obtain ⟨hresponse, hstate⟩ := Session.step_of_taken r.session (.join ids) (.inr rfl)
  obtain ⟨hanswers, hlast⟩ := join_record answer_poll session_poll ids
    (r.session.fresh.patience ids) { r with session := r.session.fresh }
  refine ⟨?_, hlast.trans hstate.symm⟩
  have hitems : (r.session.fresh.perform (.join ids)).1.items =
      (join poll (r.session.fresh.patience ids) ids
        { r with session := r.session.fresh }).1.filterMap fun p => p.2.item? := by
    rw [hanswers]
    rfl
  rw [hresponse, hitems]
  exact continues_join h.fresh _ ids

/-- A step that runs a task at once is told with all items of the task. -/
theorem matches_run (h : r.Kept seed source) (request : Request P A V) :
    Matches seed source r (.run request) := by
  cases hclosed : r.session.closed with
  | true =>
    have hstep : r.step (.run request) = { r with session := r.session.fresh } := if_pos hclosed
    obtain ⟨hresponse, hstate⟩ := Session.step_of_refused (.run request) hclosed rfl
    refine ⟨?_, ?_⟩
    · rw [hstep, hresponse]
      exact .refl h.fresh
    · rw [hstep, hstate]
  | false =>
    have hstep : r.step (.run request) = runTask request { r with session := r.session.fresh } :=
      if_neg (Bool.eq_false_iff.mp hclosed)
    obtain ⟨hresponse, hstate⟩ := Session.step_of_taken r.session (.run request) (.inl hclosed)
    refine ⟨?_, ?_⟩
    · rw [hstep, hresponse]
      exact continues_runTask h.fresh request
    · rw [hstep, hstate]
      exact (runTask_record _ request).2

/-- A step that begins a task is told with the request of the task. -/
theorem matches_begin (h : r.Kept seed source) (id : String) (request : Request P A V) :
    Matches seed source r (.begin id request) := by
  cases hclosed : r.session.closed with
  | true =>
    have hstep : r.step (.begin id request) = r.tell (.begin id request) := if_pos hclosed
    obtain ⟨-, hstate⟩ := Session.step_of_refused (.begin id request) hclosed rfl
    refine ⟨?_, by rw [hstep]; rfl⟩
    rw [hstep, items_of_polls rfl]
    refine continues_tell h rfl r.requests fun hkeeps id' task hget => ?_
    exact h.heeded_of_keeps hkeeps (.inl (by rw [hstate]; rfl)) hget
  | false =>
    have hstep : r.step (.begin id request) =
        { r.tell (.begin id request) with requests := r.requests.insert id request } :=
      if_neg (Bool.eq_false_iff.mp hclosed)
    refine ⟨?_, by rw [hstep]; rfl⟩
    rw [hstep, items_of_polls rfl]
    refine continues_tell h rfl _ fun hkeeps id' task hget => ?_
    by_cases hid : id' = id
    · subst hid
      rw [tasks_begin r.session hclosed] at hget
      obtain rfl := Option.some.inj hget
      exact ⟨request, Table.get?_insert_self _ _ _, Task.heeds_create _ request⟩
    · have hbegins : ¬ (Session.Step.begin id request).begins id' := by
        simpa [Session.Step.begins] using Ne.symm hid
      rw [Table.get?_insert_of_ne _ _ hid]
      exact h.heeded_of_keeps hkeeps (tasks_step r.session rfl hbegins) hget

/-- Every step but a write past the cache is told rightly. -/
theorem matches_step (h : r.Kept seed source) (hst : st.isPut = false) :
    Matches seed source r st := by
  have hother : polls st = false → (∀ id, ¬ st.begins id) → r.step st = r.tell st →
      Matches seed source r st := by
    intro hpolls hbegins hstep
    refine ⟨?_, by rw [hstep]; rfl⟩
    rw [hstep, items_of_polls hpolls]
    refine continues_tell h hst r.requests fun hkeeps id task hget => ?_
    exact h.heeded_of_keeps hkeeps (tasks_step r.session hpolls (hbegins id)) hget
  cases st with
  | put key entry => cases hst
  | poll id => exact matches_poll h id
  | drain id => exact matches_drain h id
  | join ids => exact matches_join h ids
  | run request => exact matches_run h request
  | begin id request => exact matches_begin h id request
  | _ => exact hother rfl (fun _ => nofun) rfl

/-- A run continues the chronicle with its events and its items, and leaves the session that it
leaves without a chronicle. -/
theorem Kept.run (h : r.Kept seed source) {steps : List (Session.Step P A V)}
    (hput : ∀ st ∈ steps, st.isPut = false) :
    (steps.foldl step r).session = (r.session.run steps).2 ∧
      (steps.foldl step r).Kept seed source ∧
      ∃ part, (steps.foldl step r).log = r.log ++ part ∧
        eventsIn part = eventsOf (r.session.run steps).1 ∧
        itemsIn part = itemsOf (r.session.run steps).1 := by
  induction steps generalizing r with
  | nil => exact ⟨rfl, h, [], (List.append_nil _).symm, rfl, rfl⟩
  | cons st rest ih =>
    obtain ⟨⟨⟨part, hlog, hitems, htrace⟩, hkept⟩, hsession⟩ :=
      matches_step h (hput st (List.mem_cons_self ..))
    obtain ⟨hlast, hkept', more, hlog', hevents', hitems'⟩ :=
      ih hkept fun st' hst' => hput st' (List.mem_cons_of_mem _ hst')
    rw [hsession] at hlast hevents' hitems' htrace
    -- The trace was empty before the step.
    have hevents : eventsIn part = (r.session.step st).1.events := htrace.symm
    refine ⟨hlast, hkept', part ++ more, ?_, ?_, ?_⟩
    · rw [List.foldl_cons, hlog', hlog, List.append_assoc]
    · rw [eventsIn_append, hevents, hevents']
      rfl
    · rw [itemsIn_append, hitems, hitems']
      rfl

/-- The chronicle of a new cache is right. -/
theorem kept_create (setup : Setup (Store (Key P A) V)) (source : Source P V E) :
    Kept setup.store source { session := Session.create (Cache.create setup source) } where
  sound := Session.sound_create _
  heeded := fun id task hget => by cases hget
  truthful := fun earlier request item later h => by cases earlier <;> cases h
  traced :=
    { recounts := Recounts.run setup source []
      stocked := rfl
      attended := Session.attended_run setup source []
      keyed := fun e x work hx => by cases hx
      filed := fun s hs => by cases hs }

end Steps

end Chronicle

namespace Session

/-- Whatever is served has a source. In a run of a session over a new cache in which nothing is
written past the cache, every item that is yielded was requested. If results of a key were, it comes
from a failure, from an execution for this very key, or from the store, where the request has just
found it fresh and the latest entry of this very key. The chronicle that tells this belongs to the
run: it leaves the same session, and has the events and the items that the run reports. -/
theorem served_sourced (setup : Setup (Store (Key P A) V)) (source : Source P V E)
    (steps : List (Step P A V)) (hput : ∀ st ∈ steps, st.isPut = false) :
    let run := (create (Cache.create setup source)).run steps
    let chronicle := Chronicle.run (create (Cache.create setup source)) steps
    chronicle.session = run.2 ∧ eventsIn chronicle.log = eventsOf run.1 ∧
      itemsIn chronicle.log = itemsOf run.1 ∧ Truthful setup.store.find chronicle.log := by
  intro run chronicle
  obtain ⟨hsession, hkept, part, hlog, hevents, hitems⟩ :=
    (Chronicle.kept_create setup source).run hput
  obtain rfl : chronicle.log = part := hlog
  exact ⟨hsession, hevents, hitems, hkept.truthful⟩

/-- Two values of the same parameters with different tags are loaded at the same time. Both are read
again, and one of them once more when it is too old; nothing is stored without a tag. -/
def tagged : List (Step String String Int64) :=
  let terms := Terms.ofMaxAge (Duration.ofMillis 10)
  [.begin "a" (.stream true ⟨"x", some "a"⟩ (.policy .ifHave) terms),
    .begin "b" (.stream true ⟨"x", some "b"⟩ (.policy .ifHave) terms),
    .poll "a", .poll "b", .openGate "source", .join ["b", "a"],
    .run (.stream true ⟨"x", some "a"⟩ (.policy .ifHave) terms),
    .run (.fetch "x" .only terms),
    .run (.stream true ⟨"x", some "b"⟩ (.policy .only) {}),
    .advance (Duration.ofMillis 10),
    .run (.stream true ⟨"x", some "a"⟩ (.policy .cachedThenLoad) terms)]

theorem served_sourced_tagged :
    let source : Source String Int64 String :=
      scriptedSource [{ wait := { gate := some "source" } }]
    let setup : Setup (Store (Key String String) Int64) :=
      { store := .bounded (Bounded.ofCapacity 16 (by decide)), clock := .counter 1000 1,
        broadcastCapacity := 64 }
    let chronicle := Chronicle.run (create (Cache.create setup source)) tagged
    (∀ st ∈ tagged, st.isPut = false) ∧
      itemsIn chronicle.log =
        [.delivery (Delivery.loaded 2 1000), .delivery (Delivery.loaded 1 1001),
          .delivery (Delivery.cached (Entry.stamped 1 1001)), .failure .notCached,
          .delivery (Delivery.cached (Entry.stamped 2 1000)),
          .delivery (Delivery.loaded 3 1015)] ∧
      Truthful setup.store.find chronicle.log := by
  have hput : ∀ st ∈ tagged, st.isPut = false := by decide
  refine ⟨hput, (served_sourced _ _ tagged hput).2.2.1.trans ?_,
    (served_sourced _ _ tagged hput).2.2.2⟩
  rfl

end Session

end ReadThrough
