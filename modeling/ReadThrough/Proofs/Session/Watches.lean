import ReadThrough.Proofs.Session.Diaries
import ReadThrough.Proofs.Session.Sharing
import ReadThrough.Proofs.Session.Streams
/-!
# Proofs: the record of a watch

A watch that is begun in a session keeps its diary through every run of it, until it is dropped
(`Session.keeps_run`): whichever tasks are polled, the diary agrees with the record of what has
happened, and the record shows the items of the diary, without the values that repeat the one
before.
-/

namespace ReadThrough

variable {P A V E : Type}

/-! ## The record of a watch -/

/-- What happens in a part of a record, and whether the task is polled meanwhile. -/
def Scene.ticks : Scene P A V E → List (Tick P A V E)
  | .passed events => events.map (false, ·)
  | .polled events _ => events.map (true, ·)

/-- What has happened, in order, and whether the task was polled meanwhile. -/
def ticksOf (log : List (Scene P A V E)) : List (Tick P A V E) := log.flatMap Scene.ticks

section Ticks

variable {log : List (Scene P A V E)}

/-- The ticks of a record go on with each part of it. -/
theorem ticksOf_concat (log : List (Scene P A V E)) (scene : Scene P A V E) :
    ticksOf (log ++ [scene]) = ticksOf log ++ scene.ticks := by
  rw [ticksOf, List.flatMap_append, List.flatMap_singleton, ticksOf]

/-- What has happened is what the ticks are of. -/
theorem map_ticksOf (log : List (Scene P A V E)) : (ticksOf log).map (·.2) = eventsSeen log := by
  induction log with
  | nil => rfl
  | cons scene rest ih =>
    show (scene.ticks ++ ticksOf rest).map (·.2) = scene.events ++ eventsSeen rest
    rw [List.map_append, ih]
    cases scene <;> simp [Scene.ticks, Scene.events]

/-- What happens in the polls of the task happens in its ticks. -/
theorem lags_ticksOf (h : ∀ event ∈ ownSeen log, event.lags = false) :
    ∀ tick ∈ ticksOf log, (tick.1 && tick.2.lags) = false := by
  intro tick htick
  obtain ⟨scene, hscene, hmem⟩ := List.mem_flatMap.mp htick
  cases scene with
  | passed events =>
    obtain ⟨event, -, rfl⟩ := List.mem_map.mp hmem
    rfl
  | polled events answer =>
    obtain ⟨event, hevent, rfl⟩ := List.mem_map.mp hmem
    exact h event (List.mem_flatMap.mpr ⟨_, hscene, hevent⟩)

/-- The answers of a watch, as long as it is there. -/
def TaskAnswer.isLively {I : Type} : TaskAnswer I → Bool
  | .answer .pending | .answer (.item _) => true
  | _ => false

/-- What a record shows of the diary of a watch: the items that it has taken, without the values
that repeat the one before. If there was nothing to show just now, then nothing is left to read, and
the request has come to a result or waits for an execution that runs. -/
structure Diary.Shown [DecidableEq V] (d : Diary P V E) (log : List (Scene P A V E))
    (f : Flights (Key P A) (Work P A V E) (Result V E)) : Prop where
  yields : yielded log = (unrepeated none (d.taken.map (·.2))).map Item.ofValue
  idle : ∀ earlier events, log = earlier ++ [.polled events (.answer .pending)] →
    d.unread = [] ∧ (d.outcome = none → ∃ e work,
      (efforts (ticksOf log)).filterMap Event.entered? = d.received ++ [e] ∧
        f.stage? e = some (.running work))

/-- A record that ends with a scene that is no idle poll shows nothing new. -/
theorem Diary.Shown.concat [DecidableEq V] {d : Diary P V E}
    {f f' : Flights (Key P A) (Work P A V E) (Result V E)} (h : d.Shown log f)
    (unread : List (P × Delivery V)) {scene : Scene P A V E}
    (hitem : scene.item? = none) (hidle : ∀ events, scene ≠ .polled events (.answer .pending)) :
    Diary.Shown { d with unread } (log ++ [scene]) f' := by
  refine ⟨?_, fun earlier events hlog => ?_⟩
  · rw [yielded_concat, hitem]
    exact (List.append_nil _).trans h.yields
  · exact absurd (List.singleton_injective (List.append_inj_right' hlog rfl)) (hidle events)

end Ticks

namespace Session

variable [DecidableEq P] [DecidableEq A] [DecidableEq V] {s s' : Session P A V E} {id : String}
  {capacity : Nat}

/-- Executions that have ended stay so in every step. -/
theorem settled_step (hsound : s.Sound) (st : Step P A V) {e : Nat}
    {outcome : Outcome (Result V E)} (h : s.cache.flights.stage? e = some (.settled outcome)) :
    (s.step st).2.cache.flights.stage? e = some (.settled outcome) := by
  cases hput : st.isPut with
  | false =>
    have hgoes : Goes s.fresh (s.step st).2 := goes_step hsound hput
    exact hgoes.moves.settled h
  | true =>
    obtain ⟨key, entry, rfl⟩ := Step.eq_put_of_isPut hput
    rw [step_snd]
    split <;> exact h

omit [DecidableEq V] in
/-- The channel of results, as it should be. -/
theorem Aware.ring (h : s.Aware .updates capacity) :
    s.cache.env.updates.length = ringLength capacity ∧ s.cache.env.updates.closed = s.closed ∧
      s.cache.env.updates.Full :=
  ⟨h.length, h.closed, (Channel.full_map _ _).mp h.full⟩

/-- The task `id` of a session is a watch that could keep a diary, unless it was dropped, and the
record shows the diary. -/
structure Keeps (capacity : Nat) (id : String) (params : P) (retries : Nat) (dropped : Prop)
    (r : Observed P A V E) : Prop where
  attentive : r.1.Attentive
  aware : r.1.Aware .updates capacity
  relieved : r.1.closed = true → r.1.Relieved
  gone : r.1.tasks.get? id = none → dropped
  lively : ∀ events answer, .polled events answer ∈ r.2 → answer.isLively = true ∨ dropped
  diary : ∃ d : Diary P V E, d.Shown r.2 r.1.cache.flights ∧
    d.Holds (ringLength capacity) params retries (ticksOf r.2) ∧
    ∀ task, r.1.tasks.get? id = some task → ∃ w, task = .watch w ∧
      w.Minds (ringLength capacity) params retries (ticksOf r.2) d r.1.cache ∧
      w.last = lastOk none (d.taken.map (·.2))

namespace Keeps

variable {params : P} {retries : Nat} {dropped : Prop} {r : Observed P A V E}
  {events : List (Event P A V E)}

/-- Something happens in the session, but the task is not polled. -/
theorem passed (h : Keeps capacity id params retries dropped r) (hattentive : s.Attentive)
    (haware : s.Aware .updates capacity) (hrelieved : s.closed = true → s.Relieved)
    (hsettled : ∀ e outcome, r.1.cache.flights.stage? e = some (.settled outcome) →
      s.cache.flights.stage? e = some (.settled outcome))
    (htask : s.tasks.get? id = none ∧ dropped ∨ s.tasks.get? id = r.1.tasks.get? id ∧
      Aired (listeners (· ≠ id) r.1.tasks) (listeners (· ≠ id) s.tasks) events r.1.cache s.cache) :
    Keeps capacity id params retries dropped (s, r.2 ++ [.passed events]) := by
  obtain ⟨d, hshown, hholds, hwatch⟩ := h.diary
  refine ⟨hattentive, haware, hrelieved, fun hnone => ?_, fun events' answer hmem => ?_,
    { d with unread := d.unread ++ updates events }, hshown.concat _ rfl nofun, ?_,
    fun task hget => ?_⟩
  · rcases htask with ⟨-, hdropped⟩ | ⟨hsame, -⟩
    · exact hdropped
    · exact h.gone (hsame ▸ hnone)
  · rcases List.mem_append.mp hmem with hmem | hmem
    · exact h.lively events' answer hmem
    · cases List.mem_singleton.mp hmem
  · rw [ticksOf_concat]
    exact hholds.passed events
  · rcases htask with ⟨hgone, -⟩ | ⟨hsame, haired⟩
    · rw [hgone] at hget
      cases hget
    · obtain ⟨w, rfl, hminds, hlast⟩ := hwatch task (hsame ▸ hget)
      obtain ⟨hlength, hclosed, hfull⟩ := haware.ring
      have hopen : s.closed = false := by
        refine Bool.eq_false_iff.mpr fun hclosed => ?_
        exact absurd (hrelieved hclosed id _ hget) nofun
      have hheard := h.attentive.subscribed.trans (listeners_all (hsame ▸ hget))
      have hawaits := haired.airs.awaits Nat.one_pos hheard hminds.awaits
      rw [ticksOf_concat]
      exact ⟨w, rfl, hminds.passed (hclosed.trans hopen) hfull hlength hawaits hsettled, hlast⟩

/-- A poll of the watch keeps its diary. -/
theorem polls (h : Keeps capacity id params retries dropped r) :
    Keeps capacity id params retries dropped (pollObserved id id r).2 := by
  have hattentive := h.attentive.polls id
  have haware := h.aware.polls id
  have hclosed := closed_pollTask r.1 id
  have hrelieved : (r.1.pollTask id).2.closed = true → (r.1.pollTask id).2.Relieved :=
    fun hclosed' => (h.relieved (hclosed ▸ hclosed')).pollTask id
  obtain ⟨d, hshown, hholds, hwatch⟩ := h.diary
  unfold pollObserved
  cases hget : r.1.tasks.get? id with
  | none =>
    have hpoll : r.1.pollTask id = (.unknown, r.1) := by rw [pollTask, hget]
    rw [hpoll]
    simp only [if_pos, List.drop_length]
    refine ⟨h.attentive, h.aware, h.relieved, h.gone, fun _ _ _ => .inr (h.gone hget), d,
      hshown.concat _ rfl (fun _ h => by cases h), ?_, fun task htask => ?_⟩
    · rw [ticksOf_concat]
      exact (List.append_nil (ticksOf r.2)).symm ▸ hholds
    · rw [hget] at htask
      cases htask
  | some task =>
    obtain ⟨w, rfl, hminds, hlast⟩ := hwatch task hget
    -- The watch of the diary is polled, and writes down what the poll reveals.
    obtain ⟨events, d', hreveals⟩ :=
      Watch.reveals_poll (h.attentive.attuned hget) hminds hlast
    have hendless := w.isLast_poll r.1.cache
    rcases hpolled : w.poll r.1.cache with ⟨answer, w', c⟩
    rw [hpolled] at hreveals hendless
    have hpoll : r.1.pollTask id = (.answer (answer.map Item.ofValue),
        { r.1 with cache := c, tasks := r.1.tasks.insert id (.watch w') }) := by
      simp only [pollTask, hget, Task.poll, hpolled, Task.after_of_not_last hendless]
    rw [hpoll] at hattentive haware hrelieved ⊢
    have hevents : c.env.trace.drop r.1.cache.env.trace.length = events := by
      rw [hreveals.trace, List.drop_left]
    simp only [if_pos, hevents]
    refine ⟨hattentive, haware, hrelieved, fun hnone => ?_, fun events' answer' hmem => ?_, d',
      ⟨?_, ?_⟩, ?_, fun task htask => ?_⟩
    · rw [Table.get?_insert_self] at hnone
      cases hnone
    · rcases List.mem_append.mp hmem with hmem | hmem
      · exact h.lively events' answer' hmem
      · cases List.mem_singleton.mp hmem
        cases answer with
        | pending | item => exact .inl rfl
        | done | panicked => cases hendless
    · rw [yielded_concat, hshown.yields, hreveals.shown, List.map_append]
      cases answer <;> rfl
    · intro earlier events' hlog
      have hscene := List.append_inj_right' hlog rfl
      cases answer with
      | pending =>
        obtain ⟨hread, hwaits⟩ := hreveals.idle rfl
        refine ⟨hread, fun hnone => ?_⟩
        have htries := hreveals.minds.tries
        rw [hnone] at htries
        rw [ticksOf_concat]
        exact htries.entered_of_waits hwaits
      | item | done | panicked => cases hscene
    · rw [ticksOf_concat]
      exact hreveals.minds.holds
    · rw [Table.get?_insert_self] at htask
      cases htask
      rw [ticksOf_concat]
      exact ⟨w', rfl, hreveals.minds, hreveals.last⟩

/-- A poll of any task keeps the diary of the watch. -/
theorem pollObserved (h : Keeps capacity id params retries dropped r) (polled : String) :
    Keeps capacity id params retries dropped (pollObserved id polled r).2 := by
  by_cases hid : polled = id
  · subst hid
    exact h.polls
  · have hsound := h.attentive.steady.sound
    have hairs : Airs (· ≠ id) r.1 (r.1.pollTask polled).2 :=
      airs_pollTask hsound (decide_eq_true hid)
    have hclosed := closed_pollTask r.1 polled
    unfold Session.pollObserved
    simp only [if_neg hid]
    refine h.passed (h.attentive.polls polled) (h.aware.polls polled)
      (fun hclosed' => (h.relieved (hclosed ▸ hclosed')).pollTask polled)
      (fun e outcome => (goes_pollTask hsound polled).moves.settled)
      (.inr ⟨tasks_pollTask_of_ne r.1 (Ne.symm hid), hairs.aired⟩)

/-- The diary of the watch does not depend on the trace before. -/
theorem fresh (h : Keeps capacity id params retries dropped r) :
    Keeps capacity id params retries dropped (r.1.fresh, r.2) := by
  obtain ⟨d, hshown, hholds, hwatch⟩ := h.diary
  refine ⟨h.attentive.fresh, h.aware.fresh, h.relieved, h.gone, h.lively, d, hshown, hholds,
    fun task hget => ?_⟩
  obtain ⟨w, rfl, hminds, hlast⟩ := hwatch task hget
  refine ⟨w, rfl, ⟨hminds.params_eq, hminds.retries_eq, hminds.opened, hminds.full, hminds.length,
    hminds.awaits, hminds.peruses, hminds.tries, hminds.spends, hminds.fromUpdates,
    hminds.fromRequest⟩, hlast⟩

/-- A step that does not begin the name again keeps the diary of the watch. -/
theorem stepObserved (h : Keeps capacity id params retries dropped r) {st : Step P A V}
    (hbegins : ¬ st.begins id) (hdropped : st = .drop id ∨ st = .close → dropped) :
    Keeps capacity id params retries dropped (stepObserved id r st) := by
  refine keeps_stepObserved (fun _ hr => hr.fresh) (fun _ polled hr => hr.pollObserved polled) h ?_
  intro hpoll hdrain hjoin
  have hsound := h.attentive.steady.sound
  refine h.fresh.passed (h.attentive.steps st) (h.aware.steps st) (relieved_step h.relieved st)
    (fun e outcome => settled_step hsound st) ?_
  rcases passes_step hsound hbegins hpoll hdrain hjoin with hgone | ⟨hsame, hairs⟩
  · refine .inl ⟨hgone, ?_⟩
    by_cases htouched : id ∈ st.touched r.1.fresh
    · have hdrops := eq_of_mem_touched htouched hbegins hpoll hdrain hjoin
      exact hdropped (hdrops.imp_right And.left)
    · refine h.gone ?_
      rw [step_snd] at hgone
      split at hgone
      · exact hgone
      · exact (tasks_perform_of_not_touched r.1.fresh htouched).symm.trans hgone
  · exact .inr ⟨hsame, hairs.aired⟩

end Keeps

/-- A watch that has just begun has read, taken and asked for nothing. -/
theorem keeps_begin (hattentive : s.Attentive) (haware : s.Aware .updates capacity)
    (hopen : s.closed = false) {messages : List (P × Delivery V)}
    (hcarries : s.cache.env.updates.Carries messages)
    (id : String) (params : P) (retries : Nat) (dropped : Prop) :
    Keeps capacity id params retries dropped
      ((s.step (.begin id (.watch params retries))).2, []) := by
  have hbegun : (s.step (.begin id (.watch params retries))).2 =
      s.fresh.beginTask id (.watch params retries) := by
    rw [step_snd, hopen]
    rfl
  have hget : (s.step (.begin id (.watch params retries))).2.tasks.get? id =
      some (.watch (Watch.create params retries s.fresh.cache).1) := by
    rw [hbegun]
    exact Table.get?_insert_self _ _ _
  have hobserves := observes_begin hattentive hopen hcarries id params retries
  have haware' := haware.steps (.begin id (.watch params retries))
  obtain ⟨hlength, hclosed, hfull⟩ := haware'.ring
  have hopened : (s.step (.begin id (.watch params retries))).2.closed = false := by
    rw [hbegun]
    have hkept : (s.fresh.perform (.begin id (.watch params retries))).2.closed = s.closed :=
      closed_perform s.fresh nofun
    exact hkept.trans hopen
  let diary : Diary P V E := ⟨[], [], [], [], none⟩
  have htries : Tries (Key.ofParams params) retries
      (.loading retries (.unstarted (Key.ofParams params) true) : Inquiry P A V E) [] [] none :=
    .unasked
  refine ⟨hattentive.steps _, haware', fun hclosed' => ?_, fun hnone => ?_, nofun, diary,
    ⟨rfl, fun earlier events hlog => ?_⟩, ?_, fun task htask => ?_⟩
  · cases hopened.symm.trans hclosed'
  · cases hnone.symm.trans hget
  · cases earlier <;> cases hlog
  · exact ⟨.comes, ⟨_, htries⟩, List.nodup_nil, rfl, rfl⟩
  · obtain ⟨w, rfl, hvigilant⟩ := hobserves.watching task htask
    obtain rfl : (Watch.create params retries s.fresh.cache).1 = w := by
      cases hget.symm.trans htask
      rfl
    obtain ⟨unread, hawaits, hupToDate⟩ := hvigilant.upToDate nofun
    obtain rfl : unread = [] := List.suffix_nil.mp hupToDate.within
    refine ⟨_, rfl, ⟨rfl, rfl, hclosed.trans hopened, hfull, hlength, hawaits, .comes,
      htries, ⟨List.nodup_nil, List.forall_mem_nil _, fun _ _ heq => ?_⟩, rfl, rfl⟩, rfl⟩
    cases heq

/-- A record of a watch that was begun in some session over a new cache. -/
theorem keeps_run (setup : Setup (Store (Key P A) V)) (source : Source P V E)
    (before after : List (Step P A V)) (id : String) (params : P) (retries : Nat)
    (hopen : ((create (Cache.create setup source)).run before).2.closed = false)
    (hbegins : ∀ st ∈ after, ¬ st.begins id) :
    let begun := (((create (Cache.create setup source)).run before).2.step
      (.begin id (.watch params retries))).2
    let record := runObserved id begun after
    record.1 = (begun.run after).2 ∧ eventsSeen record.2 = eventsOf (begun.run after).1 ∧
      Keeps setup.broadcastCapacity id params retries (.drop id ∈ after ∨ .close ∈ after)
        record := by
  intro begun record
  have hattentive := attentive_run setup source before
  have hcarries := (Recounts.run setup source before).delivered.carries
  have hmay : ∀ st ∈ after, ¬ st.begins id ∧
      (st = .drop id ∨ st = .close → .drop id ∈ after ∨ .close ∈ after) := by
    intro st hst
    refine ⟨hbegins st hst, fun hdrops => ?_⟩
    rcases hdrops with rfl | rfl
    · exact .inl hst
    · exact .inr hst
  exact ⟨fst_foldl_stepObserved id after (begun, []),
    eventsSeen_foldl_stepObserved (hattentive.steps _) after,
    keeps_foldl_stepObserved (fun _ _ h hst => h.stepObserved hst.1 hst.2) hmay
      (keeps_begin hattentive (aware_run .updates setup source before) hopen hcarries id params
        retries _)⟩

end Session

/-! ## What is yielded -/

/-- The value that a task yields. -/
def Item.value? : Item P V E → Option V
  | .value v => some v
  | _ => none

/-- The failure that a task yields. -/
def Item.failure? : Item P V E → Option (Failure E)
  | .failure f => some f
  | _ => none

/-- Items of a watch keep their values when they are yielded. -/
theorem values_ofValue (items : List (Watch.Item V E)) :
    (items.map (Item.ofValue (P := P))).filterMap Item.value? = valuesOf items := by
  rw [List.filterMap_map, valuesOf]
  congr 1
  funext item
  cases item <;> rfl

/-- Items of a watch keep their failures when they are yielded. -/
theorem failures_ofValue (items : List (Watch.Item V E)) :
    (items.map (Item.ofValue (P := P))).filterMap Item.failure? = failuresOf items := by
  rw [List.filterMap_map, failuresOf]
  congr 1
  funext item
  cases item <;> rfl

/-- If the one side takes no failures, all failures are those of the other. -/
theorem failuresOf_request {taken : List (Side × Watch.Item V E)}
    (h : failuresOf (Side.updates.items taken) = []) :
    failuresOf (taken.map (·.2)) = failuresOf (Side.request.items taken) := by
  induction taken with
  | nil => rfl
  | cons first rest ih =>
    obtain ⟨side, item⟩ := first
    have hfirst : ∀ side' : Side,
        side'.items [(side, item)] = if side' = side then [item] else [] :=
      fun side' => Side.items_map side' side [item]
    have hsplit : ∀ side' : Side, failuresOf (side'.items ((side, item) :: rest)) =
        failuresOf (if side' = side then [item] else []) ++ failuresOf (side'.items rest) := by
      intro side'
      rw [← hfirst, ← failuresOf_append, ← Side.items_append, List.singleton_append]
    rw [hsplit, List.append_eq_nil_iff] at h
    rw [hsplit, List.map_cons, ← List.singleton_append, failuresOf_append, ih h.2]
    cases side with
    | updates =>
      have hnone : failuresOf [item] = [] := h.1
      rw [hnone, if_neg nofun]
      rfl
    | request => rw [if_pos rfl]

section Diary

variable [DecidableEq P] [DecidableEq V] {room : Nat} {params : P} {retries : Nat}
  {log : List (Scene P A V E)} {d : Diary P V E}
  {f : Flights (Key P A) (Work P A V E) (Result V E)}

/-- The failures that are yielded are those of the request. -/
theorem Diary.Holds.failures (h : d.Holds room params retries (ticksOf log))
    (hshown : d.Shown log f) :
    (yielded log).filterMap Item.failure? = failuresOf d.outcome.toList := by
  have hnone : failuresOf (Side.updates.items d.taken) = [] := by
    rw [h.fromUpdates]
    exact List.filterMap_eq_nil_iff.mpr fun item hitem => by
      obtain ⟨m, -, rfl⟩ := List.mem_map.mp hitem
      rfl
  rw [hshown.yields, failures_ofValue, failuresOf_unrepeated, failuresOf_request hnone,
    h.fromRequest, failuresOf_map]

omit [DecidableEq P] in
/-- Every value that is taken is yielded, then or before. -/
theorem Diary.Shown.mem_yielded (h : d.Shown log f) {value : V}
    (htaken : .ok value ∈ d.taken.map (·.2)) : .value value ∈ yielded log := by
  rw [h.yields]
  rcases mem_unrepeated none htaken with hlast | hshown
  · cases hlast
  · exact List.mem_map.mpr ⟨_, hshown, rfl⟩

end Diary

end ReadThrough
