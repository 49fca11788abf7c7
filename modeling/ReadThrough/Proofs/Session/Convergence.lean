import ReadThrough.Proofs.Session.UpToDate
import ReadThrough.Proofs.Session.Listeners
/-!
# Proofs: a watch converges to the latest result

A session can be run with a record of the polls of one task, and of all that happens between them.
The record belongs to the very run. Whenever a poll of a watch has nothing to show, and the watch
has never missed anything, the last value that it has shown is that of the latest result which was
published for its parameters since it began, whatever else goes on in the session.
-/

namespace ReadThrough

variable {P A V E : Type}

/-! ## Records of polls -/

/-- A part of what happens to a task. -/
inductive Scene (P A V E : Type) where
  /-- Something happens, but the task is not polled. -/
  | passed (events : List (Event P A V E))
  /-- The task is polled. -/
  | polled (events : List (Event P A V E)) (answer : TaskAnswer (Item P V E))

namespace Scene

def events : Scene P A V E → List (Event P A V E)
  | .passed events | .polled events _ => events

/-- What happens in a poll of the task. -/
def own : Scene P A V E → List (Event P A V E)
  | .passed _ => []
  | .polled events _ => events

/-- The value that the task shows. -/
def value? : Scene P A V E → Option V
  | .polled _ (.answer (.item (.value value))) => some value
  | _ => none

end Scene

/-- What has happened, in order. -/
def eventsSeen (log : List (Scene P A V E)) : List (Event P A V E) := log.flatMap Scene.events

/-- What has happened in the polls of the task, in order. -/
def ownSeen (log : List (Scene P A V E)) : List (Event P A V E) := log.flatMap Scene.own

/-- The values that the task has shown, in order. -/
def valuesShown (log : List (Scene P A V E)) : List V := log.filterMap Scene.value?

section Scenes

variable {log : List (Scene P A V E)} {events : List (Event P A V E)}

/-- What has happened goes on with each part of the record. -/
theorem eventsSeen_concat (log : List (Scene P A V E)) (scene : Scene P A V E) :
    eventsSeen (log ++ [scene]) = eventsSeen log ++ scene.events := by
  rw [eventsSeen, List.flatMap_append, List.flatMap_singleton, eventsSeen]

/-- What has happened in the polls of the task goes on with each part of the record. -/
theorem ownSeen_concat (log : List (Scene P A V E)) (scene : Scene P A V E) :
    ownSeen (log ++ [scene]) = ownSeen log ++ scene.own := by
  rw [ownSeen, List.flatMap_append, List.flatMap_singleton, ownSeen]

/-- While the task is not polled it shows no value. -/
theorem valuesShown_passed : valuesShown (log ++ [.passed events]) = valuesShown log := by
  rw [valuesShown, List.filterMap_append, valuesShown]
  exact List.append_nil _

/-- The last value shown, after one more poll of a watch. -/
theorem getLast?_valuesShown (answer : Answer (Watch.Item V E)) :
    (valuesShown (log ++ [.polled events (.answer (answer.map Item.ofValue))])).getLast? =
      answer.shown (valuesShown log).getLast? := by
  have hsame : ∀ {given : TaskAnswer (Item P V E)}, (Scene.polled events given).value? = none →
      valuesShown (log ++ [.polled events given]) = valuesShown log := by
    intro given hnone
    rw [valuesShown, List.filterMap_append, List.filterMap_cons_none hnone, List.filterMap_nil,
      List.append_nil, valuesShown]
  cases answer with
  | pending => exact congrArg List.getLast? (hsame rfl)
  | done => exact congrArg List.getLast? (hsame rfl)
  | panicked message => exact congrArg List.getLast? (hsame rfl)
  | item item =>
    cases item with
    | error failure => exact congrArg List.getLast? (hsame rfl)
    | ok value =>
      rw [valuesShown, List.filterMap_append]
      exact List.getLast?_concat

end Scenes

namespace Session

/-- A session, with a record of what has happened to one of its tasks. -/
abbrev Observed (P A V E : Type) := Session P A V E × List (Scene P A V E)

variable [DecidableEq P] [DecidableEq A] [DecidableEq V]

/-- A poll of the task `polled`, in a record of the task `id`. -/
def pollObserved (id polled : String) (r : Observed P A V E) :
    TaskAnswer (Item P V E) × Observed P A V E :=
  let (answer, s) := r.1.pollTask polled
  let events := s.cache.env.trace.drop r.1.cache.env.trace.length
  (answer, s, r.2 ++ [if polled = id then .polled events answer else .passed events])

/-- A step, in a record of the task `id`. -/
def stepObserved (id : String) (r : Observed P A V E) (st : Step P A V) : Observed P A V E :=
  let fresh : Observed P A V E := (r.1.fresh, r.2)
  match st with
  | .poll polled => (pollObserved id polled fresh).2
  | .drain polled => (drain (pollObserved id polled) (fresh.1.patience [polled]) fresh).2
  | .join ids => (join (pollObserved id) (fresh.1.patience ids) ids fresh).2
  | st =>
    let (report, s) := r.1.step st
    (s, r.2 ++ [.passed report.events])

/-- A run, with a record of the task `id`. -/
def runObserved (id : String) (s : Session P A V E) (steps : List (Step P A V)) :
    Observed P A V E :=
  steps.foldl (stepObserved id) (s, [])

/-- The record does not change the step. -/
theorem fst_stepObserved (id : String) (r : Observed P A V E) (st : Step P A V) :
    (stepObserved id r st).1 = (r.1.step st).2 := by
  have hanswer : ∀ polled (r : Observed P A V E),
      (pollObserved id polled r).1 = (r.1.pollTask polled).1 := fun _ _ => rfl
  have hstate : ∀ polled (r : Observed P A V E),
      (pollObserved id polled r).2.1 = (r.1.pollTask polled).2 := fun _ _ => rfl
  have hfresh : ((r.1.fresh, r.2) : Observed P A V E).1 = r.1.fresh := rfl
  obtain ⟨hpoll, hdrain, hjoin⟩ := step_record hanswer hstate hfresh
  cases st with
  | poll polled => exact hpoll polled
  | drain polled => exact hdrain polled
  | join ids => exact hjoin ids
  | _ => rfl

/-- The session of an observed run is the one of the run. -/
theorem fst_foldl_stepObserved (id : String) (steps : List (Step P A V)) (r : Observed P A V E) :
    (steps.foldl (stepObserved id) r).1 = (r.1.run steps).2 := by
  induction steps generalizing r with
  | nil => rfl
  | cons st rest ih =>
    rw [List.foldl_cons, ih, fst_stepObserved]
    rfl

/-- All that is told on the way from one record to another is recorded. -/
def Logs (r r' : Observed P A V E) : Prop :=
  ∃ part, r'.2 = r.2 ++ part ∧ r'.1.cache.env.trace = r.1.cache.env.trace ++ eventsSeen part

section Logs

variable {id : String} {r r' r'' : Observed P A V E}

omit [DecidableEq P] [DecidableEq A] [DecidableEq V] in
/-- Where nothing happens nothing is recorded. -/
theorem Logs.refl (r : Observed P A V E) : Logs r r :=
  ⟨[], (List.append_nil _).symm, (List.append_nil _).symm⟩

omit [DecidableEq P] [DecidableEq A] [DecidableEq V] in
/-- What is recorded in two parts is recorded. -/
theorem Logs.trans (h : Logs r r') (h' : Logs r' r'') : Logs r r'' := by
  obtain ⟨part, hlog, htrace⟩ := h
  obtain ⟨part', hlog', htrace'⟩ := h'
  refine ⟨part ++ part', ?_, ?_⟩
  · rw [hlog', hlog, List.append_assoc]
  · rw [htrace', htrace, eventsSeen, eventsSeen, eventsSeen, List.flatMap_append,
      List.append_assoc]

/-- All that is told in a poll is recorded. -/
theorem logs_pollObserved (hsound : r.1.Sound) (polled : String) :
    Logs r (pollObserved id polled r).2 := by
  have hairs : Airs (fun _ => true) r.1 (r.1.pollTask polled).2 := airs_pollTask hsound rfl
  refine ⟨_, rfl, hairs.aired.trace.trans (congrArg (_ ++ ·) ?_)⟩
  split <;> exact (List.append_nil _).symm

/-- What the record of a step adds is what the step reports. -/
theorem eventsSeen_stepObserved (hsound : r.1.Sound) (st : Step P A V) :
    eventsSeen (stepObserved id r st).2 = eventsSeen r.2 ++ (r.1.step st).1.events := by
  have hadded : ∀ {r' : Observed P A V E}, Logs (r.1.fresh, r.2) r' →
      r'.1 = (r.1.step st).2 → eventsSeen r'.2 = eventsSeen r.2 ++ (r.1.step st).1.events := by
    intro r' hlogs hsame
    obtain ⟨part, hlog, htrace⟩ := hlogs
    have hevents : (r.1.step st).1.events = eventsSeen part := by
      rw [hsame] at htrace
      exact htrace
    rw [hlog, hevents, eventsSeen, List.flatMap_append, eventsSeen, eventsSeen]
  have hsame := fst_stepObserved id r st
  have hpoll : ∀ polled (r : Observed P A V E), r.1.Sound →
      Logs r (pollObserved id polled r).2 ∧ (pollObserved id polled r).2.1.Sound :=
    fun polled r hs => ⟨logs_pollObserved hs polled, (goes_pollTask hs polled).sound⟩
  cases st with
  | poll polled => exact hadded (hpoll polled (r.1.fresh, r.2) hsound).1 hsame
  | drain polled =>
    have hdrain := drain_under (s := (r.1.fresh, r.2)) Logs.refl Logs.trans (hpoll polled)
      (r.1.fresh.patience [polled]) hsound
    exact hadded hdrain.1 hsame
  | join ids =>
    have hjoin := join_under (s := (r.1.fresh, r.2)) Logs.refl Logs.trans
      (fun polled (_ : polled ∈ ids) => hpoll polled) (r.1.fresh.patience ids) hsound
    exact hadded hjoin.1 hsame
  | _ => exact eventsSeen_concat r.2 _

/-- The record of a run has all events that the run reports. -/
theorem eventsSeen_foldl_stepObserved (h : r.1.Attentive) (steps : List (Step P A V)) :
    eventsSeen (steps.foldl (stepObserved id) r).2 =
      eventsSeen r.2 ++ eventsOf (r.1.run steps).1 := by
  induction steps generalizing r with
  | nil => exact (List.append_nil _).symm
  | cons st rest ih =>
    have hnext : (stepObserved id r st).1.Attentive := by
      rw [fst_stepObserved]
      exact h.steps st
    rw [List.foldl_cons, ih hnext, fst_stepObserved, eventsSeen_stepObserved h.steady.sound,
      List.append_assoc]
    rfl

end Logs

/-- What each poll keeps, and each step that polls no task by name, holds of a record. -/
theorem keeps_stepObserved {K : Observed P A V E → Prop} {id : String}
    (hfresh : ∀ r, K r → K (r.1.fresh, r.2))
    (hpoll : ∀ r polled, K r → K (pollObserved id polled r).2)
    {r : Observed P A V E} (h : K r) {st : Step P A V}
    (hpass : (∀ id, st ≠ .poll id) → (∀ id, st ≠ .drain id) → (∀ ids, st ≠ .join ids) →
      K ((r.1.step st).2, r.2 ++ [.passed (r.1.step st).1.events])) :
    K (stepObserved id r st) := by
  have hstart := hfresh r h
  cases st with
  | poll polled => exact hpoll _ polled hstart
  | drain polled => exact drain_keeps (fun r hr => hpoll r polled hr) _ hstart
  | join ids => exact join_keeps (fun polled _ r hr => hpoll r polled hr) _ hstart
  | _ => exact hpass (fun _ => nofun) (fun _ => nofun) fun _ => nofun

/-- What each step keeps, a run keeps. -/
theorem keeps_foldl_stepObserved {K : Observed P A V E → Prop} {may : Step P A V → Prop}
    {id : String} (hstep : ∀ r st, K r → may st → K (stepObserved id r st))
    {steps : List (Step P A V)} (hsteps : ∀ st ∈ steps, may st) {r : Observed P A V E} (h : K r) :
    K (steps.foldl (stepObserved id) r) := by
  induction steps generalizing r with
  | nil => exact h
  | cons st rest ih =>
    obtain ⟨hfirst, hrest⟩ := List.forall_mem_cons.mp hsteps
    exact ih hrest (hstep r st h hfirst)

/-! ## The record of a watch -/

/-- Whenever a poll of the task has had nothing to show, and the task has never missed anything, the
last value shown was that of the latest result for the parameters. -/
def Converged (params : P) (log : List (Scene P A V E)) : Prop :=
  ∀ earlier events later, log = earlier ++ .polled events (.answer .pending) :: later →
    (∀ event ∈ ownSeen earlier ++ events, event.lags = false) →
    (valuesShown earlier).getLast? = newest params (updates (eventsSeen earlier ++ events))

/-- A watch is what its record tells of it, and unless it has missed anything it is up to date with
the results that were published since it began. -/
structure Vigilant (params : P) (log : List (Scene P A V E)) (w : Watch P A V E)
    (c : Cache P A V E) : Prop where
  params : w.params = params
  last : w.last = (valuesShown log).getLast?
  upToDate : (∀ event ∈ ownSeen log, event.lags = false) → ∃ unread,
    c.env.updates.Awaits w.position unread ∧
      w.UpToDate (updates (eventsSeen log)) unread w.turn c.flights

/-- The task `id` of a session is a watch, unless it is gone, and its record is right. -/
structure Observes (id : String) (params : P) (r : Observed P A V E) : Prop where
  attentive : r.1.Attentive
  watching : ∀ task, r.1.tasks.get? id = some task →
    ∃ w, task = .watch w ∧ Vigilant params r.2 w r.1.cache
  converged : Converged params r.2

section Observes

variable {id : String} {params : P} {r r' : Observed P A V E} {log : List (Scene P A V E)}
  {s s' : Session P A V E} {w w' : Watch P A V E} {events : List (Event P A V E)}

omit [DecidableEq A] [DecidableEq V] in
/-- A record stays converged with a poll that has nothing to show, if the last value shown is that
of the newest result. -/
theorem Converged.concat (h : Converged params log) {scene : Scene P A V E}
    (hscene : ∀ events, scene = .polled events (.answer .pending) →
      (∀ event ∈ ownSeen log ++ events, event.lags = false) →
      (valuesShown log).getLast? = newest params (updates (eventsSeen log ++ events))) :
    Converged params (log ++ [scene]) := by
  intro earlier events later hsplit
  rcases append_eq_split hsplit with ⟨rest, hlog⟩ | ⟨begun, rfl, hbegun⟩
  · exact h earlier events rest hlog
  · cases begun with
    | nil =>
      rw [List.append_nil]
      exact hscene events (List.head_eq_of_cons_eq hbegun)
    | cons first begun => cases begun <;> cases hbegun

omit [DecidableEq A] [DecidableEq V] in
/-- Others are busy meanwhile, and all that they publish is sent to the watch. -/
theorem Vigilant.passed (h : Vigilant params log w s.cache)
    (hsuited : (Task.watch w).Suited s.cache.flights) (hkeyed : Keyed s.cache.flights) {k k' : Nat}
    (hheard : s.cache.env.updates.subscribers = 1 + k)
    (haired : Aired k k' events s.cache s'.cache) :
    Vigilant params (log ++ [.passed events]) w s'.cache := by
  refine ⟨h.params, h.last.trans (by rw [valuesShown_passed]), fun hlags => ?_⟩
  rw [ownSeen_concat, Scene.own, List.append_nil] at hlags
  obtain ⟨unread, hawaits, hupToDate⟩ := h.upToDate hlags
  rw [eventsSeen_concat, updates_append]
  refine ⟨_, haired.airs.awaits Nat.one_pos hheard hawaits, hupToDate.hears ?_⟩
  intro load d hload hdue
  cases load with
  | unstarted | alone => exact hdue.elim
  | attached e =>
    rcases haired.lands hkeyed e d hdue with hbefore | ⟨y, hy, hmem⟩
    · exact .inl hbefore
    · -- The execution is for the parameters of the watch.
      obtain ⟨x, hx, haim⟩ := (hsuited _ hload).kept haired.keeps
      obtain rfl : x = y := Option.some.inj (hx.symm.trans hy)
      have hkey : Key.ofParams w.params = x.key := congrArg Prod.fst (Option.some.inj haim)
      rw [← hkey] at hmem
      exact .inr hmem

omit [DecidableEq V] in
/-- In a session in order, the subscription of a watch agrees with the channel. -/
theorem Attentive.attuned (h : s.Attentive) (hget : s.tasks.get? id = some (.watch w)) :
    w.Attuned (loadsOf (s.tasks.erase id)) s.cache := by
  have hattended : Attended ⟨s.cache, loadsOf s.tasks⟩ := h.steady.attended
  rw [loadsOf_of_get? hget] at hattended
  refine ⟨hattended, h.keyed, fun load hload => ?_, ?_, h.holds⟩
  · have hsuits := h.steady.aimed hget load hload
    cases load with
    | unstarted key share => exact (congrArg Prod.fst (Option.some.inj hsuits)).symm
    | alone work => exact (congrArg Prod.fst (Option.some.inj hsuits)).symm
    | attached e =>
      obtain ⟨x, hx, haim⟩ := hsuits
      exact ⟨x, hx, (congrArg Prod.fst (Option.some.inj haim)).symm⟩
  · rw [h.subscribed, listeners_all hget]
    exact Nat.lt_of_lt_of_le Nat.one_pos (Nat.le_add_right 1 _)

omit [DecidableEq V] in
/-- A poll of the watch is recorded. -/
theorem Vigilant.polled (h : Vigilant params log w s.cache) {loads : Multiset (Load P A V E)}
    {answer : Answer (Watch.Item V E)} {c : Cache P A V E}
    (hshows : Watch.Shows loads w s.cache events answer w' c) :
    Vigilant params (log ++ [.polled events (.answer (answer.map Item.ofValue))]) w' c := by
  refine ⟨hshows.params.trans h.params, ?_, fun hlags => ?_⟩
  · rw [hshows.last, h.last, getLast?_valuesShown]
  · rw [ownSeen_concat] at hlags
    obtain ⟨hbefore, hown⟩ := List.forall_mem_append.mp hlags
    obtain ⟨unread, hawaits, hupToDate⟩ := h.upToDate hbefore
    obtain ⟨left, hawaits', hupToDate', -⟩ := hshows.upToDate hown hawaits hupToDate
    rw [eventsSeen_concat, updates_append]
    exact ⟨left, hawaits', hupToDate'⟩

omit [DecidableEq V] in
/-- If there was nothing to show, all that was published has been shown. -/
theorem Vigilant.converged (h : Vigilant params log w s.cache) {loads : Multiset (Load P A V E)}
    {c : Cache P A V E} (hshows : Watch.Shows loads w s.cache events .pending w' c)
    (hlags : ∀ event ∈ ownSeen log ++ events, event.lags = false) :
    (valuesShown log).getLast? = newest params (updates (eventsSeen log ++ events)) := by
  obtain ⟨hbefore, hown⟩ := List.forall_mem_append.mp hlags
  obtain ⟨unread, hawaits, hupToDate⟩ := h.upToDate hbefore
  obtain ⟨left, -, hupToDate', hnone⟩ := hshows.upToDate hown hawaits hupToDate
  have hnone' : ∀ m ∈ left, m.1 ≠ w'.params := by
    rw [hshows.params]
    exact hnone rfl
  have hlast : w'.last = w.last := hshows.last
  rw [← h.last, ← hlast, hupToDate'.shown hnone', hshows.params, h.params, updates_append]

/-- A poll of the watch keeps its record right. -/
theorem Observes.polls (h : Observes id params r) :
    Observes id params (pollObserved id id r).2 := by
  have hattentive := h.attentive.polls id
  unfold pollObserved
  cases hget : r.1.tasks.get? id with
  | none =>
    have hpoll : r.1.pollTask id = (.unknown, r.1) := by rw [pollTask, hget]
    rw [hpoll]
    refine ⟨h.attentive, fun task htask => ?_, h.converged.concat fun events heq => ?_⟩
    · rw [hget] at htask
      cases htask
    · rw [if_pos rfl] at heq
      cases heq
  | some task =>
    obtain ⟨w, rfl, hvigilant⟩ := h.watching task hget
    have hallowed : w.Allowed fun _ _ => True := trivial
    have hpursued : Watch.Pursued _ 0 _ _ _ := Watch.pursued_poll hallowed r.1.cache 0
    obtain ⟨events, hshows⟩ := Watch.shows_poll (h.attentive.attuned hget)
    rcases hwatch : w.poll r.1.cache with ⟨answer, w', c⟩
    rw [hwatch] at hpursued hshows
    have hafter : Task.after answer (.watch w') = .watch w' := by
      cases answer with
      | pending | item => rfl
      | done | panicked => cases hpursued.endless
    have hpoll : r.1.pollTask id = (.answer (answer.map Item.ofValue),
        { r.1 with cache := c, tasks := r.1.tasks.insert id (.watch w') }) := by
      simp only [pollTask, hget, Task.poll, hwatch, hafter]
    rw [hpoll] at hattentive ⊢
    have hevents : c.env.trace.drop r.1.cache.env.trace.length = events := by
      rw [hshows.trace, List.drop_left]
    simp only [if_pos, hevents]
    refine ⟨hattentive, fun task htask => ?_, h.converged.concat fun events' heq => ?_⟩
    · rw [Table.get?_insert_self] at htask
      cases htask
      exact ⟨w', rfl, hvigilant.polled hshows⟩
    · cases answer with
      | pending =>
        cases heq
        exact hvigilant.converged hshows
      | done | panicked | item => cases heq

omit [DecidableEq V] in
/-- Something happens in the session, but the task is not polled. -/
theorem Observes.passed (h : Observes id params r) (hattentive : s.Attentive)
    (htask : s.tasks.get? id = none ∨ s.tasks.get? id = r.1.tasks.get? id ∧
      Aired (listeners (· ≠ id) r.1.tasks) (listeners (· ≠ id) s.tasks) events r.1.cache s.cache) :
    Observes id params (s, r.2 ++ [.passed events]) := by
  refine ⟨hattentive, fun task hget => ?_, h.converged.concat fun _ heq => by cases heq⟩
  rcases htask with hgone | ⟨hsame, haired⟩
  · rw [hgone] at hget
    cases hget
  · rw [hsame] at hget
    obtain ⟨w, rfl, hvigilant⟩ := h.watching task hget
    have hheard := h.attentive.subscribed.trans (listeners_all hget)
    exact ⟨w, rfl, hvigilant.passed (h.attentive.steady.aimed hget) h.attentive.keyed hheard haired⟩

/-- A poll of any task keeps the record of the watch right. -/
theorem Observes.pollObserved (h : Observes id params r) (polled : String) :
    Observes id params (pollObserved id polled r).2 := by
  by_cases hid : polled = id
  · subst hid
    exact h.polls
  · have hsound := h.attentive.steady.sound
    have hairs : Airs (· ≠ id) r.1 (r.1.pollTask polled).2 :=
      airs_pollTask hsound (decide_eq_true hid)
    unfold Session.pollObserved
    simp only [if_neg hid]
    exact h.passed (h.attentive.polls polled)
      (.inr ⟨tasks_pollTask_of_ne r.1 (Ne.symm hid), hairs.aired⟩)

/-- A step that polls no task by name leaves a task alone, unless it is dropped. -/
theorem passes_perform (hsound : s.Sound) {st : Step P A V} (hbegins : ¬ st.begins id)
    (hpoll : ∀ id, st ≠ .poll id) (hdrain : ∀ id, st ≠ .drain id) (hjoin : ∀ ids, st ≠ .join ids) :
    (s.perform st).2.tasks.get? id = none ∨
      (s.perform st).2.tasks.get? id = s.tasks.get? id ∧ Airs (· ≠ id) s (s.perform st).2 := by
  by_cases htouched : id ∈ st.touched s
  · refine .inl ?_
    cases st with
    | poll id' => exact absurd rfl (hpoll id')
    | drain id' => exact absurd rfl (hdrain id')
    | join ids => exact absurd rfl (hjoin ids)
    | begin id' request =>
      have hid : id = id' := List.mem_singleton.mp htouched
      exact absurd (decide_eq_true hid.symm) hbegins
    | drop id' => exact (tasks_dropTask s id id').trans (if_pos (List.mem_singleton.mp htouched))
    | close => exact (tasks_dropTasks s id s.dependents).trans (if_pos htouched)
    | _ => cases htouched
  · have hairs : Airs (· ≠ id) s (s.perform st).2 := airs_perform hsound fun id' hid' =>
      decide_eq_true fun heq => htouched (heq ▸ hid')
    rcases tasks_perform s hbegins hpoll hdrain hjoin with hsame | hgone
    · exact .inr ⟨hsame, hairs⟩
    · exact .inl hgone

/-- A step that polls nobody by name leaves the watch alone or takes it away. -/
theorem passes_step (hsound : s.Sound) {st : Step P A V} (hbegins : ¬ st.begins id)
    (hpoll : ∀ id, st ≠ .poll id) (hdrain : ∀ id, st ≠ .drain id) (hjoin : ∀ ids, st ≠ .join ids) :
    (s.step st).2.tasks.get? id = none ∨
      (s.step st).2.tasks.get? id = s.fresh.tasks.get? id ∧
        Airs (· ≠ id) s.fresh (s.step st).2 := by
  have hfresh : s.fresh.Sound := hsound
  rw [step_snd]
  split
  · exact .inr ⟨rfl, .refl _⟩
  · exact passes_perform hfresh hbegins hpoll hdrain hjoin

/-- A step that does not begin the name again keeps the record of the watch right. -/
theorem Observes.stepObserved (h : Observes id params r) {st : Step P A V}
    (hbegins : ¬ st.begins id) : Observes id params (stepObserved id r st) := by
  have hfresh : ∀ r : Observed P A V E, Observes id params r →
      Observes id params (r.1.fresh, r.2) := by
    intro r h
    refine ⟨h.attentive.fresh, fun task hget => ?_, h.converged⟩
    obtain ⟨w, rfl, hparams, hlast, hupToDate⟩ := h.watching task hget
    exact ⟨w, rfl, hparams, hlast, hupToDate⟩
  refine keeps_stepObserved hfresh (fun _ polled hr => hr.pollObserved polled) h ?_
  intro hpoll hdrain hjoin
  have hstep := passes_step h.attentive.steady.sound hbegins hpoll hdrain hjoin
  exact (hfresh r h).passed (h.attentive.steps st) (hstep.imp_right fun h => ⟨h.1, h.2.aired⟩)

/-- A watch that has just begun has nothing to read. -/
theorem observes_begin (h : s.Attentive) (hopen : s.closed = false)
    {messages : List (P × Delivery V)} (hcarries : s.cache.env.updates.Carries messages)
    (id : String) (params : P) (retries : Nat) :
    Observes id params ((s.step (.begin id (.watch params retries))).2, []) := by
  have hbegun : (s.step (.begin id (.watch params retries))).2 =
      s.fresh.beginTask id (.watch params retries) := by
    rw [step_snd, hopen]
    rfl
  refine ⟨h.steps _, fun task hget => ?_, fun earlier events later hsplit => ?_⟩
  · rw [hbegun] at hget ⊢
    let created := Watch.create params retries s.fresh.cache
    obtain rfl : .watch created.1 = task :=
      Option.some.inj ((Table.get?_insert_self _ _ _).symm.trans hget)
    have hheard : created.2.env.updates.subscribers =
        1 + listeners (fun _ => true) s.tasks := by
      rw [← h.subscribed, Nat.add_comm]
      rfl
    have hawaits : created.2.env.updates.Awaits created.1.position [] := hcarries.awaits_subscribe
    -- The task that had the name before is dropped.
    have hdrop : ∃ events, updates events = [] ∧ Aired (listeners (fun _ => true) s.tasks) _ events
        created.2 (dropTask id { s.fresh with cache := created.2 }).cache :=
      aired_dropTask { s.fresh with cache := created.2 } rfl
    obtain ⟨events, hnone, haired⟩ := hdrop
    have hafter := haired.airs.awaits Nat.one_pos hheard hawaits
    rw [hnone] at hafter
    refine ⟨created.1, rfl, rfl, rfl, fun _ => ⟨[], hafter, Watch.upToDate_nil rfl ?_⟩⟩
    intro load d hload hdue
    cases hload
    exact hdue
  · cases earlier <;> cases hsplit

end Observes

/-- A watch converges to the latest result. It is begun in any session over a new cache, as long as
the cache has not been dropped, and any steps follow, of which none takes its name. Whenever a poll
of it, in whatever step, has nothing to show, and none of its polls so far has told of missed
results, then the last value that it has shown is that of the latest result which was published for
its parameters since it began, and it has shown no value exactly if there was no such result. The
record that tells this belongs to the run: it leaves the same session, and has the events that the
run reports. -/
theorem watch_converges (setup : Setup (Store (Key P A) V)) (source : Source P V E)
    (before after : List (Step P A V)) (id : String) (params : P) (retries : Nat)
    (hopen : ((create (Cache.create setup source)).run before).2.closed = false)
    (hbegins : ∀ st ∈ after, ¬ st.begins id) :
    let begun := (((create (Cache.create setup source)).run before).2.step
      (.begin id (.watch params retries))).2
    let record := runObserved id begun after
    record.1 = (begun.run after).2 ∧ eventsSeen record.2 = eventsOf (begun.run after).1 ∧
      ∀ earlier events later, record.2 = earlier ++ .polled events (.answer .pending) :: later →
        (∀ event ∈ ownSeen earlier ++ events, event.lags = false) →
        (valuesShown earlier).getLast? = newest params (updates (eventsSeen earlier ++ events)) ∧
          (valuesShown earlier = [] ↔
            ∀ m ∈ updates (eventsSeen earlier ++ events), m.1 ≠ params) := by
  intro begun record
  have hattentive := attentive_run setup source before
  have hcarries := (Recounts.run setup source before).delivered.carries
  have hobserves : Observes id params record :=
    keeps_foldl_stepObserved (fun _ _ h hst => h.stepObserved hst) hbegins
      (observes_begin hattentive hopen hcarries id params retries)
  refine ⟨fst_foldl_stepObserved id after (begun, []),
    eventsSeen_foldl_stepObserved (hattentive.steps _) after,
    fun earlier events later hsplit hlags => ?_⟩
  have hlast := hobserves.converged earlier events later hsplit hlags
  refine ⟨hlast, ?_⟩
  rw [← newest_eq_none_iff, ← hlast, List.getLast?_eq_none_iff]

/-- A source whose calls return their numbers after a while. -/
def numberingSource : Source Nat Nat Nat := fun number _ =>
  .replies { wait := { yields := 1 }, took := none, ending := .value number }

def numberingSetup : Setup (Store (Key Nat Unit) Nat) :=
  { store := .bounded (Bounded.ofCapacity 4 (by decide)), clock := .counter 5 1,
    broadcastCapacity := 4 }

/-- A load that is not shared begins after the request of the watch, and ends before it. -/
def overtaking : List (Step Nat Unit Nat) :=
  [.poll "w", .begin "b" (.stream false (Key.ofParams 7) (.policy .never) { share := false }),
    .drain "b", .poll "b", .begin "c" (.stream true (Key.ofParams 8) (.policy .never) {}),
    .drain "c", .poll "c", .join ["w"]]

/-- Whether a poll has had nothing to show. -/
def isPending : Scene P A V E → Bool
  | .polled _ (.answer .pending) => true
  | _ => false

omit [DecidableEq P] [DecidableEq A] [DecidableEq V] in
/-- A poll with nothing to show is one that has answered that it waits. -/
theorem eq_of_isPending {scene : Scene P A V E} (h : isPending scene = true) :
    ∃ events, scene = .polled events (.answer .pending) := by
  unfold isPending at h
  split at h
  · exact ⟨_, rfl⟩
  · cases h

/-- The request of the watch brings its result twice, with the other one in between. -/
theorem watch_converges_overtaking :
    let start := ((create (Cache.create numberingSetup numberingSource)).run []).2
    let record := runObserved "w" (start.step (.begin "w" (.watch 7 0))).2 overtaking
    start.closed = false ∧ (∀ st ∈ overtaking, ¬ st.begins "w") ∧
      ∃ earlier events, record.2 = earlier ++ [.polled events (.answer .pending)] ∧
        (∀ event ∈ ownSeen earlier ++ events, event.lags = false) ∧
        valuesShown earlier = [1, 2, 1] ∧
        newest 7 (updates (eventsSeen earlier ++ events)) = some 1 := by
  intro start record
  have hbegins : ∀ st ∈ overtaking, ¬ st.begins "w" := by decide
  have hpending : record.2.getLast?.any isPending = true := by decide +kernel
  have hlags : (ownSeen record.2).any Event.lags = false := by decide +kernel
  have hvalues : valuesShown record.2.dropLast = [1, 2, 1] := by decide +kernel
  obtain ⟨-, -, hconverges⟩ :=
    watch_converges numberingSetup numberingSource [] overtaking "w" 7 0 rfl hbegins
  cases hlast : record.2.getLast? with
  | none =>
    rw [hlast] at hpending
    cases hpending
  | some scene =>
    rw [hlast] at hpending
    have hsplit : record.2 = record.2.dropLast ++ [scene] :=
      (List.dropLast_append_getLast? scene hlast).symm
    generalize record.2.dropLast = earlier at hsplit hvalues
    obtain ⟨events, rfl⟩ := eq_of_isPending hpending
    have hnone : ∀ event ∈ ownSeen earlier ++ events, event.lags = false := by
      rw [hsplit, ownSeen_concat] at hlags
      exact fun event he => Bool.eq_false_iff.mpr (List.any_eq_false.mp hlags event he)
    obtain ⟨hnewest, -⟩ := hconverges earlier events [] hsplit hnone
    rw [hvalues] at hnewest
    exact ⟨rfl, hbegins, earlier, events, hsplit, hnone, hvalues, hnewest.symm⟩

end Session

end ReadThrough
