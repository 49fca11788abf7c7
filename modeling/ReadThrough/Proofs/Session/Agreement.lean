import ReadThrough.Proofs.Session.Judging
/-!
# Proofs: requests with an acceptance test agree with the policies

A request with an acceptance test does what its lookup, its test and its own load say. A test that
accepts everything makes it the request that calls the source only if nothing usable is stored, poll
by poll and in any company. A test that accepts nothing makes it the request that does not look, but
for the one lookup in vain (`judged_request_agrees`).
-/

namespace ReadThrough

open Cache (InStep)
open Environment (Accord Spares)

variable {P A V E : Type} [DecidableEq P] [DecidableEq A] [DecidableEq V]

namespace Session

variable {S : Store (Key P A) V → Store (Key P A) V → Prop} {C : Clock → Prop}
  {mid : List (Event P A V E)} {Q : Environment P A V E → Environment P A V E → Prop}
  {T : Option (Task P A V E) → Option (Task P A V E) → Prop} {id : String}
  {s s' : Session P A V E} {st : Step P A V} {steps : List (Step P A V)}

/-! ## Runs side by side -/

omit [DecidableEq P] [DecidableEq A] [DecidableEq V] in
/-- What was told before is forgotten. -/
theorem SideBySide.fresh (h : SideBySide (Spares S C mid) T id s s') :
    SideBySide (Spares S C []) T id s.fresh s'.fresh :=
  ⟨⟨h.cache.env.fresh, h.cache.flights⟩, h.closed, h.others, h.own⟩

/-- What is told in a step in which both tell the same. -/
theorem SideBySide.events (h : SideBySide (Spares S C mid) T id (s.step st).2 (s'.step st).2) :
    Inserted mid (s.step st).1.events (s'.step st).1.events := by
  obtain ⟨asked, store, trace, henv, -, -, htrace⟩ := h.cache.env
  have htold : (s'.step st).2.cache.env.trace = trace := by rw [henv]
  have hevents : (s'.step st).1.events = trace := htold
  rw [hevents]
  exact htrace

/-- What is reported of a step that does not look at the state of the session, but for what
happened. -/
theorem SideBySide.outlines (hQ : Accord Q) (h : SideBySide Q T id (s.step st).2 (s'.step st).2)
    (hresponse : st.inspects = false → (s'.step st).1.response = (s.step st).1.response) :
    (if st.inspects then [] else [(s'.step st).1]).map Report.outline =
      (if st.inspects then [] else [(s.step st).1]).map Report.outline := by
  cases hinspects : st.inspects with
  | true => rfl
  | false => exact congrArg (fun report => [report]) (h.outline hQ (hresponse hinspects))

omit [DecidableEq P] [DecidableEq A] [DecidableEq V] in
/-- Reports with the same outline and the same events are the same. -/
theorem Report.eq_of_outline {report report' : Report P A V E}
    (houtline : report'.outline = report.outline) (hevents : report'.events = report.events) :
    report' = report := by
  have hreport : ∀ report : Report P A V E,
      report = { report.outline with events := report.events } := fun _ => rfl
  rw [hreport report', hreport report, houtline, hevents]

/-- Where both tell the same, the same is reported. -/
theorem SideBySide.reports (hS : Store.Lockstep S) (hC : Clock.Kept C)
    (h : SideBySide (Spares S C []) T id (s.step st).2 (s'.step st).2)
    (hresponse : st.inspects = false → (s'.step st).1.response = (s.step st).1.response) :
    (if st.inspects then [] else [(s'.step st).1]) =
      (if st.inspects then [] else [(s.step st).1]) := by
  cases hinspects : st.inspects with
  | true => rfl
  | false =>
    have houtline := h.outline (Environment.accord_spares hS hC) (hresponse hinspects)
    exact congrArg (fun report => [report])
      (Report.eq_of_outline houtline (inserted_nil.mp h.events))

/-- Runs side by side report the same, but for steps that look at the state of the session. -/
theorem SideBySide.run (hS : Store.Lockstep S) (hC : Clock.Kept C)
    (hrelation : StepRelation
      (SideBySide (Spares S C []) T id : Session P A V E → Session P A V E → Prop) id)
    (hbegins : ∀ st ∈ steps, ¬ st.begins id)
    (h : SideBySide (Spares S C []) T id s.fresh s'.fresh) :
    unseeing steps (s'.run steps).1 = unseeing steps (s.run steps).1 ∧
      eventsOf (s'.run steps).1 = eventsOf (s.run steps).1 ∧
      SideBySide (Spares S C []) T id (s.run steps).2.fresh (s'.run steps).2.fresh := by
  induction steps generalizing s s' with
  | nil => exact ⟨rfl, rfl, h⟩
  | cons st rest ih =>
    obtain ⟨hresponse, hafter⟩ := hrelation.step h (hbegins st (List.mem_cons_self ..))
    obtain ⟨hreports, hevents, hlast⟩ :=
      ih (fun st' hst' => hbegins st' (List.mem_cons_of_mem _ hst')) hafter.fresh
    refine ⟨?_, ?_, hlast⟩
    · rw [unseeing_run, unseeing_run, hreports, hafter.reports hS hC hresponse]
    · rw [eventsOf_run, eventsOf_run, hevents, inserted_nil.mp hafter.events]

end Session

namespace Judged

open Session (SideBySide StepRelation Report unseeing unseeing_run eventsOf_run)

variable {key : Key P A} {terms : Terms} {test : V → Verdict} {policy : Policy} {id : String}
  {s s' : Session P A V E} {st : Session.Step P A V} {steps : List (Session.Step P A V)}

/-! ## Tests that accept everything -/

/-- The environments are the same, but for how often the test was made. -/
abbrev Unasked : Environment P A V E → Environment P A V E → Prop :=
  Spares (fun s s' => s' = s) (fun _ => True) []

omit [DecidableEq V] in
/-- Environments that differ in the number of tests stay so whatever a session does to both. -/
theorem accord_unasked : Accord (Unasked : Environment P A V E → Environment P A V E → Prop) :=
  Environment.accord_spares Store.lockstep_eq Clock.kept_any

/-- With a test that accepts everything, a request goes along with the one that calls the source
only if nothing usable is stored. -/
theorem stepRelation_accepting (htest : ∀ value, test value = .accept) (id : String) :
    StepRelation (SideBySide Unasked (Level key terms test .ifHave) id :
      Session P A V E → Session P A V E → Prop) id :=
  SideBySide.stepRelation (taskPair_level accord_unasked) Level.isSome Level.patience
    (level_poll accord_unasked (by decide) fun _ h =>
      tallies_look accord_unasked.toLockstep htest Spares.judge h) id

/-! ## Tests that accept nothing -/

/-- Where the two requests stand, with a test that accepts nothing: the first has not looked yet, or
it has looked in vain. -/
inductive Vain (key : Key P A) (terms : Terms) (test : V → Verdict) (id : String)
    (s s' : Session P A V E) : Prop where
  | before (h : SideBySide (Quiescent P A V E) (Ahead key terms test) id s s')
  | after {mid : List (Event P A V E)} (hmid : Extra key terms mid)
      (h : SideBySide (ReadOnce key mid) (Level key terms test .never) id s s')

/-- Sessions of which the first has read once more take every step alike. -/
theorem stepRelation_behind (mid : List (Event P A V E)) (id : String) :
    StepRelation (SideBySide (ReadOnce key mid) (Level key terms test .never) id) id :=
  SideBySide.stepRelation (taskPair_level (accord_readOnce mid)) Level.isSome Level.patience
    (level_poll (accord_readOnce mid) (by decide) fun hpolicy => by cases hpolicy) id

/-- With a test that accepts nothing, a request goes along with the one that does not look. -/
theorem stepRelation_rejecting (htest : ∀ value, test value = .reject) (id : String) :
    StepRelation (Vain key terms test id : Session P A V E → Session P A V E → Prop) id where
  closed h := by
    cases h with
    | before h => exact h.closed
    | after hmid h => exact h.closed
  patience ids h := by
    cases h with
    | before h =>
      exact h.patience accord_quiescent fun _ _ _ => h.own.patience _ _
    | after hmid h => exact (stepRelation_behind _ id).patience ids h
  polls {s s'} id' h := by
    cases h with
    | after hmid h =>
      obtain ⟨hanswer, hafter⟩ := (stepRelation_behind _ id).polls id' h
      exact ⟨hanswer, .after hmid hafter⟩
    | before h =>
      by_cases hid : id' = id
      · subst hid
        have hown := h.own
        generalize hget : s.tasks.get? id' = task, hget' : s'.tasks.get? id' = task' at hown
        cases hown with
        | gone =>
          unfold Session.pollTask
          rw [hget, hget']
          exact ⟨rfl, .before h⟩
        | looking =>
          obtain ⟨mid, hmid, hpoll⟩ := ahead_poll htest h.cache
          obtain ⟨hanswer, hafter⟩ := h.pollTask_self hget hget' hpoll
          exact ⟨hanswer, .after hmid hafter⟩
      · obtain ⟨hanswer, hafter⟩ := h.pollTask_other accord_quiescent hid
        exact ⟨hanswer, .before hafter⟩
  performs hbegins hpolled h := by
    cases h with
    | before h =>
      obtain ⟨hanswer, hafter⟩ :=
        h.performs (taskPair_ahead accord_quiescent) h.own.isSome hbegins hpolled
      exact ⟨hanswer, .before hafter⟩
    | after hmid h =>
      obtain ⟨hanswer, hafter⟩ := (stepRelation_behind _ id).performs hbegins hpolled h
      exact ⟨hanswer, .after hmid hafter⟩

/-- As long as the first request has not been polled, nothing is different; it is one lookup ahead
from then on. -/
theorem vain_run (htest : ∀ value, test value = .reject) (hbegins : ∀ st ∈ steps, ¬ st.begins id)
    (h : SideBySide (Quiescent P A V E) (Ahead key terms test) id s.fresh s'.fresh) :
    (unseeing steps (s'.run steps).1).map Report.outline =
        (unseeing steps (s.run steps).1).map Report.outline ∧
      (eventsOf (s'.run steps).1 = eventsOf (s.run steps).1 ∧
          SideBySide (Quiescent P A V E) (Ahead key terms test) id (s.run steps).2.fresh
            (s'.run steps).2.fresh ∨
        ∃ mid, Extra key terms mid ∧ Inserted mid (eventsOf (s.run steps).1)
            (eventsOf (s'.run steps).1) ∧
          SideBySide (ReadOnce key []) (Level key terms test .never) id (s.run steps).2.fresh
            (s'.run steps).2.fresh) := by
  induction steps generalizing s s' with
  | nil => exact ⟨rfl, .inl ⟨rfl, h⟩⟩
  | cons st rest ih =>
    have hrest : ∀ st ∈ rest, ¬ st.begins id := fun st' hst' =>
      hbegins st' (List.mem_cons_of_mem _ hst')
    have hrelation : StepRelation
        (Vain key terms test id : Session P A V E → Session P A V E → Prop) id :=
      stepRelation_rejecting htest id
    obtain ⟨hresponse, hafter⟩ := hrelation.step (.before h) (hbegins st (List.mem_cons_self ..))
    rw [unseeing_run, unseeing_run, List.map_append, List.map_append, eventsOf_run, eventsOf_run]
    cases hafter with
    | before hafter =>
      obtain ⟨hreports, hlast⟩ := ih hrest hafter.fresh
      rw [hreports, hafter.outlines accord_quiescent hresponse, inserted_nil.mp hafter.events]
      refine ⟨rfl, hlast.imp ?_ ?_⟩
      · rintro ⟨hevents, hlast⟩
        exact ⟨by rw [hevents], hlast⟩
      · rintro ⟨mid, hmid, hevents, hlast⟩
        exact ⟨mid, hmid, hevents.prepend _, hlast⟩
    | after hmid hafter =>
      obtain ⟨hreports, hevents, hlast⟩ := SideBySide.run (Store.lockstep_spares key) Clock.kept_any
        (stepRelation_behind [] id) hrest hafter.fresh
      rw [hreports, hafter.outlines (accord_readOnce _) hresponse, hevents]
      exact ⟨rfl, .inr ⟨_, hmid, hafter.events.append _, hlast⟩⟩

end Judged

namespace Session

open Judged (Level Ahead Quiescent ReadOnce Unasked Extra)

variable {S : Store (Key P A) V → Store (Key P A) V → Prop} {C : Clock → Prop}
  {T : Option (Task P A V E) → Option (Task P A V E) → Prop} {id : String}
  {s s' : Session P A V E}

/-! ## The theorem -/

/-- Two sessions are the same but for their stores, the task with the name, how often a test was
made and what the last step told. -/
structure SameBut (id : String) (s s' : Session P A V E) : Prop where
  env : s'.cache.env = { s.cache.env with
    store := s'.cache.env.store, asked := s'.cache.env.asked, trace := s'.cache.env.trace }
  flights : s'.cache.flights = s.cache.flights
  closed : s'.closed = s.closed
  others : ∀ id', id' ≠ id → s'.tasks.get? id' = s.tasks.get? id'

omit [DecidableEq P] [DecidableEq A] [DecidableEq V] in
/-- Sessions side by side with nothing inserted are the same but for the two tasks. -/
theorem SideBySide.sameBut (h : SideBySide (Spares S C []) T id s.fresh s'.fresh) :
    SameBut id s s' ∧ S s.cache.env.store s'.cache.env.store := by
  obtain ⟨asked, store, trace, henv, hstore, -, -⟩ := h.cache.env
  have hfresh : ∀ s : Session P A V E, s.cache.env = { s.fresh.cache.env with
      trace := s.cache.env.trace } := fun _ => rfl
  have hstored : s'.cache.env.store = store := congrArg Environment.store henv
  refine ⟨⟨?_, h.cache.flights, h.closed, h.others⟩, hstored ▸ hstore⟩
  rw [hfresh s', henv]
  rfl

/-- A request with an acceptance test that does not panic, begun in any session under a name that no
later task takes, agrees with the requests by a policy under any interleaving.

It yields a stored value exactly if its lookup finds a usable one that passes the test, and
otherwise what its own load comes to. If the test accepts everything, it cannot be told from a
request that calls the source only if nothing usable is stored: the same is reported of all steps
but those that look at the state of the session, the same happens, and sessions are left that
differ in how often a test was made. If the test accepts nothing, and reads of the store and the
clock have no effects, it cannot be told from a request that does not look, but for one lookup in
vain, which the store may have recorded. -/
theorem judged_request_agrees (s : Session P A V E) (id : String) (params : P) (terms : Terms)
    (test : V → Verdict) (steps : List (Step P A V)) (hopen : s.closed = false)
    (hbegins : ∀ st ∈ steps, ¬ st.begins id)
    (htest : ∀ value message, test value ≠ .panic message) :
    let key : Key P A := Key.ofParams params
    let judged := (s.step (.begin id (.stream false key (.judged test) terms))).2
    let fetched := fun policy => (s.step (.begin id (.fetch params policy terms))).2
    let run := judged.run steps
    let fetchedRun := fun policy => (fetched policy).run steps
    let record := runRecorded id judged steps
    (record.1 = run.2 ∧ (∃ rest, Judged.Course false key terms test (record.2 ++ rest)) ∧
        (.ended ∈ record.2 → Judged.Course false key terms test record.2)) ∧
      ((∀ value, test value = .accept) →
        unseeing steps (fetchedRun .ifHave).1 = unseeing steps run.1 ∧
          eventsOf (fetchedRun .ifHave).1 = eventsOf run.1 ∧
          SameBut id run.2 (fetchedRun .ifHave).2 ∧
          (fetchedRun .ifHave).2.cache.env.store = run.2.cache.env.store) ∧
      ((∀ value, test value = .reject) → s.cache.env.store.Prompt → s.cache.env.clock.Still →
        (unseeing steps (fetchedRun .never).1).map Report.outline =
            (unseeing steps run.1).map Report.outline ∧
          SameBut id run.2 (fetchedRun .never).2 ∧
          (eventsOf (fetchedRun .never).1 = eventsOf run.1 ∧
              (fetchedRun .never).2.cache.env.store = run.2.cache.env.store ∨
            ∃ mid, Extra key terms mid ∧
              Inserted mid (eventsOf run.1) (eventsOf (fetchedRun .never).1) ∧
              run.2.cache.env.store.Spares key (fetchedRun .never).2.cache.env.store)) := by
  intro key judged fetched run fetchedRun record
  -- Its course first; then the two comparisons, each from where both requests have just begun.
  refine ⟨?_, fun haccept => ?_, fun hreject hprompt hstill => ?_⟩
  · have hrouted : Routed id (Judged.route false key terms test htest) record :=
      (routed_begin s hopen id (Judged.route false key terms test htest)
        (Judged.onCourse_create false key terms test)).run hbegins
    obtain ⟨hbegun, hended⟩ := hrouted.conforms
    exact ⟨fst_foldl_stepRecorded id steps (judged, []), hbegun, hended⟩
  · have hsame : InStep Unasked s.fresh.cache s.fresh.cache :=
      ⟨⟨_, _, _, rfl, rfl, trivial, inserted_nil.mpr rfl⟩, rfl⟩
    have hbegun : SideBySide Unasked (Level key terms test .ifHave) id judged (fetched .ifHave) :=
      sideBySide_begin Judged.accord_unasked hopen hsame (fun _ => rfl) (fun _ => rfl)
        (.underway .looking)
    obtain ⟨hreports, hevents, hlast⟩ := SideBySide.run Store.lockstep_eq Clock.kept_any
      (Judged.stepRelation_accepting haccept id) hbegins hbegun.fresh
    obtain ⟨hafter, hstore⟩ := hlast.sameBut
    exact ⟨hreports, hevents, hafter, hstore⟩
  · have hsame : InStep (Quiescent P A V E) s.fresh.cache s.fresh.cache :=
      ⟨⟨_, _, _, rfl, ⟨rfl, hprompt⟩, hstill, inserted_nil.mpr rfl⟩, rfl⟩
    have hbegun :
        SideBySide (Quiescent P A V E) (Ahead key terms test) id judged (fetched .never) :=
      sideBySide_begin Judged.accord_quiescent hopen hsame (fun _ => rfl) (fun _ => rfl) .looking
    obtain ⟨hreports, hlast⟩ := Judged.vain_run hreject hbegins hbegun.fresh
    refine ⟨hreports, ?_⟩
    rcases hlast with ⟨hevents, hlast⟩ | ⟨mid, hmid, hevents, hlast⟩
    · obtain ⟨hafter, hstore, -⟩ := hlast.sameBut
      exact ⟨hafter, .inl ⟨hevents, hstore⟩⟩
    · obtain ⟨hafter, hstore⟩ := hlast.sameBut
      exact ⟨hafter, .inr ⟨mid, hmid, hevents, hstore⟩⟩

/-- The cache with one stored value, over a store that records its use and a clock that stands. -/
def recordingCache : Cache Nat Unit Nat Nat :=
  { stockedCache with
    env.store := .recorded (.ofList [(Key.ofParams 7, Entry.stamped 40 0)])
    env.clock := .instant 0 }

theorem judged_request_agrees_interleaved :
    let s := create recordingCache
    let judged := fun test => (s.step (.begin "a"
      (.stream false (Key.ofParams 7) (.judged test) {}))).2
    let fetched := fun policy => (s.step (.begin "a" (.fetch 7 policy {}))).2
    let rejected := runRecorded "a" (judged fun _ => .reject) interleaving
    (∀ st ∈ interleaving, ¬ st.begins "a") ∧ s.cache.env.store.Prompt ∧
      s.cache.env.clock.Still ∧ .ended ∈ rejected.2 ∧
      Judged.Course false (Key.ofParams 7) {} (fun _ => .reject) rejected.2 ∧
      unseeing interleaving ((fetched .ifHave).run interleaving).1 =
        unseeing interleaving ((judged fun _ => .accept).run interleaving).1 ∧
      (unseeing interleaving ((fetched .never).run interleaving).1).map Report.outline =
        (unseeing interleaving ((judged fun _ => .reject).run interleaving).1).map
          Report.outline := by
  intro s judged fetched rejected
  have hbegins : ∀ st ∈ interleaving, ¬ st.begins "a" := by decide
  have hprompt : s.cache.env.store.Prompt := fun _ => rfl
  have hstill : s.cache.env.clock.Still := rfl
  have hany : rejected.2.any isEnd = true := by decide +kernel
  have hended := ended_mem_of_any hany
  obtain ⟨-, haccepting, -⟩ := judged_request_agrees s "a" 7 {} (fun _ => .accept) interleaving rfl
    hbegins nofun
  obtain ⟨⟨-, -, hcourse⟩, -, hrejecting⟩ := judged_request_agrees s "a" 7 {} (fun _ => .reject)
    interleaving rfl hbegins nofun
  exact ⟨hbegins, hprompt, hstill, hended, hcourse hended, (haccepting fun _ => rfl).1,
    (hrejecting (fun _ => rfl) hprompt hstill).1⟩

end Session

end ReadThrough
