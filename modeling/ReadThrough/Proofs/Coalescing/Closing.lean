import ReadThrough.Proofs.Flights.WithoutRegistry
import ReadThrough.Proofs.Coalescing.Cancellations
import ReadThrough.Proofs.Coalescing.Isolation
/-!
# Proofs: jobs outlive the registry

The registry can go away while jobs wait for executions, whether these have begun, have settled or
are still to be polled for the first time. The jobs do not notice: every later poll and every later
drop answers as if the registry were still there and nobody called on it any more, calls the same
producers and drops the same work (`dropRegistry_unnoticed`). What has been proved of all runs holds
of those as well in which the registry goes away: one outcome for each execution, received once by
each of its jobs, panics among them, and no work dropped twice.
-/

namespace ReadThrough

variable {K V : Type}

namespace Coalescing

/-- What is known after a step without a registry. -/
def Report.unregistered (report : Report V) : Report V :=
  { report with ongoing := none, notices := [] }

/-- The jobs of `r` and what they wait for, without a registry. -/
structure Outlives (r r' : Coalescing K V) : Prop where
  flights : r.flights.WithoutRegistry r'.flights
  shop : r'.shop = r.shop
  jobs : r'.jobs = r.jobs
  closed : r'.closed = true
  notices : r'.notices = []

/-- The answers of a step, with the jobs that they are for. -/
def answersOf [DecidableEq K] (r : Coalescing K V) (s : Step K V) :
    List (String × TaskAnswer (Outcome V)) := s.answers (r.step s).1.response

variable {r r' : Coalescing K V}

/-- The notices make no difference to the jobs without a registry. -/
theorem Outlives.quiet (h : Outlives r r') : Outlives r.quiet r'.quiet :=
  ⟨h.flights, h.shop, h.jobs, h.closed, rfl⟩

variable [DecidableEq K]

/-! ## Polls and drops -/

/-- A job is polled alike without a registry. -/
theorem Outlives.pollJob (h : Outlives r r') (id : String) :
    (r'.pollJob id).1 = (r.pollJob id).1 ∧ Outlives (r.pollJob id).2 (r'.pollJob id).2 := by
  obtain ⟨f', shop, jobs, closed, notices⟩ := r'
  obtain ⟨hflights, rfl, rfl, hclosed, hnotices⟩ := h
  unfold Coalescing.pollJob
  cases r.jobs.get? id with
  | none => exact ⟨rfl, hflights, rfl, rfl, hclosed, hnotices⟩
  | some job =>
    cases job with
    | ended => exact ⟨rfl, hflights, rfl, rfl, hclosed, hnotices⟩
    | exclusive production =>
      dsimp only
      rcases production.poll r.shop with ⟨rest | outcome, shop⟩
      · exact ⟨rfl, hflights, rfl, rfl, hclosed, hnotices⟩
      · exact ⟨rfl, hflights, rfl, rfl, hclosed, hnotices⟩
    | shared e =>
      obtain ⟨f₁', hpoll, hafter⟩ := hflights.poll Production.poll e r.shop
      dsimp only at hpoll ⊢
      rw [hpoll]
      rcases hended : r.flights.poll Production.poll e r.shop with ⟨_ | outcome, f₁, shop, ns⟩ <;>
        rw [hended] at hafter
      · exact ⟨rfl, hafter, rfl, rfl, hclosed, (List.append_nil _).trans hnotices⟩
      · exact ⟨rfl, hafter, rfl, rfl, hclosed, (List.append_nil _).trans hnotices⟩

/-- A job is dropped alike without a registry. -/
theorem Outlives.dropJob (h : Outlives r r') (id : String) :
    Outlives (r.dropJob id) (r'.dropJob id) := by
  obtain ⟨f', shop, jobs, closed, notices⟩ := r'
  obtain ⟨hflights, rfl, rfl, hclosed, hnotices⟩ := h
  unfold Coalescing.dropJob
  cases r.jobs.get? id with
  | none => exact ⟨hflights, rfl, rfl, hclosed, hnotices⟩
  | some job =>
    cases job with
    | ended => exact ⟨hflights, rfl, rfl, hclosed, hnotices⟩
    | exclusive production => exact ⟨hflights, rfl, rfl, hclosed, hnotices⟩
    | shared e =>
      obtain ⟨f₁', hleave, hafter⟩ := hflights.leave e
      dsimp only at hleave ⊢
      rw [hleave]
      rcases hleft : r.flights.leave e with ⟨_ | production, f₁, ns⟩ <;> rw [hleft] at hafter
      · exact ⟨hafter, rfl, rfl, hclosed, (List.append_nil _).trans hnotices⟩
      · exact ⟨hafter, rfl, rfl, hclosed, (List.append_nil _).trans hnotices⟩

/-! ## Steps and runs -/

/-- A step that needs no registry does the same without one. -/
theorem Outlives.perform (h : Outlives r r') {s : Step K V} (hs : s.needsRegistry = false) :
    (r'.perform s).1 = (r.perform s).1 ∧ Outlives (r.perform s).2 (r'.perform s).2 := by
  cases s with
  | shared | exclusive | inspect | dropRegistry => cases hs
  | poll id =>
    obtain ⟨hanswer, hafter⟩ := h.pollJob id
    exact ⟨congrArg Response.answer hanswer, hafter⟩
  | join ids =>
    have hpoll : ∀ id ∈ ids, ∀ r r' : Coalescing K V, Outlives r r' →
        (r'.pollJob id).1 = (r.pollJob id).1 ∧ Outlives (r.pollJob id).2 (r'.pollJob id).2 :=
      fun id _ _ _ h => h.pollJob id
    obtain ⟨hanswers, hafter⟩ := join_alike hpoll (ids.length + 1) h
    exact ⟨congrArg Response.joined hanswers, hafter⟩
  | drop id =>
    refine ⟨?_, h.dropJob id⟩
    rw [Coalescing.perform, Coalescing.perform, h.jobs]
  | openGate gate =>
    exact ⟨rfl, h.flights, by simp only [Coalescing.perform, h.shop], h.jobs, h.closed, h.notices⟩
  | closeGate gate =>
    exact ⟨rfl, h.flights, by simp only [Coalescing.perform, h.shop], h.jobs, h.closed, h.notices⟩

/-- A step that needs no registry goes on as before, and so does one that had none before. -/
theorem Outlives.step (h : Outlives r r') {s : Step K V}
    (hs : s.needsRegistry = true → r.closed = true) :
    (r'.step s).1 = (r.step s).1.unregistered ∧ Outlives (r.step s).2 (r'.step s).2 := by
  suffices hsame : (r'.step s).1.response = (r.step s).1.response ∧
      Outlives (r.step s).2 (r'.step s).2 by
    obtain ⟨hresponse, hafter⟩ := hsame
    refine ⟨?_, hafter⟩
    show Report.mk (r'.step s).1.response (if (r'.step s).2.closed then none else _)
      (r'.step s).2.shop.started (r'.step s).2.shop.cancelled (r'.step s).2.notices = _
    rw [hresponse, hafter.closed, hafter.shop, hafter.notices, if_pos rfl]
    rfl
  cases hneeds : s.needsRegistry with
  | true =>
    rw [(step_of_closed h.closed hneeds).1, (step_of_closed h.closed hneeds).2,
      (step_of_closed (hs hneeds) hneeds).1, (step_of_closed (hs hneeds) hneeds).2]
    exact ⟨rfl, h.quiet⟩
  | false =>
    have hopen : ∀ r : Coalescing K V, s.needsRegistry = true → r.closed = false :=
      fun _ hneeds' => absurd (hneeds.symm.trans hneeds') Bool.false_ne_true
    rw [(step_of_open (hopen r)).1, (step_of_open (hopen r)).2, (step_of_open (hopen r')).1,
      (step_of_open (hopen r')).2]
    exact h.quiet.perform hneeds

/-- A run that needs no registry reports the same without one, but for what is known of the
registry. -/
theorem Outlives.run (steps : List (Step K V)) (h : Outlives r r')
    (hsteps : ∀ s ∈ steps, s.needsRegistry = false) :
    (r'.run steps).1 = (r.run steps).1.map Report.unregistered ∧
      Outlives (r.run steps).2 (r'.run steps).2 := by
  induction steps generalizing r r' with
  | nil => exact ⟨rfl, h⟩
  | cons s rest ih =>
    have hs : s.needsRegistry = true → r.closed = true := fun hneeds =>
      absurd ((hsteps s (List.mem_cons_self ..)).symm.trans hneeds) Bool.false_ne_true
    obtain ⟨hreport, hafter⟩ := h.step hs
    obtain ⟨hreports, hlast⟩ := ih hafter fun s' hs' => hsteps s' (List.mem_cons_of_mem _ hs')
    simp only [Coalescing.run, hreport, hreports]
    exact ⟨rfl, hlast⟩

/-! ## After the registry has gone away -/

/-- What is known after a step without a registry says nothing about one. -/
theorem Outlives.unregistered_of_closed (h : Outlives r' r') (s : Step K V) :
    (r'.step s).1.unregistered = (r'.step s).1 := (h.step fun _ => h.closed).1.symm

/-- Two states without a registry that have the same jobs and executions answer alike for ever. -/
theorem Outlives.run_of_closed (steps : List (Step K V)) (h : Outlives r r')
    (hself : Outlives r r) : (r'.run steps).1 = (r.run steps).1 := by
  induction steps generalizing r r' with
  | nil => rfl
  | cons s rest ih =>
    obtain ⟨hreport, hafter⟩ := h.step (s := s) fun _ => hself.closed
    rw [hself.unregistered_of_closed s] at hreport
    simp only [Coalescing.run, hreport, ih hafter (hself.step fun _ => hself.closed).2]

omit [DecidableEq K] in
/-- What does without a registry does without one. -/
theorem Outlives.self (h : Outlives r r') : Outlives r' r' :=
  ⟨⟨h.flights.registry, rfl⟩, rfl, rfl, h.closed, h.notices⟩

/-- Without a registry a release is not noticed. -/
theorem Outlives.release (h : Outlives r' r') (e : Nat) :
    Outlives r' { r' with flights := (r'.flights.release e).1 } :=
  ⟨h.flights.release_right e, rfl, rfl, h.closed, h.notices⟩

/-! ## The step with which it goes away -/

/-- To drop a job does not look at the notices of the step before. -/
theorem dropJob_of_quiet (h : r.quiet = r'.quiet) (id : String) :
    (r.dropJob id).quiet = (r'.dropJob id).quiet := by
  obtain ⟨f, shop, jobs, closed, notices⟩ := r
  obtain ⟨f', shop', jobs', closed', notices'⟩ := r'
  cases h
  unfold Coalescing.dropJob
  cases jobs.get? id with
  | none => rfl
  | some job =>
    cases job with
    | ended | exclusive => rfl
    | shared e =>
      dsimp only
      rcases f.leave e with ⟨_ | production, f', ns⟩
      · rfl
      · rfl

/-- To drop jobs in steps of their own comes to the same as to drop them in one step. -/
theorem run_drops (ids : List String) (h : r.quiet = r'.quiet) :
    (r.run (ids.map .drop)).2.quiet = (ids.foldl (fun r id => r.dropJob id) r').quiet := by
  induction ids generalizing r r' with
  | nil => exact h
  | cons id ids ih =>
    have hdrop : (r.step (.drop id)).2.quiet = (r'.dropJob id).quiet := by
      rw [step_drop]
      exact dropJob_of_quiet (show r.quiet.quiet = r'.quiet from h) id
    exact ih hdrop

/-- The jobs that wait for executions outlive the registry; those that run alone do not. -/
theorem outlives_dropRegistry (hopen : r.closed = false) :
    Outlives (r.run (r.exclusives.map .drop)).2 (r.step .dropRegistry).2.quiet := by
  have hdrops : (r.run (r.exclusives.map .drop)).2.quiet =
      (r.exclusives.foldl (fun r id => r.dropJob id) r.quiet).quiet :=
    run_drops r.exclusives rfl
  have hstep : (r.step .dropRegistry).2 = r.quiet.dropRegistry :=
    (step_of_open fun _ => hopen).2
  generalize (r.run (r.exclusives.map .drop)).2 = kept at hdrops
  generalize hfold : r.exclusives.foldl (fun r id => r.dropJob id) r.quiet = dropped at hdrops
  obtain ⟨f, shop, jobs, closed, notices⟩ := kept
  obtain ⟨f', shop', jobs', closed', notices'⟩ := dropped
  cases hdrops
  have hdropped : r.quiet.dropRegistry = ⟨f.close, shop, jobs, true, notices'⟩ :=
    congrArg (fun d : Coalescing K V => { d with flights := d.flights.close, closed := true }) hfold
  rw [hstep, hdropped]
  exact ⟨f.withoutRegistry_close, rfl, rfl, rfl, rfl⟩

/-! ## Panics -/

/-- A panic of the work is an outcome like others; no poll of a job panics. -/
theorem pollJob_ne_panicked (r : Coalescing K V) (id message : String) :
    (r.pollJob id).1 ≠ .answer (.panicked message) := by
  unfold Coalescing.pollJob
  split
  · exact nofun
  · exact nofun
  · split <;> exact nofun
  · split <;> exact nofun

/-- A panic is received as an outcome, and never escapes to a job. -/
theorem answersOf_ne_panicked (r : Coalescing K V) (s : Step K V) (message : String) :
    ∀ p ∈ answersOf r s, p.2 ≠ .answer (.panicked message) := by
  cases s with
  | poll id =>
    rw [answersOf, (step_poll r id).1]
    exact List.forall_mem_singleton.mpr (pollJob_ne_panicked r.quiet id message)
  | join ids =>
    rw [answersOf, (step_join r ids).1]
    refine join_rel (R := fun _ answers _ => ∀ p ∈ answers, p.2 ≠ .answer (.panicked message))
      (fun _ => nofun) (fun h h' => List.forall_mem_append.mpr ⟨h, h'⟩) (fun id _ r => ?_) _ _
    unfold told
    split
    · exact List.forall_mem_singleton.mpr (pollJob_ne_panicked r id message)
    · exact nofun
  | shared | exclusive | drop | openGate | closeGate | inspect | dropRegistry => exact nofun

/-- When the work of an execution ends at a poll, the polling job receives how it ended, and the
execution has settled so for all the others. -/
theorem settles_of_finished (hsound : r.Sound) {id : String} {e : Nat} {work : Production V}
    {outcome : Outcome V} (hjob : r.jobs.get? id = some (.shared e))
    (hstage : r.flights.stage? e = some (.running work))
    (hwork : (work.poll r.shop).1 = .finished outcome) :
    (r.step (.poll id)).1.response = .answer (.answer (.item outcome)) ∧
      (r.step (.poll id)).2.flights.stage? e = some (.settled outcome) := by
  have hresponse : (r.step (.poll id)).1.response = .answer (.answer (.item outcome)) := by
    obtain ⟨x, hx, hs⟩ := Flights.exists_of_stage? hstage
    rw [(step_poll r id).1]
    show Response.answer (Coalescing.pollJob id r.quiet).1 = _
    simp only [Coalescing.pollJob, Coalescing.quiet, hjob, Flights.poll, hx, hs]
    rcases hpoll : work.poll r.shop with ⟨rest | outcome', shop⟩ <;> rw [hpoll] at hwork <;>
      cases hwork
    rfl
  refine ⟨hresponse, ?_⟩
  have hreceipt : (⟨id, e, outcome⟩ : Receipt V) ∈ receipts r (.poll id) := by
    rw [receipts, hresponse]
    simp [Step.answers, receiptsFor, hjob, TaskAnswer.item?]
  exact settled_of_mem_receipts hsound hreceipt

/-- What holds of every step holds along every run. -/
theorem along_forall {α : Type} {f : Coalescing K V → Step K V → List α} {fine : α → Prop}
    (hf : ∀ r s, ∀ a ∈ f r s, fine a) (r : Coalescing K V) (steps : List (Step K V)) :
    ∀ a ∈ along f r steps, fine a := by
  induction steps generalizing r with
  | nil => exact nofun
  | cons s rest ih => exact List.forall_mem_append.mpr ⟨hf r s, ih (r.step s).2⟩

/-! ## The registry goes away -/

/-- The registry goes away, at any point of any run: the later steps are reported as if it had
stayed and only the jobs that run alone had been dropped, but for what is said about the registry.
All jobs of one execution receive the same outcome, that of the producer which was called for it,
and each job receives it once; a panic is such an outcome, and never that of a poll; no work that
was dropped is dropped again; a release finds nothing to remove if the registry has gone away right
before it; and one that is made later, of whichever execution, changes nothing that is ever
reported. -/
theorem dropRegistry_unnoticed (before after : List (Step K V))
    (hopen : (run ({} : Coalescing K V) before).2.closed = false)
    (hafter : ∀ s ∈ after, s.needsRegistry = false) :
    let r := (run ({} : Coalescing K V) before).2
    let steps := before ++ .dropRegistry :: after
    let dropped := (r.step .dropRegistry).2
    let last := (dropped.run after).2
    (dropped.run after).1 =
        ((r.run (r.exclusives.map .drop)).2.run after).1.map Report.unregistered ∧
      (∀ c ∈ along receipts ({} : Coalescing K V) steps,
        ∀ c' ∈ along receipts ({} : Coalescing K V) steps,
          c.execution = c'.execution → c.outcome = c'.outcome) ∧
      (∀ id e, dropped.jobs.get? id = some (.shared e) → Served dropped id e after) ∧
      (∀ p ∈ along answersOf dropped after, ∀ message, p.2 ≠ .answer (.panicked message)) ∧
      (∀ id e work outcome, last.jobs.get? id = some (.shared e) →
        last.flights.stage? e = some (.running work) →
        (work.poll last.shop).1 = .finished outcome →
          (last.step (.poll id)).1.response = .answer (.answer (.item outcome)) ∧
          (last.step (.poll id)).2.flights.stage? e = some (.settled outcome)) ∧
      (∃ log cancels, Attributed steps log ∧ Cancelled steps log cancels) ∧
      (∀ (f : Flights K (Production V) V) e,
        (f.release e).1.WithoutRegistry (f.close.release e).1 ∧ (f.close.release e).2 = []) ∧
      ∀ e later, (last.flights.release e).2 = [] ∧
        (run { last with flights := (last.flights.release e).1 } later).1 =
          (last.run later).1 := by
  intro r steps dropped last
  have hsound : r.Sound := sound_run before sound_init
  have hdropped : dropped.Sound := (stepsTo_step .dropRegistry hsound).sound
  have hlast : last.Sound := sound_run after hdropped
  have hnames : ∀ id, ∀ s ∈ after, ¬ s.names id := by
    intro id s hs hname
    have hneeds := hafter s hs
    cases s with
    | shared | exclusive => cases hneeds
    | _ => cases hname
  obtain ⟨hreports, houtlives⟩ := (outlives_dropRegistry hopen).run after hafter
  have hidle : dropped.quiet = dropped.quiet.quiet := rfl
  have hquiet : (dropped.run after).1 = (dropped.quiet.run after).1 ∧
      last.quiet = (dropped.quiet.run after).2.quiet := run_of_quiet hidle after
  have hself : Outlives last.quiet last.quiet := hquiet.2 ▸ houtlives.quiet.self
  refine ⟨hquiet.1.trans hreports, fun c hc c' hc' he => ?_,
    fun id e hjob => served hdropped hjob after (hnames id), fun p hp message => ?_,
    fun id e work outcome hjob hstage hwork => settles_of_finished hlast hjob hstage hwork,
    exists_cancelled steps, fun f e => f.withoutRegistry_release_close e, fun e later => ?_⟩
  · have h := settled_of_mem_run steps sound_init hc
    have h' := settled_of_mem_run steps sound_init hc'
    rw [he, h', Option.some.injEq, Stage.settled.injEq] at h
    exact h.symm
  · exact along_forall (fun r s => answersOf_ne_panicked r s message) dropped after p hp
  · have hrelease := (hself.release e).run_of_closed later hself
    have hidle : last.quiet = last.quiet.quiet := rfl
    have hreleased : quiet { last with flights := (last.flights.release e).1 } =
        quiet { last.quiet with flights := (last.flights.release e).1 } := rfl
    refine ⟨(Flights.release_of_empty hself.flights.registry e).2, ?_⟩
    exact (run_of_quiet hreleased later).1.trans
      (hrelease.trans (run_of_quiet hidle later).1.symm)

/-- Jobs of three keys: two wait for an execution that nobody has polled, one for an execution that
is under way and will panic, one for an execution that has settled. Another job runs alone. -/
def beforeClosing : List (Step Nat Nat) :=
  [.shared "a" 7 { ending := fun n => .value (n + 40) }, .shared "b" 7 unusedProducer,
    .shared "c" 8 { wait := ⟨none, 1⟩, ending := fun _ => .panicked "boom" }, .poll "c",
    .shared "d" 9 { ending := .value }, .shared "e" 9 unusedProducer, .poll "d",
    .exclusive "x" { wait := ⟨some "g", 0⟩, ending := .value }, .poll "x"]

/-- All of them are polled or dropped. -/
def afterClosing : List (Step Nat Nat) :=
  [.poll "e", .drop "a", .join ["b", "c"], .poll "x", .drop "c"]

/-- Here one job waits for an execution that panics after the registry has gone away. -/
theorem dropRegistry_unnoticed_crowd :
    let r := (run ({} : Coalescing Nat Nat) beforeClosing).2
    let steps := beforeClosing ++ .dropRegistry :: afterClosing
    let dropped := (r.step .dropRegistry).2
    r.closed = false ∧ (∀ s ∈ afterClosing, s.needsRegistry = false) ∧
      (dropped.run afterClosing).1 =
        ((r.run (r.exclusives.map .drop)).2.run afterClosing).1.map Report.unregistered ∧
      along receipts ({} : Coalescing Nat Nat) steps =
        [⟨"d", 2, .value 2⟩, ⟨"e", 2, .value 2⟩, ⟨"b", 0, .value 44⟩,
          ⟨"c", 1, .panicked "boom"⟩] ∧
      (∃ log cancels, Attributed steps log ∧ Cancelled steps log cancels) := by
  intro r steps dropped
  have hopen : r.closed = false := by decide +kernel
  have hafter : ∀ s ∈ afterClosing, s.needsRegistry = false := by decide
  obtain ⟨hreports, -, -, -, -, hcancelled, -⟩ :=
    dropRegistry_unnoticed beforeClosing afterClosing hopen hafter
  exact ⟨hopen, hafter, hreports, by decide +kernel, hcancelled⟩

end Coalescing

end ReadThrough
