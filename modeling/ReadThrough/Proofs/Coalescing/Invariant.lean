import ReadThrough.Coalescing
import ReadThrough.Proofs.Flights.Operations
import ReadThrough.Proofs.Polling
/-!
# Proofs: the invariant of coalescing

The jobs that wait for an execution are its callers (`Sound`). Every part of a step keeps this, and
its notices tell what stopped running (`Moves`); so do whole steps.
-/

namespace ReadThrough

variable {K V : Type}

/-- Whether a job waits for an execution. -/
def Job.waitsFor (e : Nat) : Job V → Bool
  | .shared execution => execution = e
  | .exclusive _ | .ended => false

namespace Coalescing

/-- How many jobs wait for an execution. -/
def waiting (r : Coalescing K V) (e : Nat) : Nat := r.jobs.count (Job.waitsFor e)

/-- A job that waits for an execution is counted. -/
theorem waiting_pos {r : Coalescing K V} {id : String} {e : Nat}
    (h : r.jobs.get? id = some (.shared e)) : 0 < r.waiting e :=
  r.jobs.count_pos h (by simp [Job.waitsFor])

/-- If some jobs wait for an execution, there is one that does. -/
theorem exists_job_of_waiting {r : Coalescing K V} {e : Nat} (h : 0 < r.waiting e) :
    ∃ id, r.jobs.get? id = some (.shared e) := by
  obtain ⟨id, job, hget, hjob⟩ := r.jobs.exists_of_count_pos h
  cases job with
  | shared e' =>
    have he : e' = e := by simpa [Job.waitsFor] using hjob
    exact ⟨id, he ▸ hget⟩
  | exclusive _ => cases hjob
  | ended => cases hjob

/-- A job that shares an execution counts once for it, and not for others. -/
theorem weight_shared {r : Coalescing K V} {id : String} {e : Nat}
    (h : r.jobs.get? id = some (.shared e)) (e' : Nat) :
    r.jobs.weight id (Job.waitsFor e') = if e' = e then 1 else 0 := by
  by_cases he : e' = e
  · simp [Table.weight, h, Job.waitsFor, he]
  · simp [Table.weight, h, Job.waitsFor, he, Ne.symm he]

/-- A job that shares nothing does not count. -/
theorem weight_of_not_shared {r : Coalescing K V} {id : String}
    (h : ∀ e, r.jobs.get? id ≠ some (.shared e)) (e' : Nat) :
    r.jobs.weight id (Job.waitsFor e') = 0 := by
  unfold Table.weight
  cases hget : r.jobs.get? id with
  | none => rfl
  | some job =>
    cases job with
    | shared e => exact absurd hget (h e)
    | exclusive _ => rfl
    | ended => rfl

/-- One job less waits for the execution that a job has shared. -/
theorem less_eq_sub_weight {r : Coalescing K V} {id : String} {e : Nat} (waiting : Nat → Nat)
    (h : r.jobs.get? id = some (.shared e)) :
    Flights.less waiting e = fun e' => waiting e' - r.jobs.weight id (Job.waitsFor e') := by
  funext e'
  rw [weight_shared h e']
  by_cases he : e' = e
  · rw [he, Flights.less, Function.update_self, if_pos rfl]
  · rw [Flights.less, Function.update_of_ne he, if_neg he, Nat.sub_zero]

/-- The jobs that wait after one was dropped. -/
theorem waiting_erase (r : Coalescing K V) (id : String) (e : Nat) :
    (r.jobs.erase id).count (Job.waitsFor e) = r.waiting e - r.jobs.weight id (Job.waitsFor e) := by
  have := r.jobs.count_erase id (Job.waitsFor e)
  unfold waiting
  omega

/-- A job that receives its outcome does not wait any more. -/
theorem waiting_keep_ended {r : Coalescing K V} {id : String} {e : Nat}
    (h : r.jobs.get? id = some (.shared e)) :
    (r.keep id .ended).waiting = Flights.less r.waiting e := by
  funext e'
  have hcount := r.jobs.count_insert id .ended (Job.waitsFor e')
  rw [weight_shared h e'] at hcount
  unfold waiting keep
  by_cases he : e' = e
  · subst he
    rw [Flights.less, Function.update_self]
    simp only [Job.waitsFor, Bool.false_eq_true, if_false, if_true] at hcount ⊢
    omega
  · rw [Flights.less, Function.update_of_ne he]
    simpa [Job.waitsFor, he] using hcount

/-- A job that does not wait for an execution can be replaced by another such job. -/
theorem waiting_keep_of_not_shared {r : Coalescing K V} {id : String} {job : Job V}
    (h : ∀ e, r.jobs.get? id ≠ some (.shared e)) (hjob : ∀ e, job.waitsFor e = false) :
    (r.keep id job).waiting = r.waiting := by
  funext e
  have hcount := r.jobs.count_insert id job (Job.waitsFor e)
  rw [weight_of_not_shared h e, hjob e] at hcount
  exact hcount

variable [DecidableEq K]

/-- The callers of the executions are the jobs that wait for them, and the registry, while there is
one, holds the running executions. -/
structure Sound (r : Coalescing K V) : Prop where
  tracked : r.flights.Tracked r.waiting
  registered : r.closed = false → r.flights.Registered

/-- From `r` to `r'` within a step: the executions go on, and while there is a registry the notices
that were added tell what stopped running. -/
structure Moves (r r' : Coalescing K V) : Prop where
  sound : r'.Sound
  continues : r.flights.Extends r'.flights
  noticed : r'.closed = false → r.closed = false ∧
    ∃ ns, r'.notices = r.notices ++ ns ∧ r.flights.Steps ns r'.flights

theorem Moves.refl {r : Coalescing K V} (h : r.Sound) : Moves r r :=
  ⟨h, .refl _, fun hc => ⟨hc, [], (List.append_nil _).symm, .refl _⟩⟩

/-- What one part of a step does, and then another, the step does. -/
theorem Moves.trans {r r' r'' : Coalescing K V} (h : Moves r r') (h' : Moves r' r'') :
    Moves r r'' := by
  refine ⟨h'.sound, h.continues.trans h'.continues, fun hc => ?_⟩
  obtain ⟨hc', ns', hn', hs'⟩ := h'.noticed hc
  obtain ⟨hc'', ns, hn, hs⟩ := h.noticed hc'
  exact ⟨hc'', ns ++ ns', by rw [hn', hn, List.append_assoc], hs.trans hs'⟩

/-! ## Polling and dropping a job -/

/-- A poll of a job keeps all in order, and tells what stopped running. -/
theorem moves_pollJob (id : String) {r : Coalescing K V} (h : r.Sound) :
    Moves r (r.pollJob id).2 := by
  unfold pollJob
  cases hget : r.jobs.get? id with
  | none => exact .refl h
  | some job =>
    cases job with
    | ended => exact .refl h
    | shared e =>
      have hpoll := Flights.polls_of_waiting Production.poll h.tracked (waiting_pos hget) r.shop
      simp only
      rcases hp : r.flights.poll Production.poll e r.shop with ⟨_ | outcome, f', shop, ns⟩
      · rw [hp] at hpoll
        exact ⟨⟨hpoll.tracked h.tracked,
            fun hc => (hpoll.registered h.tracked (h.registered hc)).1⟩,
          hpoll.continues h.tracked,
          fun hc => ⟨hc, ns, rfl, (hpoll.registered h.tracked (h.registered hc)).2⟩⟩
      · rw [hp] at hpoll
        refine ⟨⟨?_, fun hc => (hpoll.registered h.tracked (h.registered hc)).1⟩,
          hpoll.continues h.tracked,
          fun hc => ⟨hc, ns, rfl, (hpoll.registered h.tracked (h.registered hc)).2⟩⟩
        have htracked := hpoll.tracked h.tracked
        rw [Option.isSome_some, if_pos rfl, ← waiting_keep_ended hget] at htracked
        exact htracked
    | exclusive production =>
      have hne : ∀ e, r.jobs.get? id ≠ some (.shared e) := fun e he => by
        rw [hget] at he; cases he
      simp only
      rcases hp : production.poll r.shop with ⟨rest | outcome, shop⟩
      · refine ⟨⟨?_, h.registered⟩, .refl _, fun hc => ⟨hc, [], (List.append_nil _).symm, .refl _⟩⟩
        have hkeep : (r.keep id (.exclusive rest)).waiting = r.waiting :=
          waiting_keep_of_not_shared hne fun _ => rfl
        exact hkeep ▸ h.tracked
      · refine ⟨⟨?_, h.registered⟩, .refl _, fun hc => ⟨hc, [], (List.append_nil _).symm, .refl _⟩⟩
        have hkeep : (r.keep id .ended).waiting = r.waiting :=
          waiting_keep_of_not_shared hne fun _ => rfl
        exact hkeep ▸ h.tracked

/-- What dropping a job does to the executions, whoever else may be attached to them: `waiting`
counts at least the jobs that are kept. -/
structure DropsJob (r : Coalescing K V) (id : String) (waiting : Nat → Nat) : Prop where
  tracked : (r.dropJob id).flights.Tracked fun e =>
    waiting e - r.jobs.weight id (Job.waitsFor e)
  registered : r.flights.Registered → (r.dropJob id).flights.Registered
  continues : r.flights.Extends (r.dropJob id).flights
  jobs : (r.dropJob id).jobs = r.jobs.erase id
  closed : (r.dropJob id).closed = r.closed
  noticed : r.flights.Registered →
    ∃ ns, (r.dropJob id).notices = r.notices ++ ns ∧ r.flights.Steps ns (r.dropJob id).flights

/-- To drop a job takes one caller from the execution that it waits for, if it waits for one. -/
theorem dropsJob {r : Coalescing K V} {id : String} {waiting : Nat → Nat}
    (ht : r.flights.Tracked waiting)
    (hw : ∀ e, r.jobs.get? id = some (.shared e) → 0 < waiting e) : DropsJob r id waiting := by
  -- A job that waits for nothing goes away without a trace in the registry.
  have hother : ∀ (hne : ∀ e, r.jobs.get? id ≠ some (.shared e))
      (hf : (r.dropJob id).flights = r.flights) (hj : (r.dropJob id).jobs = r.jobs.erase id)
      (hc : (r.dropJob id).closed = r.closed) (hn : (r.dropJob id).notices = r.notices),
      DropsJob r id waiting := by
    intro hne hf hj hc hn
    refine ⟨?_, fun h => hf ▸ h, hf ▸ .refl _, hj, hc, fun _ => ⟨[], ?_, hf ▸ .refl _⟩⟩
    · simp only [weight_of_not_shared hne, Nat.sub_zero, hf]
      exact ht
    · rw [hn, List.append_nil]
  cases hget : r.jobs.get? id with
  | none =>
    refine hother (fun e he => by rw [hget] at he; cases he) ?_ ?_ ?_ ?_ <;>
      simp only [dropJob, hget]
  | some job =>
    cases job with
    | ended =>
      refine hother (fun e he => by rw [hget] at he; cases he) ?_ ?_ ?_ ?_ <;>
        simp only [dropJob, hget]
    | exclusive production =>
      refine hother (fun e he => by rw [hget] at he; cases he) ?_ ?_ ?_ ?_ <;>
        simp only [dropJob, hget]
    | shared e =>
      have hleave := Flights.leaves_of_waiting ht (hw e hget)
      rcases hl : r.flights.leave e with ⟨_ | production, f', ns⟩ <;> rw [hl] at hleave
      all_goals
        have htracked := hleave.tracked ht
        rw [less_eq_sub_weight waiting hget] at htracked
        refine ⟨?_, fun hr => ?_, ?_, ?_, ?_, fun hr => ⟨ns, ?_, ?_⟩⟩ <;>
          simp only [dropJob, hget, hl]
      · exact htracked
      · exact (hleave.registered ht hr).1
      · exact hleave.continues ht
      · exact (hleave.registered ht hr).2
      · exact htracked
      · exact (hleave.registered ht hr).1
      · exact hleave.continues ht
      · exact (hleave.registered ht hr).2

/-- A dropped job may abandon its execution, which is then told to have been removed. -/
theorem moves_dropJob (id : String) {r : Coalescing K V} (h : r.Sound) :
    Moves r (r.dropJob id) := by
  have hdrop : DropsJob r id r.waiting := dropsJob h.tracked fun e he => waiting_pos he
  refine ⟨⟨?_, fun hc => hdrop.registered (h.registered (hdrop.closed ▸ hc))⟩, hdrop.continues,
    fun hc => ⟨hdrop.closed ▸ hc, hdrop.noticed (h.registered (hdrop.closed ▸ hc))⟩⟩
  have hwaiting : (r.dropJob id).waiting = fun e =>
      r.waiting e - r.jobs.weight id (Job.waitsFor e) := by
    funext e
    rw [← waiting_erase, waiting, hdrop.jobs]
  rw [hwaiting]
  exact hdrop.tracked

/-! ## The other parts of a step -/

/-- Putting a job in the place of another, when the executions count the new job already. -/
theorem moves_replace {r : Coalescing K V} {id : String} {job : Job V}
    (ht : r.flights.Tracked fun e => r.waiting e + if job.waitsFor e then 1 else 0)
    (hr : r.closed = false → r.flights.Registered) : Moves r (r.replace id job) := by
  have hpos : ∀ e, r.jobs.get? id = some (.shared e) →
      0 < r.waiting e + if job.waitsFor e then 1 else 0 := fun e he =>
    Nat.lt_of_lt_of_le (waiting_pos he) (Nat.le_add_right _ _)
  have hdrop := dropsJob ht hpos
  have hwaiting : (r.replace id job).waiting = fun e =>
      (r.waiting e + if job.waitsFor e then 1 else 0) - r.jobs.weight id (Job.waitsFor e) := by
    funext e
    have hinsert := (r.jobs.erase id).count_insert id job (Job.waitsFor e)
    have herase := r.jobs.count_erase id (Job.waitsFor e)
    have hgone : (r.jobs.erase id).weight id (Job.waitsFor e) = 0 := by simp [Table.weight]
    show ((r.dropJob id).jobs.insert id job).count _ = _
    rw [hdrop.jobs]
    unfold waiting
    omega
  refine ⟨⟨?_, fun hc => hdrop.registered (hr (hdrop.closed ▸ hc))⟩, hdrop.continues,
    fun hc => ⟨hdrop.closed ▸ hc, hdrop.noticed (hr (hdrop.closed ▸ hc))⟩⟩
  rw [hwaiting]
  exact hdrop.tracked

/-- A call keeps all in order, whether its job attaches or starts an execution. -/
theorem moves_call (id : String) (key : K) (producer : Producer V) {r : Coalescing K V}
    (h : r.Sound) (hopen : r.closed = false) : Moves r (r.call id key producer) := by
  have hreg := h.registered hopen
  have htracked := h.tracked.enter hreg key (.uncalled id producer)
  have hregistered := hreg.enter h.tracked key (.uncalled id producer)
  have hsteps := Flights.steps_enter h.tracked hreg key (.uncalled id producer)
  unfold call
  rcases henter : r.flights.enter key (.uncalled id producer) with ⟨e, f', notice⟩
  rw [henter] at htracked hregistered hsteps
  have hmore : Flights.more r.waiting e = fun e' =>
      r.waiting e' + if (Job.shared e : Job V).waitsFor e' then 1 else 0 := by
    funext e'
    by_cases he : e' = e
    · subst he; simp [Flights.more, Job.waitsFor]
    · simp [Flights.more, Function.update_of_ne he, Job.waitsFor, Ne.symm he]
  have hreplace : Moves { r with flights := f', notices := r.notices ++ [notice] }
      (Coalescing.replace { r with flights := f', notices := r.notices ++ [notice] } id
        (.shared e)) :=
    moves_replace (hmore ▸ htracked) fun _ => hregistered
  refine ⟨hreplace.sound, hsteps.continues.trans hreplace.continues, fun hc => ?_⟩
  obtain ⟨hc', ns, hn, hs⟩ := hreplace.noticed hc
  exact ⟨hopen, [notice] ++ ns, by rw [hn, List.append_assoc], hsteps.trans hs⟩

/-- Jobs are dropped one after the other. -/
theorem moves_dropJobs (ids : List String) {r : Coalescing K V} (h : r.Sound) :
    Moves r (ids.foldl (fun r id => r.dropJob id) r) := by
  induction ids generalizing r with
  | nil => exact .refl h
  | cons id ids ih =>
    have hdrop := moves_dropJob id h
    exact hdrop.trans (ih hdrop.sound)

/-- When the registry goes away, the jobs that run alone go with it. -/
theorem moves_dropRegistry {r : Coalescing K V} (h : r.Sound) : Moves r r.dropRegistry := by
  have hdrop := moves_dropJobs r.exclusives h
  exact ⟨⟨⟨hdrop.sound.tracked.sound, hdrop.sound.tracked.known⟩, nofun⟩, hdrop.continues, nofun⟩

/-! ## Steps and runs -/

/-- Joined jobs are polled one after the other. -/
theorem moves_join (ids : List String) (passes : Nat) {r : Coalescing K V} (h : r.Sound) :
    Moves r (join pollJob passes ids r).2 :=
  join_rel (R := fun r _ r' => r.Sound → Moves r r') (fun _ => .refl)
    (fun h h' hs => (h hs).trans (h' (h hs).sound)) (fun id _ _ => moves_pollJob id) passes r h

/-- Whatever a step does keeps all in order, and is told. -/
theorem moves_perform (s : Step K V) {r : Coalescing K V} (h : r.Sound)
    (hopen : s.needsRegistry = true → r.closed = false) : Moves r (r.perform s).2 := by
  cases s with
  | shared id key producer => exact moves_call id key producer h (hopen rfl)
  | exclusive id producer =>
    exact moves_replace (by simpa [Job.waitsFor] using h.tracked) h.registered
  | poll id => exact moves_pollJob id h
  | join ids => exact moves_join ids (ids.length + 1) h
  | drop id => exact moves_dropJob id h
  | openGate gate => exact ⟨⟨h.tracked, h.registered⟩, .refl _, (Moves.refl h).noticed⟩
  | closeGate gate => exact ⟨⟨h.tracked, h.registered⟩, .refl _, (Moves.refl h).noticed⟩
  | inspect => exact .refl h
  | dropRegistry => exact moves_dropRegistry h

/-- A step from one state to the next, with the notices that it reports. -/
structure StepsTo (r : Coalescing K V) (notices : List Notice) (r' : Coalescing K V) : Prop where
  sound : r'.Sound
  continues : r.flights.Extends r'.flights
  noticed : r'.closed = false → r.closed = false ∧ r.flights.Steps notices r'.flights

/-- The part of a step that may be refused. -/
def attempt (r : Coalescing K V) (s : Step K V) : Response V × Coalescing K V :=
  if r.closed && s.needsRegistry then (.invalid, { r with notices := [] })
  else perform { r with notices := [] } s

/-- A step leaves what its part that may be refused leaves. -/
theorem step_snd (r : Coalescing K V) (s : Step K V) : (r.step s).2 = (r.attempt s).2 := rfl

/-- A step answers what its part that may be refused answers. -/
theorem step_response (r : Coalescing K V) (s : Step K V) :
    (r.step s).1.response = (r.attempt s).1 := rfl

/-- A step reports the notices that it has added. -/
theorem step_notices (r : Coalescing K V) (s : Step K V) :
    (r.step s).1.notices = (r.step s).2.notices := rfl

/-- Every step keeps all in order, refused or not. -/
theorem stepsTo_step (s : Step K V) {r : Coalescing K V} (h : r.Sound) :
    StepsTo r (r.step s).1.notices (r.step s).2 := by
  have h₀ : Sound { r with notices := [] } := ⟨h.tracked, h.registered⟩
  have hmoves : Moves { r with notices := [] } (r.attempt s).2 := by
    unfold attempt
    split
    · exact .refl h₀
    · rename_i hneeds
      refine moves_perform s h₀ fun hs => ?_
      simpa [hs] using hneeds
  rw [step_notices, step_snd]
  refine ⟨hmoves.sound, hmoves.continues, fun hc => ?_⟩
  obtain ⟨hc', ns, hn, hs⟩ := hmoves.noticed hc
  rw [hn, List.nil_append]
  exact ⟨hc', hs⟩

/-- At first there are neither jobs nor executions. -/
theorem sound_init : Sound ({} : Coalescing K V) where
  tracked := ⟨nofun, fun h => absurd h (lt_irrefl 0)⟩
  registered _ := fun k t => ⟨nofun, fun ⟨_, _, hx, _⟩ => by cases hx⟩

/-- All is in order after every run. -/
theorem sound_run (steps : List (Step K V)) {r : Coalescing K V} (h : r.Sound) :
    (r.run steps).2.Sound := by
  induction steps generalizing r with
  | nil => exact h
  | cons s rest ih => exact ih (stepsTo_step s h).sound

end Coalescing

end ReadThrough
