import ReadThrough.Proofs.Session.Sharing
/-!
# Proofs: joins of tasks are polls

What has been told before is told, and does not matter for anything that comes after it. So a step
that polls several tasks does what so many steps that poll one task do, and a run can be written
with single polls in the place of the joins that poll some tasks (`Session.unfolds`).
-/

namespace ReadThrough

variable {P A V E : Type}

/-! ## What was told before -/

/-- A cache that has told something before. -/
def Cache.behind (told : List (Event P A V E)) (c : Cache P A V E) : Cache P A V E :=
  { c with env.trace := told ++ c.env.trace }

namespace Outputs

variable {told : List (Event P A V E)}

/-- The second outputs are the first, and have told something before. -/
structure Behind (told : List (Event P A V E)) (v v' : Outputs P A V E) : Prop where
  updates : v'.updates = v.updates
  errors : v'.errors = v.errors
  trace : v'.trace = told ++ v.trace

/-- Outputs stay behind others, whatever is told or published on both. -/
theorem kept_behind (told : List (Event P A V E)) : Kept (Behind told) where
  note := by
    rintro v ⟨_, _, _⟩ event - ⟨rfl, rfl, rfl⟩
    exact ⟨rfl, rfl, List.append_assoc told v.trace [event]⟩
  publishUpdate := by
    rintro v ⟨_, _, _⟩ params delivery ⟨rfl, rfl, rfl⟩
    unfold publishUpdate
    dsimp only
    split <;> exact ⟨rfl, rfl, by simp [note]⟩
  publishFailure := by
    rintro v ⟨_, _, _⟩ params failure ⟨rfl, rfl, rfl⟩
    unfold publishFailure
    dsimp only
    split <;> exact ⟨rfl, rfl, by simp [note]⟩

end Outputs

namespace Cache

variable {told : List (Event P A V E)} {c c' : Cache P A V E}

/-- A cache that has told something before is the same otherwise. -/
theorem alike_behind (told : List (Event P A V E)) (c : Cache P A V E) :
    Alike (Outputs.Behind told) c (c.behind told) :=
  ⟨⟨(c.behind told).env.outputs, rfl, rfl, rfl, rfl⟩, rfl⟩

/-- A cache that is alike but for what was told before is the one that has told it. -/
theorem InStep.eq_behind (h : Alike (Outputs.Behind told) c c') : c' = c.behind told := by
  obtain ⟨⟨⟨_, _, _⟩, henv, rfl, rfl, rfl⟩, hflights⟩ := h
  obtain ⟨env, flights⟩ := c
  obtain ⟨env', flights'⟩ := c'
  cases henv
  cases hflights
  rfl

end Cache

variable [DecidableEq P] [DecidableEq A]

/-- Environments that are related have the same but for what was told before. -/
theorem Environment.tuned_behind (told : List (Event P A V E)) :
    Tuned (Environment.Alike (Outputs.Behind told)) where
  toWorking := (Outputs.kept_behind told).working
  updates h := h.outputs.updates
  errors h := h.outputs.errors
  withUpdates := by
    rintro env _ channel ⟨v, rfl, -, herrors, htrace⟩
    exact ⟨{ v with updates := channel }, rfl, rfl, herrors, htrace⟩
  withErrors := by
    rintro env _ channel ⟨v, rfl, hupdates, -, htrace⟩
    exact ⟨{ v with errors := channel }, rfl, hupdates, rfl, htrace⟩

variable [DecidableEq V]

/-- A task does not look at what was told before. -/
theorem Task.poll_behind (told : List (Event P A V E)) (task : Task P A V E) (c : Cache P A V E) :
    task.poll (c.behind told) =
      ((task.poll c).1, (task.poll c).2.1, (task.poll c).2.2.behind told) := by
  obtain ⟨hanswer, htask, hcache⟩ :=
    task.tuned_poll (Environment.tuned_behind told) (Outputs.kept_behind told).lockstep
      (c.alike_behind told)
  exact Prod.ext hanswer (Prod.ext htask hcache.eq_behind)

namespace Session

/-! ## Joins -/

/-- Whether a step polls several tasks, some of which are chosen. -/
def Step.mixes (chosen : String → Bool) : Step P A V → Bool
  | .join ids => ids.any chosen
  | _ => false

/-- The steps that poll one task at a time and together do what a step does that mixes tasks. -/
def singly (chosen : String → Bool) (s : Session P A V E) : Step P A V → List (Step P A V)
  | .join ids =>
    if ids.any chosen then (asked pollTask (s.patience ids) ids s.fresh).map .poll
    else [.join ids]
  | st => [st]

/-- A run, with single polls in the place of the joins that poll some of the chosen tasks. -/
def unfolded (chosen : String → Bool) (s : Session P A V E) :
    List (Step P A V) → List (Step P A V)
  | [] => []
  | st :: rest => singly chosen s st ++ unfolded chosen (s.step st).2 rest

/-- The answers of a step that tell something, with the tasks that they are from. -/
def Step.tidings : Step P A V → Response P A V E → List (String × TaskAnswer (Item P V E))
  | .poll id, .answer answer => told id answer
  | .drain id, .answers answers => answers.flatMap (told id)
  | .join _, .joined answers => answers
  | _, _ => []

/-- The answers in a run that tell something. -/
def news (s : Session P A V E) : List (Step P A V) → List (String × TaskAnswer (Item P V E))
  | [] => []
  | st :: rest => st.tidings (s.step st).1.response ++ news (s.step st).2 rest

/-- From a session, the steps `steps'` poll chosen tasks one by one, and otherwise do what the steps
`steps` do: they leave the same session, tell the same and make the same happen. They are the same
steps, if these poll chosen tasks one by one already. -/
structure Unfolds (chosen : String → Bool) (s : Session P A V E)
    (steps steps' : List (Step P A V)) : Prop where
  single : ∀ st ∈ steps', st.mixes chosen = false
  goes : (s.run steps').2.fresh = (s.run steps).2.fresh
  tells : s.news steps' = s.news steps
  events : eventsOf (s.run steps').1 = eventsOf (s.run steps).1
  begins : ∀ id request, .begin id request ∈ steps' → .begin id request ∈ steps
  same : (∀ st ∈ steps, st.mixes chosen = false) → steps' = steps

variable {s s' : Session P A V E} {chosen : String → Bool}

/-! ## What happened before does not matter -/

/-- A step empties the trace that it finds. -/
theorem step_fresh (s : Session P A V E) (st : Step P A V) : s.fresh.step st = s.step st := rfl

/-- A step does not depend on the trace that it finds. -/
theorem step_of_fresh (h : s.fresh = s'.fresh) (st : Step P A V) : s.step st = s'.step st := by
  rw [← step_fresh, h, step_fresh]

/-- A run does not depend on the trace that it finds. -/
theorem run_of_fresh (h : s.fresh = s'.fresh) (steps : List (Step P A V)) :
    (s.run steps).1 = (s'.run steps).1 ∧ (s.run steps).2.fresh = (s'.run steps).2.fresh ∧
      s.news steps = s'.news steps := by
  cases steps with
  | nil => exact ⟨rfl, h, rfl⟩
  | cons st rest => simp only [run, news, step_of_fresh h st, and_self]

/-- A poll does not depend on what was told before, and tells its events after it. -/
theorem pollTask_behind (events : List (Event P A V E)) (id : String) (s : Session P A V E) :
    pollTask id { s with cache := s.cache.behind events } =
      ((s.pollTask id).1,
        { (s.pollTask id).2 with cache := (s.pollTask id).2.cache.behind events }) := by
  unfold pollTask
  dsimp only
  cases s.tasks.get? id with
  | none => rfl
  | some task =>
    dsimp only
    rw [Task.poll_behind]

/-! ## Polls, one by one -/

omit [DecidableEq P] [DecidableEq A] [DecidableEq V] in
/-- A session is the one with an empty trace that has told its trace before. -/
theorem eq_behind_fresh (s : Session P A V E) :
    s = { s.fresh with cache := s.fresh.cache.behind s.cache.env.trace } := by
  obtain ⟨⟨env, flights⟩, tasks, closed⟩ := s
  simp [fresh, Cache.behind]

/-- The steps of one pass. -/
theorem run_polls (ids : List String) (s : Session P A V E) :
    (s.run (ids.map .poll)).2.fresh = (pass pollTask ids s.fresh).2.fresh ∧
      s.news (ids.map .poll) = (pass pollTask ids s.fresh).1 ∧
      eventsOf (s.run (ids.map .poll)).1 = (pass pollTask ids s.fresh).2.cache.env.trace := by
  induction ids generalizing s with
  | nil => exact ⟨rfl, rfl, rfl⟩
  | cons id ids ih =>
    obtain ⟨hresponse, hstate⟩ := step_of_taken s (.poll id) (.inr rfl)
    let polled := (s.fresh.pollTask id).2
    obtain ⟨hgoes, htells, hevents⟩ := ih polled
    -- The rest of the pass goes on behind what the first poll has told.
    let Behind (s s' : Session P A V E) : Prop :=
      s' = { s with cache := s.cache.behind polled.cache.env.trace }
    have halike : ∀ id ∈ ids, ∀ s s', Behind s s' →
        (s'.pollTask id).1 = (s.pollTask id).1 ∧ Behind (s.pollTask id).2 (s'.pollTask id).2 := by
      rintro id - s _ rfl
      rw [pollTask_behind]
      exact ⟨rfl, rfl⟩
    have hbehind : Behind polled.fresh polled := polled.eq_behind_fresh
    obtain ⟨hanswers, hlast⟩ := pass_alike halike hbehind
    have hnews : s.news (.poll id :: ids.map .poll) =
        told id (s.fresh.pollTask id).1 ++ polled.news (ids.map .poll) := by
      rw [news, hresponse, hstate]
      rfl
    have hrun : (s.run (.poll id :: ids.map .poll)).2 = (polled.run (ids.map .poll)).2 ∧
        eventsOf (s.run (.poll id :: ids.map .poll)).1 =
          polled.cache.env.trace ++ eventsOf (polled.run (ids.map .poll)).1 := by
      show ((s.step (.poll id)).2.run _).2 = _ ∧
        (s.step (.poll id)).2.cache.env.trace ++ eventsOf ((s.step (.poll id)).2.run _).1 = _
      rw [hstate]
      exact ⟨rfl, rfl⟩
    have hpass : pass pollTask (id :: ids) s.fresh =
        (told id (s.fresh.pollTask id).1 ++ (pass pollTask ids polled).1,
          (pass pollTask ids polled).2) := by
      rw [pass, told]
      dsimp only
      split <;> rfl
    rw [List.map_cons, hpass, hnews, hrun.1, hrun.2, hgoes, htells, hevents, hanswers, hlast]
    exact ⟨rfl, rfl, rfl⟩

/-! ## Runs in pieces -/

/-- A run in two parts reports what the parts report. -/
theorem reports_append (s : Session P A V E) (before after : List (Step P A V)) :
    (s.run (before ++ after)).1 = (s.run before).1 ++ ((s.run before).2.run after).1 ∧
      s.news (before ++ after) = s.news before ++ (s.run before).2.news after := by
  induction before generalizing s with
  | nil => exact ⟨rfl, rfl⟩
  | cons st rest ih =>
    obtain ⟨hreports, hnews⟩ := ih (s.step st).2
    simp only [List.cons_append, run, news, hreports, hnews, List.append_assoc, and_self]

/-- A step unfolds into steps that poll one chosen task at a time. -/
theorem unfolds_singly (chosen : String → Bool) (s : Session P A V E) (st : Step P A V) :
    Unfolds chosen s [st] (singly chosen s st) := by
  -- Only joins poll several tasks, and they poll them one by one, pass after pass.
  by_cases hmixes : st.mixes chosen = true
  · obtain ⟨ids, rfl⟩ : ∃ ids, st = .join ids := by
      cases st with
      | join ids => exact ⟨ids, rfl⟩
      | _ => cases hmixes
    obtain ⟨hresponse, hstate⟩ := step_of_taken s (.join ids) (.inr rfl)
    obtain ⟨hgoes, htells, hevents⟩ := run_polls (asked pollTask (s.patience ids) ids s.fresh) s
    rw [← join_eq_pass] at hgoes htells hevents
    have hsingly : singly chosen s (.join ids) =
        (asked pollTask (s.patience ids) ids s.fresh).map .poll := if_pos hmixes
    rw [hsingly]
    refine ⟨?_, ?_, ?_, ?_, ?_, ?_⟩
    · intro st hst
      obtain ⟨id, -, rfl⟩ := List.mem_map.mp hst
      rfl
    · rw [hgoes]
      exact congrArg fresh hstate.symm
    · rw [htells, news, news, hresponse, List.append_nil]
      rfl
    · rw [hevents]
      show _ = (s.step (.join ids)).2.cache.env.trace ++ []
      rw [hstate, List.append_nil]
      rfl
    · intro id request hbegin
      obtain ⟨id', -, heq⟩ := List.mem_map.mp hbegin
      cases heq
    · intro hsingle
      exact absurd hmixes (Bool.eq_false_iff.mp (hsingle _ (List.mem_singleton_self _)))
  · have hsingly : singly chosen s st = [st] := by
      cases st with
      | join ids => exact if_neg hmixes
      | _ => rfl
    rw [hsingly]
    refine ⟨?_, rfl, rfl, rfl, fun _ _ => id, fun _ => rfl⟩
    intro st' hst'
    rw [List.mem_singleton.mp hst']
    exact Bool.eq_false_iff.mpr hmixes

/-- Two parts of a run unfold one after the other. -/
theorem Unfolds.append {first first' rest rest' : List (Step P A V)}
    (h : Unfolds chosen s first first') (h' : Unfolds chosen (s.run first).2 rest rest') :
    Unfolds chosen s (first ++ rest) (first' ++ rest') := by
  obtain ⟨hreports, hgoes, hnews⟩ := run_of_fresh h.goes rest'
  have hfirst := s.reports_append first' rest'
  have hlast := s.reports_append first rest
  refine ⟨?_, ?_, ?_, ?_, ?_, ?_⟩
  · intro st hst
    rcases List.mem_append.mp hst with hst | hst
    · exact h.single st hst
    · exact h'.single st hst
  · rw [run_append, run_append]
    exact hgoes.trans h'.goes
  · rw [hfirst.2, hlast.2, h.tells, hnews, h'.tells]
  · have happend : ∀ reports reports' : List (Report P A V E),
        eventsOf (reports ++ reports') = eventsOf reports ++ eventsOf reports' := fun _ _ =>
      List.flatMap_append
    rw [hfirst.1, hlast.1, happend, happend, h.events, hreports, h'.events]
  · intro id request hbegin
    rcases List.mem_append.mp hbegin with hbegin | hbegin
    · exact List.mem_append_left _ (h.begins id request hbegin)
    · exact List.mem_append_right _ (h'.begins id request hbegin)
  · intro hsingle
    obtain ⟨hbefore, hafter⟩ := List.forall_mem_append.mp hsingle
    rw [h.same hbefore, h'.same hafter]

/-- A run with single polls in the place of the joins that poll some of the chosen tasks goes the
same way. -/
theorem unfolds (chosen : String → Bool) (s : Session P A V E) (steps : List (Step P A V)) :
    Unfolds chosen s steps (s.unfolded chosen steps) := by
  induction steps generalizing s with
  | nil => exact ⟨nofun, rfl, rfl, rfl, nofun, fun _ => rfl⟩
  | cons st rest ih => exact (unfolds_singly chosen s st).append (ih (s.step st).2)

end Session

end ReadThrough
