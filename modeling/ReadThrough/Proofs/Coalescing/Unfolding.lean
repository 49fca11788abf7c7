import ReadThrough.Proofs.Coalescing.Outcomes
/-!
# Proofs: joins are polls

A step that polls several jobs until they give nothing does what so many steps that poll one job do.
Every run can therefore be written with single polls only: it goes the same way and tells the same
(`unfolds`).
-/

namespace ReadThrough

variable {K V : Type}

namespace Coalescing

/-- The state without what happened to the registry during the last step, which no later step looks
at. -/
def quiet (r : Coalescing K V) : Coalescing K V := { r with notices := [] }

/-- Whether a step polls several jobs. -/
def Step.isJoin : Step K V → Bool
  | .join _ => true
  | _ => false

variable [DecidableEq K]

/-- The steps that poll one job at a time and together do what a step does. -/
def singly (r : Coalescing K V) : Step K V → List (Step K V)
  | .join ids => (asked pollJob (ids.length + 1) ids r.quiet).map .poll
  | s => [s]

/-- A run, with single polls in the place of its joins. -/
def unfolded (r : Coalescing K V) (steps : List (Step K V)) : List (Step K V) :=
  along singly r steps

/-- The answers of a step that tell something, with the jobs that they are for. -/
def tidings (r : Coalescing K V) (s : Step K V) : List (String × TaskAnswer (Outcome V)) :=
  (s.answers (r.step s).1.response).filter (·.2.tells)

/-- From a state, the steps `steps'` poll jobs one by one and do what the steps `steps` do. -/
structure Unfolds (r : Coalescing K V) (steps steps' : List (Step K V)) : Prop where
  single : ∀ s ∈ steps', s.isJoin = false
  goes : (r.run steps').2.quiet = (r.run steps).2.quiet
  tells : along tidings r steps' = along tidings r steps

variable {r r' : Coalescing K V}

/-! ## Runs in pieces -/

/-- A run of more steps is a run of the first and then one of the others. -/
theorem run_append (r : Coalescing K V) (before after : List (Step K V)) :
    r.run (before ++ after) =
      ((r.run before).1 ++ ((r.run before).2.run after).1, ((r.run before).2.run after).2) := by
  induction before generalizing r with
  | nil => rfl
  | cons s rest ih => simp only [List.cons_append, run, ih]

/-- What is read off the steps of a run is read off the first and then off the others. -/
theorem along_append {α : Type} (f : Coalescing K V → Step K V → List α) (r : Coalescing K V)
    (before after : List (Step K V)) :
    along f r (before ++ after) = along f r before ++ along f (r.run before).2 after := by
  induction before generalizing r with
  | nil => rfl
  | cons s rest ih => simp only [List.cons_append, along, run, ih, List.append_assoc]

/-! ## What happened before does not matter -/

/-- A step forgets the notices of the step before at its beginning. -/
theorem step_quiet (r : Coalescing K V) (s : Step K V) : r.quiet.step s = r.step s := rfl

/-- States that differ in the notices of the last step do the same next. -/
theorem step_of_quiet (h : r.quiet = r'.quiet) (s : Step K V) : r.step s = r'.step s := by
  rw [← step_quiet, h, step_quiet]

/-- States that differ in the notices of the last step run alike. -/
theorem run_of_quiet (h : r.quiet = r'.quiet) (steps : List (Step K V)) :
    (r.run steps).1 = (r'.run steps).1 ∧ (r.run steps).2.quiet = (r'.run steps).2.quiet := by
  cases steps with
  | nil => exact ⟨rfl, h⟩
  | cons s rest => simp only [run, step_of_quiet h s, and_self]

/-- What is read off steps that do not look at the notices is the same along both runs. -/
theorem along_of_quiet {α : Type} {f : Coalescing K V → Step K V → List α}
    (hf : ∀ {r r' : Coalescing K V}, r.quiet = r'.quiet → ∀ s, f r s = f r' s)
    (h : r.quiet = r'.quiet) (steps : List (Step K V)) : along f r steps = along f r' steps := by
  cases steps with
  | nil => rfl
  | cons s rest => simp only [along, hf h s, step_of_quiet h s]

/-- States that differ in the notices of the last step answer the same. -/
theorem tidings_of_quiet (h : r.quiet = r'.quiet) (s : Step K V) : tidings r s = tidings r' s := by
  rw [tidings, step_of_quiet h, tidings]

/-! ## Polls, one by one -/

/-- A poll looks at nothing that happened before it. -/
theorem pollJob_of_quiet (h : r.quiet = r'.quiet) (id : String) :
    (r'.pollJob id).1 = (r.pollJob id).1 ∧ (r.pollJob id).2.quiet = (r'.pollJob id).2.quiet := by
  obtain ⟨f, shop, jobs, closed, notices⟩ := r
  obtain ⟨f', shop', jobs', closed', notices'⟩ := r'
  cases h
  unfold pollJob
  cases jobs.get? id with
  | none => exact ⟨rfl, rfl⟩
  | some job =>
    cases job with
    | ended => exact ⟨rfl, rfl⟩
    | shared e =>
      dsimp only
      rcases f.poll Production.poll e shop with ⟨_ | outcome, f', shop', ns⟩
      · exact ⟨rfl, rfl⟩
      · exact ⟨rfl, rfl⟩
    | exclusive production =>
      dsimp only
      rcases production.poll shop with ⟨rest | outcome, shop'⟩
      · exact ⟨rfl, rfl⟩
      · exact ⟨rfl, rfl⟩

/-- A step that polls a job polls it after it has forgotten the notices. -/
theorem step_poll (r : Coalescing K V) (id : String) :
    (r.step (.poll id)).1.response = .answer (pollJob id r.quiet).1 ∧
      (r.step (.poll id)).2 = (pollJob id r.quiet).2 := by
  rw [step_response, step_snd, attempt, if_neg (by simp [Step.needsRegistry])]
  exact ⟨rfl, rfl⟩

/-- A step that joins jobs joins them after it has forgotten the notices. -/
theorem step_join (r : Coalescing K V) (ids : List String) :
    (r.step (.join ids)).1.response =
        .joined (ReadThrough.join pollJob (ids.length + 1) ids r.quiet).1 ∧
      (r.step (.join ids)).2 = (ReadThrough.join pollJob (ids.length + 1) ids r.quiet).2 := by
  rw [step_response, step_snd, attempt, if_neg (by simp [Step.needsRegistry])]
  exact ⟨rfl, rfl⟩

/-- A poll tells what it answers, unless that is nothing new. -/
theorem tidings_poll (r : Coalescing K V) (id : String) :
    tidings r (.poll id) = told id (pollJob id r.quiet).1 := by
  rw [tidings, (step_poll r id).1, Step.answers, told, List.filter_cons, List.filter_nil]

/-- The steps of one pass. -/
theorem run_polls (ids : List String) (r : Coalescing K V) :
    (r.run (ids.map .poll)).2.quiet = (pass pollJob ids r.quiet).2.quiet ∧
      along tidings r (ids.map .poll) = (pass pollJob ids r.quiet).1 := by
  induction ids generalizing r with
  | nil => exact ⟨rfl, rfl⟩
  | cons id ids ih =>
    obtain ⟨hgoes, htells⟩ := ih (pollJob id r.quiet).2
    have hquiet : (pollJob id r.quiet).2.quiet.quiet = (pollJob id r.quiet).2.quiet := rfl
    have halike : ∀ id ∈ ids, ∀ r r' : Coalescing K V, r.quiet = r'.quiet →
        (r'.pollJob id).1 = (r.pollJob id).1 ∧ (r.pollJob id).2.quiet = (r'.pollJob id).2.quiet :=
      fun id _ _ _ h => pollJob_of_quiet h id
    obtain ⟨hanswers, hlast⟩ := pass_alike halike hquiet
    simp only [List.map_cons, run, along, (step_poll r id).2, tidings_poll, pass]
    refine ⟨hgoes.trans hlast, ?_⟩
    rw [htells, ← hanswers, told]
    split <;> rfl

/-! ## Joins -/

/-- To poll one job at a time comes to the same as to join them. -/
theorem unfolds_singly (r : Coalescing K V) (s : Step K V) : Unfolds r [s] (r.singly s) := by
  cases s with
  | join ids =>
    obtain ⟨hgoes, htells⟩ := run_polls (asked pollJob (ids.length + 1) ids r.quiet) r
    rw [← join_eq_pass] at hgoes htells
    obtain ⟨hresponse, hstate⟩ := step_join r ids
    refine ⟨?_, ?_, ?_⟩
    · intro s hs
      obtain ⟨id, -, rfl⟩ := List.mem_map.mp hs
      rfl
    · have hrun : (r.run [.join ids]).2 = (r.step (.join ids)).2 := rfl
      rw [singly, hgoes, hrun, hstate]
    · rw [singly, htells, along, along, List.append_nil, tidings, hresponse, Step.answers]
      refine (List.filter_eq_self.mpr ?_).symm
      intro p hp
      rw [join_eq_pass] at hp
      exact tells_of_mem_pass pollJob hp
  | _ => exact ⟨fun s hs => List.mem_singleton.mp hs ▸ rfl, rfl, rfl⟩

/-- What unfolds in two parts unfolds as a whole. -/
theorem Unfolds.append {first first' rest rest' : List (Step K V)} (h : Unfolds r first first')
    (h' : Unfolds (r.run first).2 rest rest') : Unfolds r (first ++ rest) (first' ++ rest') := by
  refine ⟨?_, ?_, ?_⟩
  · intro s hs
    rcases List.mem_append.mp hs with hs | hs
    · exact h.single s hs
    · exact h'.single s hs
  · rw [run_append, run_append]
    exact (run_of_quiet h.goes rest').2.trans h'.goes
  · rw [along_append, along_append, h.tells, along_of_quiet tidings_of_quiet h.goes, h'.tells]

/-- A run with single polls in the place of its joins goes the same way and tells the same. -/
theorem unfolds (r : Coalescing K V) (steps : List (Step K V)) :
    Unfolds r steps (r.unfolded steps) := by
  induction steps generalizing r with
  | nil => exact ⟨nofun, rfl, rfl⟩
  | cons s rest ih => exact (unfolds_singly r s).append (ih (r.step s).2)

end Coalescing

end ReadThrough
