import ReadThrough.Proofs.Coalescing.Mirrors
/-!
# Proofs: keys do not disturb each other

The jobs of some keys are told the same whether or not there are jobs of other keys, and jobs that
run alone, besides them. To say so, a run is read with an eye on the jobs of some keys: what is left
of it without the others (`isolated`) is a run of its own, and shows the same of these jobs
(`sights`). A job that runs alone is told what it would be told if there were no other job.
-/

namespace ReadThrough

variable {K V : Type}

/-- What a call for a key or a poll shows: what is answered, whether the call attached to an
execution, and the producers that were called. -/
structure Sight (V : Type) where
  response : Coalescing.Response V
  attached : List Bool
  called : List String

namespace Coalescing

/-! ## What is left of a run -/

/-- The name that a step gives to a new job. -/
def Step.begins? : Step K V → Option String
  | .shared id _ _ | .exclusive id _ => some id
  | _ => none

/-- Whether a step is about the jobs of some keys, which are known by their names, or about all
jobs. -/
def Step.concerns (s : Step K V) (owns : K → Bool) (mine : String → Bool) : Bool :=
  match s with
  | .shared _ key _ => owns key
  | .poll id | .drop id => mine id
  | .openGate _ | .closeGate _ | .dropRegistry => true
  | .exclusive _ _ | .join _ | .inspect => false

/-- The names of the jobs of some keys after a step. -/
def ours (owns : K → Bool) (mine : String → Bool) (r : Coalescing K V) (s : Step K V) :
    String → Bool :=
  match s with
  | .shared id key _ => if r.closed then mine else Function.update mine id (owns key)
  | .exclusive id _ => if r.closed then mine else Function.update mine id false
  | _ => mine

/-- What is left of a step for the jobs of some keys. A step that concerns others may still drop one
of these jobs, by giving its name to a new one. -/
def remains (owns : K → Bool) (mine : String → Bool) (r : Coalescing K V) (s : Step K V) :
    List (Step K V) :=
  if s.concerns owns mine then [s]
  else if r.closed then []
  else (s.begins?.toList.filter mine).map .drop

variable [DecidableEq K]

/-- A run without the jobs of other keys and those that run alone, unless they are named in
`mine`. -/
def isolated (owns : K → Bool) :
    (String → Bool) → Coalescing K V → List (Step K V) → List (Step K V)
  | _, _, [] => []
  | mine, r, s :: rest =>
    remains owns mine r s ++ isolated owns (ours owns mine r s) (r.step s).2 rest

/-- What a step shows. -/
def sight (r : Coalescing K V) (s : Step K V) : List (Sight V) :=
  match s with
  | .shared _ _ _ | .poll _ =>
    [{ response := (r.step s).1.response
       attached := (r.step s).1.notices.filterMap Notice.attached?
       called := (r.step s).1.started.drop r.shop.started.length }]
  | _ => []

/-- What a run shows of the jobs of some keys. -/
def sights (owns : K → Bool) : (String → Bool) → Coalescing K V → List (Step K V) → List (Sight V)
  | _, _, [] => []
  | mine, r, s :: rest =>
    (if s.concerns owns mine then sight r s else []) ++
      sights owns (ours owns mine r s) (r.step s).2 rest

variable {owns : K → Bool} {mine : String → Bool} {place : Nat → Nat} {r r' : Coalescing K V}
  {id : String}

/-! ## What the steps show -/

/-- A step that polls a job shows its answer and the producers that were called. -/
theorem sight_poll (r : Coalescing K V) (id : String) :
    sight r (.poll id) = [⟨.answer (pollJob id r.quiet).1, [],
      (pollJob id r.quiet).2.shop.started.drop r.shop.started.length⟩] := by
  have hattached : (r.step (.poll id)).2.notices.filterMap Notice.attached? = [] := by
    rw [(step_poll r id).2, attached_pollJob]
    rfl
  have hstarted : (r.step (.poll id)).1.started = (pollJob id r.quiet).2.shop.started :=
    congrArg (fun r : Coalescing K V => r.shop.started) (step_poll r id).2
  rw [sight, (step_poll r id).1, step_notices, hattached, hstarted]

/-- A call by itself calls no producer. -/
theorem started_call (r : Coalescing K V) (id : String) (key : K) (producer : Producer V) :
    (r.call id key producer).shop.started = r.shop.started := by
  unfold call
  exact (idles_dropJob id _).shop

/-- A call notes that it attached, if it did. -/
theorem attached_call (r : Coalescing K V) (id : String) (key : K) (producer : Producer V) :
    (r.call id key producer).notices.filterMap Notice.attached? =
      r.notices.filterMap Notice.attached? ++
        (r.flights.enter key (.uncalled id producer)).2.2.attached?.toList := by
  unfold call
  rcases r.flights.enter key (.uncalled id producer) with ⟨e, f, notice⟩
  refine (attached_dropJob _ id).trans ?_
  show (r.notices ++ [notice]).filterMap Notice.attached? = _
  rw [List.filterMap_append]
  cases notice with
  | started | attached | removed => rfl

/-- A call calls no producer. -/
theorem sight_shared (hopen : r.closed = false) (id : String) (key : K) (producer : Producer V) :
    sight r (.shared id key producer) = [⟨.begun,
      (r.flights.enter key (.uncalled id producer)).2.2.attached?.toList, []⟩] := by
  have hresponse : (r.step (.shared id key producer)).1.response = .begun := by
    rw [step_response, attempt, hopen]
    rfl
  have hattached : (r.step (.shared id key producer)).2.notices.filterMap Notice.attached? =
      (r.flights.enter key (.uncalled id producer)).2.2.attached?.toList := by
    rw [step_shared hopen]
    exact attached_call r.quiet id key producer
  have hstarted : (r.step (.shared id key producer)).1.started = r.shop.started := by
    show (r.step (.shared id key producer)).2.shop.started = _
    rw [step_shared hopen, started_call]
  rw [sight, hresponse, step_notices, hattached, hstarted, List.drop_length]

/-- A step that is not refused is performed. -/
theorem step_of_open {s : Step K V} (hopen : s.needsRegistry = true → r.closed = false) :
    (r.step s).1.response = (r.quiet.perform s).1 ∧ (r.step s).2 = (r.quiet.perform s).2 := by
  have hneeds : ¬ (r.closed && s.needsRegistry) = true := by
    intro hrefused
    rw [Bool.and_eq_true] at hrefused
    rw [hopen hrefused.2] at hrefused
    cases hrefused.1
  rw [step_response, step_snd, attempt, if_neg hneeds]
  exact ⟨rfl, rfl⟩

/-- Without a registry a call is refused. -/
theorem step_of_closed (hclosed : r.closed = true) {s : Step K V} (hs : s.needsRegistry = true) :
    (r.step s).1.response = .invalid ∧ (r.step s).2 = r.quiet := by
  rw [step_response, step_snd, attempt, if_pos (by rw [hclosed, hs]; rfl)]
  exact ⟨rfl, rfl⟩

/-- A call without a registry is refused, and shows so. -/
theorem sight_shared_of_closed (hclosed : r.closed = true) (id : String) (key : K)
    (producer : Producer V) : sight r (.shared id key producer) = [⟨.invalid, [], []⟩] := by
  obtain ⟨hresponse, hstate⟩ := step_of_closed hclosed (s := .shared id key producer) rfl
  have hstarted : (r.step (.shared id key producer)).1.started = r.shop.started := by
    show (r.step (.shared id key producer)).2.shop.started = _
    rw [hstate]
    rfl
  rw [sight, hresponse, step_notices, hstate, hstarted, List.drop_length]
  rfl

/-! ## Steps and runs -/

/-- What a step does to the mirror is what is left of it for the jobs of the keys. -/
structure Reflects (owns : K → Bool) (mine : String → Bool) (r r' : Coalescing K V) (s : Step K V) :
    Prop where
  shows : (if s.concerns owns mine then sight r s else []) = along sight r' (remains owns mine r s)
  mirrors : ∃ place, Mirrors owns (ours owns mine r s) place (r.step s).2
    (r'.run (remains owns mine r s)).2

/-- A step about the jobs of the keys is taken over as it is. -/
theorem Reflects.of_concerns {s : Step K V} (hs : s.concerns owns mine = true)
    (hshows : sight r s = sight r' s)
    (hmirrors : ∃ place, Mirrors owns (ours owns mine r s) place (r.step s).2 (r'.step s).2) :
    Reflects owns mine r r' s := by
  have hremains : remains owns mine r s = [s] := by rw [remains, if_pos hs]
  refine ⟨?_, ?_⟩
  · rw [if_pos hs, hremains, hshows, along, along, List.append_nil]
  · rw [hremains]
    exact hmirrors

/-- Most steps that do not concern the jobs leave nothing. -/
theorem Reflects.of_ignored {s : Step K V} (hs : s.concerns owns mine = false)
    (hbegins : s.begins? = none) (hours : ours owns mine r s = mine)
    (hmirrors : ∃ place, Mirrors owns mine place (r.step s).2 r') : Reflects owns mine r r' s := by
  have hremains : remains owns mine r s = [] := by
    rw [remains, hs, hbegins]
    cases r.closed <;> rfl
  refine ⟨?_, ?_⟩
  · rw [hs, hremains]
    rfl
  · rw [hours, hremains]
    exact hmirrors

/-- A step that does not concern the jobs may take one of their names away. -/
theorem run_remains {s : Step K V} (hs : s.concerns owns mine = false) (hopen : r.closed = false)
    (hbegins : s.begins? = some id) :
    along sight r' (remains owns mine r s) = [] ∧
      (r'.run (remains owns mine r s)).2.quiet =
        (if mine id then r'.quiet.dropJob id else r'.quiet).quiet := by
  rw [remains, hs, hopen, hbegins]
  cases hmine : mine id with
  | true =>
    have hdrop : (r'.step (.drop id)).2 = r'.quiet.dropJob id := step_drop r' id
    have hfilter : (some id).toList.filter mine = [id] := by simp [hmine]
    simp only [Bool.false_eq_true, if_false, if_true, hfilter, List.map_cons, List.map_nil, run,
      along, hdrop]
    exact ⟨rfl, trivial⟩
  | false =>
    have hfilter : (some id).toList.filter mine = [] := by simp [hmine]
    simp only [Bool.false_eq_true, if_false, hfilter, List.map_nil, run, along]
    exact ⟨trivial, rfl⟩

omit [DecidableEq K] in
/-- The mirror may have other notices. -/
theorem Mirrors.of_quiet {r₁' : Coalescing K V} (h : Mirrors owns mine place r r')
    (hquiet : r₁'.quiet = r'.quiet) : Mirrors owns mine place r r₁' := by
  obtain ⟨flights, shop, jobs, closed, notices⟩ := r'
  obtain ⟨flights', shop', jobs', closed', notices'⟩ := r₁'
  cases hquiet
  exact ⟨h.flights, h.jobs, h.divided, h.gates, h.closed⟩

section Steps

variable (h : Mirrors owns mine place r r') (hsound : r.Sound)
include h hsound

/-- To poll a job is reflected by the same poll, if the job is one of the keys, and by nothing
otherwise. -/
theorem Mirrors.reflects_poll (hsteady : r.Steady) (id : String) :
    Reflects owns mine r r' (.poll id) := by
  have hquiet := h.quiet
  have hsound₀ : r.quiet.Sound := ⟨hsound.tracked, hsound.registered⟩
  have hsteady₀ : r.quiet.Steady := ⟨hsteady.shared, hsteady.alone⟩
  cases hmine : mine id with
  | true =>
    obtain ⟨hanswer, hlike, hmirrors⟩ := hquiet.pollJob_both hsound₀ hsteady₀ hmine
    obtain ⟨calls, hcalls, hcalls'⟩ := hlike.started
    refine .of_concerns hmine ?_ ⟨place, ?_⟩
    · rw [sight_poll, sight_poll, hanswer, hcalls, hcalls']
      simp [Coalescing.quiet]
    · rw [(step_poll r id).2, (step_poll r' id).2]
      exact hmirrors
  | false =>
    refine .of_ignored hmine rfl rfl ⟨place, ?_⟩
    rw [(step_poll r id).2]
    exact (hquiet.pollJob_stranger hsound₀ hmine).of_quiet rfl

/-- To drop a job is reflected by the same drop, if the job is one of the keys, and by nothing
otherwise. -/
theorem Mirrors.reflects_drop (id : String) : Reflects owns mine r r' (.drop id) := by
  have hquiet := h.quiet
  have hpos : ∀ e, r.quiet.jobs.get? id = some (.shared e) → 0 < r.quiet.waiting e :=
    fun e hget => waiting_pos hget
  cases hmine : mine id with
  | true =>
    refine .of_concerns hmine rfl ⟨place, ?_⟩
    rw [step_drop, step_drop]
    exact hquiet.dropJob_both hsound.tracked hpos
  | false =>
    refine .of_ignored hmine rfl rfl ⟨place, ?_⟩
    rw [step_drop]
    exact (hquiet.dropJob_stranger hsound.tracked hpos hmine).of_quiet rfl

/-- A new job that does its work alone may take the name of a job of the keys, which is dropped
then. -/
theorem Mirrors.reflects_exclusive (id : String) (producer : Producer V) :
    Reflects owns mine r r' (.exclusive id producer) := by
  have hquiet := h.quiet
  cases hclosed : r.closed with
  | true =>
    have hours : ours owns mine r (.exclusive id producer) = mine := by
      rw [ours, hclosed, if_pos rfl]
    have hremains : remains owns mine r (.exclusive id producer) = [] := by
      rw [remains, hclosed]
      rfl
    refine ⟨by rw [hremains]; rfl, place, ?_⟩
    rw [hours, hremains, (step_of_closed hclosed rfl).2]
    exact hquiet.of_quiet rfl
  | false =>
    have hours : ours owns mine r (.exclusive id producer) = Function.update mine id false := by
      rw [ours, hclosed, if_neg Bool.false_ne_true]
    obtain ⟨hnothing, hrun⟩ : along sight r' (remains owns mine r (.exclusive id producer)) = [] ∧
      _ := run_remains rfl hclosed rfl
    have hpos : ∀ e, r.quiet.jobs.get? id = some (.shared e) → 0 < r.quiet.waiting e :=
      fun e hget => waiting_pos hget
    refine ⟨hnothing.symm, place, ?_⟩
    rw [hours, (step_of_open fun _ => hclosed).2]
    have hmirrors := hquiet.replace_stranger hsound.tracked hpos
      (.exclusive (.uncalled id producer)) fun _ h => by cases h
    exact hmirrors.of_quiet hrun

omit hsound in
/-- Without a registry a call is refused on both sides. -/
theorem Mirrors.reflects_refused (hclosed : r.closed = true) (id : String) (key : K)
    (producer : Producer V) : Reflects owns mine r r' (.shared id key producer) := by
  have hquiet := h.quiet
  have hclosed' := h.closed.trans hclosed
  have hours : ours owns mine r (.shared id key producer) = mine := by
    rw [ours, hclosed, if_pos rfl]
  cases hown : owns key with
  | true =>
    refine .of_concerns hown ?_ ⟨place, ?_⟩
    · rw [sight_shared_of_closed hclosed, sight_shared_of_closed hclosed']
    · rw [hours, (step_of_closed hclosed rfl).2, (step_of_closed hclosed' rfl).2]
      exact hquiet
  | false =>
    have hremains : remains owns mine r (.shared id key producer) = [] := by
      rw [remains, Step.concerns, hown, hclosed]
      rfl
    refine ⟨?_, place, ?_⟩
    · rw [hremains, Step.concerns, hown]
      rfl
    · rw [hours, hremains, (step_of_closed hclosed rfl).2]
      exact hquiet.of_quiet rfl

/-- A call for one of the keys is made on both sides; one for another key may take the name of a
job of the keys, which is dropped then. -/
theorem Mirrors.reflects_shared (hsound' : r'.Sound) (hopen : r.closed = false) (id : String)
    (key : K) (producer : Producer V) : Reflects owns mine r r' (.shared id key producer) := by
  have hquiet := h.quiet
  have hsound₀ : r.quiet.Sound := ⟨hsound.tracked, hsound.registered⟩
  have hopen' := h.closed.trans hopen
  have hours : ours owns mine r (.shared id key producer) =
      Function.update mine id (owns key) := by
    rw [ours, hopen, if_neg Bool.false_ne_true]
  cases hown : owns key with
  | true =>
    obtain ⟨hattached, hmirrors⟩ :=
      hquiet.call_both hsound₀ ⟨hsound'.tracked, hsound'.registered⟩ hopen id hown producer
    refine .of_concerns hown ?_ ?_
    · rw [sight_shared hopen, sight_shared hopen']
      exact congrArg (fun attached : Option Bool => [Sight.mk _ attached.toList _]) hattached.symm
    · rw [hours, hown, (step_of_open fun _ => hopen).2, (step_of_open fun _ => hopen').2]
      exact hmirrors
  | false =>
    obtain ⟨hnothing, hrun⟩ :
        along sight r' (remains owns mine r (.shared id key producer)) = [] ∧ _ :=
      run_remains hown hopen rfl
    refine ⟨?_, place, ?_⟩
    · rw [hnothing, Step.concerns, hown]
      rfl
    · rw [hours, hown, (step_of_open fun _ => hopen).2]
      exact (hquiet.call_stranger hsound₀ hopen id hown producer).of_quiet hrun

/-- Every step is reflected: one about the jobs of the keys is done on both sides, and shows the
same, of another one at most a dropped job is left. -/
theorem Mirrors.reflects (hsound' : r'.Sound) (hsteady : r.Steady) {s : Step K V}
    (hs : s.isJoin = false) : Reflects owns mine r r' s := by
  have hquiet := h.quiet
  cases s with
  | join ids => cases hs
  | inspect =>
    have hstate : (r.step .inspect).2 = r.quiet := by
      rw [step_snd, attempt]
      split <;> rfl
    have hmirrors : Mirrors owns mine place r.quiet r' := hquiet.of_quiet rfl
    exact .of_ignored rfl rfl rfl ⟨place, hstate ▸ hmirrors⟩
  | openGate gate =>
    refine .of_concerns rfl rfl ⟨place, ?_⟩
    have hopen : ∀ r : Coalescing K V,
        (Step.openGate gate : Step K V).needsRegistry = true → r.closed = false :=
      fun r h => by cases h
    rw [(step_of_open (hopen r)).2, (step_of_open (hopen r')).2]
    exact ⟨h.flights, h.jobs, h.divided, congrArg (Gates.opening · gate) h.gates, h.closed⟩
  | closeGate gate =>
    refine .of_concerns rfl rfl ⟨place, ?_⟩
    have hopen : ∀ r : Coalescing K V,
        (Step.closeGate gate : Step K V).needsRegistry = true → r.closed = false :=
      fun r h => by cases h
    rw [(step_of_open (hopen r)).2, (step_of_open (hopen r')).2]
    exact ⟨h.flights, h.jobs, h.divided, congrArg (Gates.closing · gate) h.gates, h.closed⟩
  | poll id => exact h.reflects_poll hsound hsteady id
  | drop id => exact h.reflects_drop hsound id
  | dropRegistry =>
    refine .of_concerns rfl rfl ⟨place, ?_⟩
    cases hclosed : r.closed with
    | true =>
      rw [(step_of_closed hclosed rfl).2, (step_of_closed (h.closed.trans hclosed) rfl).2]
      exact hquiet
    | false =>
      rw [(step_of_open fun _ => hclosed).2, (step_of_open fun _ => h.closed.trans hclosed).2]
      exact hquiet.dropRegistry
  | exclusive id producer => exact h.reflects_exclusive hsound id producer
  | shared id key producer =>
    cases hclosed : r.closed with
    | true => exact h.reflects_refused hclosed id key producer
    | false => exact h.reflects_shared hsound hsound' hclosed id key producer

end Steps

/-- What a run shows of the jobs of some keys is what the rest of it shows without the others. -/
theorem Mirrors.sights_eq (h : Mirrors owns mine place r r') (hsound : r.Sound)
    (hsound' : r'.Sound) (hsteady : r.Steady) {steps : List (Step K V)}
    (hsteps : ∀ s ∈ steps, s.Steady) (hsingle : ∀ s ∈ steps, s.isJoin = false) :
    sights owns mine r steps = along sight r' (isolated owns mine r steps) := by
  induction steps generalizing mine place r r' with
  | nil => rfl
  | cons s rest ih =>
    have hs := hsingle s (List.mem_cons_self ..)
    obtain ⟨hshows, place', hmirrors⟩ := h.reflects hsound hsound' hsteady hs
    have hrest := ih hmirrors (stepsTo_step s hsound).sound
      (sound_run (remains owns mine r s) hsound')
      (hsteady.step (hsteps s (List.mem_cons_self ..)) hs)
      (fun s hs => hsteps s (List.mem_cons_of_mem _ hs))
      (fun s hs => hsingle s (List.mem_cons_of_mem _ hs))
    rw [sights, isolated, along_append, hshows, hrest]


/-! ## Jobs that run alone -/

/-- No job shares its work, and all work ends with the outcome. -/
structure Lone (outcome : Outcome V) (r : Coalescing K V) : Prop where
  unshared : ∀ id e, r.jobs.get? id ≠ some (.shared e)
  promises : ∀ {id work}, r.jobs.get? id = some (.exclusive work) → work.Promises outcome

variable {outcome : Outcome V}

omit [DecidableEq K] in
/-- A job may be kept that shares nothing and promises the outcome. -/
theorem Lone.keep (h : Lone outcome r) (id : String) (job : Job V)
    (hshared : ∀ e, job ≠ .shared e)
    (hjob : ∀ work, job = .exclusive work → work.Promises outcome) :
    Lone outcome (r.keep id job) := by
  refine ⟨?_, ?_⟩
  · intro id' e hget
    by_cases hid : id' = id
    · rw [hid] at hget
      exact hshared e (Option.some.inj ((Table.get?_insert_self ..).symm.trans hget))
    · exact h.unshared id' e ((Table.get?_insert_of_ne _ _ hid).symm.trans hget)
  · intro id' work hget
    by_cases hid : id' = id
    · rw [hid] at hget
      exact hjob work (Option.some.inj ((Table.get?_insert_self ..).symm.trans hget))
    · exact h.promises ((Table.get?_insert_of_ne _ _ hid).symm.trans hget)

/-- The only thing that a poll can tell is the outcome. -/
theorem Lone.pollJob (h : Lone outcome r) (id : String) :
    Lone outcome (r.pollJob id).2 ∧
      ((r.pollJob id).1.tells = true → (r.pollJob id).1 = .answer (.item outcome)) := by
  unfold Coalescing.pollJob
  cases hget : r.jobs.get? id with
  | none => exact ⟨h, nofun⟩
  | some job =>
    cases job with
    | ended => exact ⟨h, nofun⟩
    | shared e => exact absurd hget (h.unshared id e)
    | exclusive work =>
      obtain ⟨name, hcarries⟩ := (h.promises hget).carries r.shop
      dsimp only
      rcases hpoll : work.poll r.shop with ⟨rest | outcome', shop⟩
      · rw [hpoll] at hcarries
        obtain ⟨wait, rfl⟩ := hcarries
        have hnext : Lone outcome { r with shop } := ⟨h.unshared, h.promises⟩
        refine ⟨hnext.keep id _ nofun ?_, nofun⟩
        rintro work' ⟨⟩
        rfl
      · rw [hpoll] at hcarries
        have hnext : Lone outcome { r with shop } := ⟨h.unshared, h.promises⟩
        have hsame : outcome' = outcome := hcarries
        exact ⟨hnext.keep id .ended nofun nofun, fun _ => by rw [hsame]⟩

omit [DecidableEq K] in
/-- Whatever jobs are left after a step were there before. -/
theorem Lone.of_jobs (h : Lone outcome r)
    (hjobs : ∀ id job, r'.jobs.get? id = some job → r.jobs.get? id = some job) :
    Lone outcome r' :=
  ⟨fun id e hget => h.unshared id e (hjobs id _ hget), fun hget => h.promises (hjobs _ _ hget)⟩

/-- To drop a job leaves the others alone. -/
theorem Lone.dropJob (h : Lone outcome r) (id : String) : Lone outcome (r.dropJob id) := by
  refine h.of_jobs fun id' job hget => ?_
  rw [jobs_dropJob] at hget
  by_cases hid : id' = id
  · rw [hid, Table.get?_erase_self] at hget
    cases hget
  · rwa [Table.get?_erase_of_ne _ hid] at hget

/-- A step among jobs that run alone tells of the outcome or of nothing. -/
theorem Lone.step (h : Lone outcome r) {s : Step K V} (hbegins : s.begins? = none)
    (hsingle : s.isJoin = false) :
    Lone outcome (r.step s).2 ∧
      ∀ view ∈ sight r s, ∀ answer, view.response = .answer answer → answer.tells = true →
        answer = .answer (.item outcome) := by
  have hquiet : Lone outcome r.quiet := ⟨h.unshared, h.promises⟩
  cases s with
  | shared | exclusive => cases hbegins
  | join => cases hsingle
  | poll id =>
    obtain ⟨hnext, htells⟩ := hquiet.pollJob id
    refine ⟨(step_poll r id).2 ▸ hnext, ?_⟩
    rw [sight_poll]
    intro view hview answer hanswer
    rw [List.mem_singleton.mp hview] at hanswer
    cases hanswer
    exact htells
  | drop id => exact ⟨step_drop r id ▸ hquiet.dropJob id, nofun⟩
  | openGate gate =>
    have hstate := (step_of_open (r := r) (s := .openGate gate) nofun).2
    exact ⟨hstate ▸ hquiet.of_jobs fun id job hget => hget, nofun⟩
  | closeGate gate =>
    have hstate := (step_of_open (r := r) (s := .closeGate gate) nofun).2
    exact ⟨hstate ▸ hquiet.of_jobs fun id job hget => hget, nofun⟩
  | inspect =>
    have hstate : (r.step .inspect).2 = r.quiet := by
      rw [step_snd, attempt]
      split <;> rfl
    exact ⟨hstate ▸ hquiet, fun _ h => by cases h⟩
  | dropRegistry =>
    refine ⟨?_, fun _ h => by cases h⟩
    cases hclosed : r.closed with
    | true =>
      rw [(step_of_closed hclosed rfl).2]
      exact hquiet
    | false =>
      rw [(step_of_open fun _ => hclosed).2]
      obtain ⟨-, -, hjobs⟩ := dropRegistry_spec r.quiet
      refine hquiet.of_jobs fun id job hget => ?_
      exact (Option.filter_eq_some_iff.mp ((hjobs id).symm.trans hget)).1

/-- A run among jobs that run alone tells of the outcome or of nothing. -/
theorem Lone.run (h : Lone outcome r) {steps : List (Step K V)}
    (hsteps : ∀ s ∈ steps, s.begins? = none ∧ s.isJoin = false) :
    ∀ view ∈ along sight r steps, ∀ answer, view.response = .answer answer →
      answer.tells = true → answer = .answer (.item outcome) := by
  induction steps generalizing r with
  | nil => exact nofun
  | cons s rest ih =>
    obtain ⟨hbegins, hsingle⟩ := hsteps s (List.mem_cons_self ..)
    obtain ⟨hnext, hshows⟩ := h.step hbegins hsingle
    intro view hview
    rcases List.mem_append.mp hview with hview | hview
    · exact hshows view hview
    · exact ih hnext (fun s hs => hsteps s (List.mem_cons_of_mem _ hs)) view hview

/-- Without a key, nothing that is left of a run begins. -/
theorem begins?_of_mem_isolated {steps : List (Step K V)} {s : Step K V}
    (h : s ∈ isolated (fun _ => false) mine r steps) : s.begins? = none ∧ s.isJoin = false := by
  induction steps generalizing mine r with
  | nil => cases h
  | cons first rest ih =>
    rcases List.mem_append.mp h with h | h
    · unfold remains at h
      split at h
      · rename_i hconcerns
        rw [List.mem_singleton.mp h]
        cases first with
        | shared | exclusive | join | inspect => cases hconcerns
        | poll | drop | openGate | closeGate | dropRegistry => exact ⟨rfl, rfl⟩
      · split at h
        · cases h
        · obtain ⟨id, -, rfl⟩ := List.mem_map.mp h
          exact ⟨rfl, rfl⟩
    · exact ih h

/-- A registry of its own, with the gates as they are. -/
def lone (r : Coalescing K V) : Coalescing K V := { shop := { gates := r.shop.gates } }

/-- A job that begins to run alone shows along `steps` what it would show without any other job, and
the only thing that it is told is how its producer ends. -/
structure Solitary (r : Coalescing K V) (id : String) (producer : Producer V)
    (steps : List (Step K V)) : Prop where
  same : let begun := (r.step (.exclusive id producer)).2
    sights (fun _ => false) (· = id) begun steps =
      along sight (r.lone.step (.exclusive id producer)).2
        (isolated (fun _ => false) (· = id) begun steps)
  outcome : ∀ view ∈ sights (fun _ => false) (· = id) (r.step (.exclusive id producer)).2 steps,
    ∀ answer, view.response = .answer answer → answer.tells = true →
      answer = .answer (.item (producer.outcome 1))

omit [DecidableEq K] in
/-- At first there is nothing to mirror. -/
theorem mirrors_init (owns : K → Bool) :
    Mirrors owns (fun _ => false) (fun e => e) ({} : Coalescing K V) {} :=
  ⟨Flights.copies_empty owns _, fun _ => rfl, nofun, rfl, rfl⟩

/-- A job that begins to run alone is mirrored by one in a registry of its own. -/
theorem mirrors_lone (hsound : r.Sound) (hopen : r.closed = false) (id : String)
    (work : Production V) :
    Mirrors (fun _ => false) (· = id) (fun e => e) (r.replace id (.exclusive work))
      (r.lone.replace id (.exclusive work)) := by
  have hnone : Mirrors (fun _ => false) (fun _ => false) (fun e => e) r r.lone := by
    refine ⟨⟨nofun, nofun, nofun⟩, fun _ => rfl, ?_, rfl, hopen.symm⟩
    intro id' e hget
    have hlt := hsound.tracked.known (waiting_pos hget)
    exact ⟨_, List.getElem?_eq_getElem hlt, rfl⟩
  have hpos : ∀ e, r.jobs.get? id = some (.shared e) → 0 < r.waiting e :=
    fun e hget => waiting_pos hget
  have hdropped := hnone.dropJob_both hsound.tracked hpos
  have hnames : (fun name => decide (name = id)) = Function.update (fun _ => false) id true := by
    funext name
    by_cases hname : name = id
    · simp [hname]
    · simp [hname]
  rw [hnames]
  exact hdropped.keep_both id _ nofun

/-- A job that runs alone with a steady producer shows what it would show by itself. -/
theorem solitary (hsound : r.Sound) (hsteady : r.Steady) (hopen : r.closed = false) (id : String)
    {producer : Producer V} (hproducer : producer.Steady) {steps : List (Step K V)}
    (hsteps : ∀ s ∈ steps, s.Steady) (hsingle : ∀ s ∈ steps, s.isJoin = false) :
    r.Solitary id producer steps := by
  have hsound' : r.lone.Sound := ⟨sound_init.tracked, sound_init.registered⟩
  have hquiet : r.quiet.Sound := ⟨hsound.tracked, hsound.registered⟩
  have hmirrors : Mirrors (fun _ => false) (· = id) (fun e => e)
      (r.step (.exclusive id producer)).2 (r.lone.step (.exclusive id producer)).2 := by
    rw [(step_of_open fun _ => hopen).2, (step_of_open fun _ => rfl).2]
    exact mirrors_lone hquiet hopen id (.uncalled id producer)
  have hsame := hmirrors.sights_eq (stepsTo_step _ hsound).sound (stepsTo_step _ hsound').sound
    (hsteady.step hproducer rfl) hsteps hsingle
  have hlone : Lone (producer.outcome 1) (r.lone.step (.exclusive id producer)).2 := by
    have hempty : Lone (producer.outcome 1) r.lone.quiet := ⟨nofun, nofun⟩
    rw [(step_of_open fun _ => rfl).2]
    refine (hempty.dropJob id).keep id (.exclusive (.uncalled id producer)) nofun ?_
    rintro work ⟨⟩ n
    exact hproducer.outcome_eq n 1
  refine ⟨hsame, ?_⟩
  rw [hsame]
  exact hlone.run fun s hs => begins?_of_mem_isolated hs

/-- The jobs of any keys, of one key in particular, show the same without the jobs of the other keys
and those that run alone, and a job that runs alone shows the same without all others: what is
answered, whether a call attaches to an execution or starts one, and which producers are called. -/
theorem keys_isolated (steps : List (Step K V)) (hsteady : ∀ s ∈ steps, s.Steady) :
    let single := unfolded {} steps
    Unfolds {} steps single ∧
      (∀ owns : K → Bool, sights owns (fun _ => false) {} single =
        along sight {} (isolated owns (fun _ => false) {} single)) ∧
      ∀ before id producer after, single = before ++ .exclusive id producer :: after →
        (run ({} : Coalescing K V) before).2.closed = false →
          (run {} before).2.Solitary id producer after := by
  intro single
  have hunfolds := unfolds {} steps
  have hsteady' : ∀ s ∈ single, s.Steady := steady_unfolded hsteady
  refine ⟨hunfolds, fun owns => ?_, ?_⟩
  · exact (mirrors_init owns).sights_eq sound_init sound_init (steady_init {}) hsteady'
      hunfolds.single
  · intro before id producer after hsplit hopen
    have hbefore : ∀ s ∈ before, s ∈ single := fun s hs => hsplit ▸ List.mem_append_left _ hs
    have hbegins : .exclusive id producer ∈ single :=
      hsplit ▸ List.mem_append_right _ (List.mem_cons_self ..)
    have hafter : ∀ s ∈ after, s ∈ single := fun s hs =>
      hsplit ▸ List.mem_append_right _ (List.mem_cons_of_mem _ hs)
    have hnow : (run ({} : Coalescing K V) before).2.Steady :=
      (steady_init {}).run (fun s hs => hsteady' s (hbefore s hs))
        fun s hs => hunfolds.single s (hbefore s hs)
    exact solitary (sound_run before sound_init) hnow hopen id (hsteady' _ hbegins)
      (fun s hs => hsteady' s (hafter s hs)) fun s hs => hunfolds.single s (hafter s hs)

/-- Jobs of the key 7 among a job of another key, which panics and takes one of their names, and a
job that runs alone and panics before it has any work. -/
def crossing : List (Step Nat Nat) :=
  [.shared "a" 7 { wait := ⟨some "gate", 1⟩, ending := fun _ => .value 70 },
    .exclusive "b" { refusal := some "early", ending := fun _ => .value 71 },
    .shared "c" 7 { ending := fun _ => .value 72 }, .join ["a", "b"],
    .shared "a" 8 { ending := fun _ => .panicked "late" }, .openGate "gate", .join ["a", "c"]]

/-- Here another job takes a name, an execution of another key panics, and one that runs alone
panics, too. -/
theorem keys_isolated_crossing :
    (∀ s ∈ crossing, s.Steady) ∧
      let single := unfolded {} crossing
      sights (· = 7) (fun _ => false) {} single =
          [⟨.begun, [false], []⟩, ⟨.begun, [true], []⟩, ⟨.answer (.answer .pending), [], ["a"]⟩,
            ⟨.answer (.answer .pending), [], []⟩, ⟨.answer (.answer .pending), [], []⟩,
            ⟨.answer (.answer (.item (.value 70))), [], []⟩, ⟨.answer .finished, [], []⟩] ∧
        sights (· = 7) (fun _ => false) {} single =
          along sight {} (isolated (· = 7) (fun _ => false) {} single) ∧
        (run {} (single.take 1)).2.Solitary "b"
          { refusal := some "early", ending := fun _ => .value 71 } (single.drop 2) := by
  have hsteady : ∀ s ∈ crossing, s.Steady := by
    intro s hs
    simp only [crossing, List.mem_cons, List.not_mem_nil, or_false] at hs
    rcases hs with rfl | rfl | rfl | rfl | rfl | rfl | rfl
    all_goals first | trivial | exact fun _ _ => rfl
  obtain ⟨-, hkeys, hsolitary⟩ := keys_isolated crossing hsteady
  exact ⟨hsteady, rfl, hkeys _, hsolitary _ "b" _ _ rfl rfl⟩

end Coalescing

end ReadThrough
