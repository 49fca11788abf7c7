import ReadThrough.Proofs.Coalescing.Cancellations
import ReadThrough.Proofs.Flights.Callers
/-!
# Proofs: jobs do not depend on who else waits

Whichever job of an execution is polled, the execution makes the same progress. A job that is
dropped leaves no trace in what the others are answered, as long as the execution is not abandoned
with it: the run goes on as if the job had been kept and never polled again (`Besides`).
-/

namespace ReadThrough

variable {K V : Type}

namespace Coalescing

/-- Whether a step is about a job of this name. -/
def Step.mentions (s : Step K V) (id : String) : Bool :=
  match s with
  | .shared id' _ _ | .exclusive id' _ | .poll id' | .drop id' => id' = id
  | .join ids => id ∈ ids
  | .openGate _ | .closeGate _ | .inspect | .dropRegistry => false

/-- The state `r'` is `r` with one job more, which waits for an execution. -/
structure Besides (id : String) (e : Nat) (r r' : Coalescing K V) : Prop where
  known : e < r.flights.executions.length
  flights : r'.flights = r.flights.addCaller e
  jobs : r.jobs = r'.jobs.erase id
  attached : r'.jobs.get? id = some (.shared e)
  shop : r'.shop = r.shop
  closed : r'.closed = r.closed
  notices : r'.notices = r.notices

variable {id id' : String} {e : Nat} {r r' : Coalescing K V}

/-- Other jobs are the same in both states. -/
theorem Besides.get? (h : Besides id e r r') (hid : id' ≠ id) :
    r.jobs.get? id' = r'.jobs.get? id' := by
  rw [h.jobs, Table.get?_erase_of_ne _ hid]

/-- Another job may be kept in both states. -/
theorem Besides.keep (h : Besides id e r r') (hid : id' ≠ id) (job : Job V) :
    Besides id e (r.keep id' job) (r'.keep id' job) where
  known := h.known
  flights := h.flights
  jobs := by
    show r.jobs.insert id' job = (r'.jobs.insert id' job).erase id
    rw [Table.erase_insert_of_ne _ _ hid, h.jobs]
  attached := by
    show (r'.jobs.insert id' job).get? id = _
    rw [Table.get?_insert_of_ne _ _ (Ne.symm hid), h.attached]
  shop := h.shop
  closed := h.closed
  notices := h.notices

variable [DecidableEq K]

/-- The execution of a job that waits has callers. -/
theorem Sound.callers_pos (hsound : r.Sound) (hget : r.jobs.get? id = some (.shared e))
    (x : Execution K (Production V) V) (hx : r.flights.executions[e]? = some x) :
    0 < x.callers :=
  (hsound.tracked.sound hx).callers ▸ waiting_pos hget

/-! ## Polls -/

/-- Another job is polled alike, with one job more beside it. -/
theorem Besides.pollJob (h : Besides id e r r') (hsound : r.Sound) (hid : id' ≠ id) :
    (r'.pollJob id').1 = (r.pollJob id').1 ∧
      Besides id e (r.pollJob id').2 (r'.pollJob id').2 := by
  unfold Coalescing.pollJob
  rw [← h.get? hid]
  cases hget : r.jobs.get? id' with
  | none => exact ⟨rfl, h⟩
  | some job =>
    cases job with
    | ended => exact ⟨rfl, h⟩
    | exclusive production =>
      have hstep : ∀ shop, Besides id e { r with shop } { r' with shop } := fun shop =>
        ⟨h.known, h.flights, h.jobs, h.attached, rfl, h.closed, h.notices⟩
      simp only [h.shop]
      rcases production.poll r.shop with ⟨rest | outcome, shop⟩
      · exact ⟨rfl, (hstep shop).keep hid _⟩
      · exact ⟨rfl, (hstep shop).keep hid _⟩
    | shared e' =>
      have hpoll := Flights.poll_addCaller Production.poll r.flights e e' r.shop
        (hsound.callers_pos hget)
      have hpolls := Flights.polls_of_waiting Production.poll hsound.tracked (waiting_pos hget)
        r.shop
      simp only [h.flights, h.shop, hpoll]
      rcases hp : r.flights.poll Production.poll e' r.shop with ⟨answer, f', shop, ns⟩
      rw [hp] at hpolls
      have hstep : Besides id e { r with flights := f', shop, notices := r.notices ++ ns }
          { r' with flights := f'.addCaller e, shop, notices := r'.notices ++ ns } :=
        ⟨hpolls.length ▸ h.known, rfl, h.jobs, h.attached, rfl, h.closed, by rw [h.notices]⟩
      cases answer with
      | none => exact ⟨rfl, hstep⟩
      | some outcome => exact ⟨rfl, hstep.keep hid _⟩

/-- Other jobs are joined alike, with one job more beside them. -/
theorem Besides.join (h : Besides id e r r') (hsound : r.Sound) {ids : List String}
    (hids : id ∉ ids) (passes : Nat) :
    (ReadThrough.join Coalescing.pollJob passes ids r').1 =
        (ReadThrough.join Coalescing.pollJob passes ids r).1 ∧
      Besides id e (ReadThrough.join Coalescing.pollJob passes ids r).2
        (ReadThrough.join Coalescing.pollJob passes ids r').2 := by
  have hpoll : ∀ id' ∈ ids, ∀ r r' : Coalescing K V, Besides id e r r' ∧ r.Sound →
      (r'.pollJob id').1 = (r.pollJob id').1 ∧
        Besides id e (r.pollJob id').2 (r'.pollJob id').2 ∧ (r.pollJob id').2.Sound := by
    rintro id' hid' r r' ⟨h, hsound⟩
    obtain ⟨hanswer, hbesides⟩ := h.pollJob hsound fun heq => hids (heq ▸ hid')
    exact ⟨hanswer, hbesides, (moves_pollJob id' hsound).sound⟩
  obtain ⟨hanswers, hbesides, -⟩ := join_alike hpoll passes ⟨h, hsound⟩
  exact ⟨hanswers, hbesides⟩

/-! ## Departures and calls -/

/-- Another job is dropped alike, unless it was the last one beside the job that is more. -/
theorem Besides.dropJob (h : Besides id e r r') (hid : id' ≠ id)
    (hpos : ∀ e', r.jobs.get? id' = some (.shared e') →
      ∀ x, r.flights.executions[e']? = some x → 0 < x.callers)
    (hkept : (r.dropJob id').flights.stage? e ≠ some .abandoned) :
    Besides id e (r.dropJob id') (r'.dropJob id') := by
  have hjobs : r.jobs.erase id' = (r'.jobs.erase id').erase id := by
    rw [h.jobs, Table.erase_comm]
  have hattached : (r'.jobs.erase id').get? id = some (.shared e) := by
    rw [Table.get?_erase_of_ne _ (Ne.symm hid), h.attached]
  unfold Coalescing.dropJob at hkept ⊢
  rw [← h.get? hid]
  cases hget : r.jobs.get? id' with
  | none => exact ⟨h.known, h.flights, hjobs, hattached, h.shop, h.closed, h.notices⟩
  | some job =>
    cases job with
    | ended => exact ⟨h.known, h.flights, hjobs, hattached, h.shop, h.closed, h.notices⟩
    | exclusive production =>
      exact ⟨h.known, h.flights, hjobs, hattached, congrArg production.discard h.shop, h.closed,
        h.notices⟩
    | shared e' =>
      have hlength := Flights.length_leave r.flights e'
      simp only [hget] at hkept
      have hleave := Flights.leave_addCaller r.flights e e' (hpos e' hget)
      simp only [h.flights]
      rcases hl : r.flights.leave e' with ⟨_ | production, f', ns⟩
      all_goals
        rw [hl] at hlength hleave
        simp only [hl] at hkept
        rw [hleave hkept]
      · exact ⟨hlength ▸ h.known, rfl, hjobs, hattached, h.shop, h.closed,
          congrArg (· ++ ns) h.notices⟩
      · exact ⟨hlength ▸ h.known, rfl, hjobs, hattached, congrArg production.discard h.shop,
          h.closed, congrArg (· ++ ns) h.notices⟩

/-- Another job takes a name alike, unless this abandons the execution of the job that is more. -/
theorem Besides.replace (h : Besides id e r r') (hid : id' ≠ id) (job : Job V)
    (hpos : ∀ e', r.jobs.get? id' = some (.shared e') →
      ∀ x, r.flights.executions[e']? = some x → 0 < x.callers)
    (hkept : (r.replace id' job).flights.stage? e ≠ some .abandoned) :
    Besides id e (r.replace id' job) (r'.replace id' job) :=
  (h.dropJob hid hpos hkept).keep hid job

/-- Another call is made alike, with one job more beside it. -/
theorem Besides.call (h : Besides id e r r') (hsound : r.Sound) (hopen : r.closed = false)
    (hid : id' ≠ id) (key : K) (producer : Producer V)
    (hkept : (r.call id' key producer).flights.stage? e ≠ some .abandoned) :
    Besides id e (r.call id' key producer) (r'.call id' key producer) := by
  have hreg := hsound.registered hopen
  have htracked := hsound.tracked.enter hreg key (.uncalled id' producer)
  have hknown : e < (r.flights.enter key (.uncalled id' producer)).2.1.executions.length := by
    have hstage := Flights.stage?_enter_of_lt r.flights key (.uncalled id' producer) h.known
    rw [Flights.stage?_of_getElem? (List.getElem?_eq_getElem h.known)] at hstage
    exact Flights.lt_of_stage? hstage
  have henter := Flights.enter_addCaller hsound.tracked hreg h.known key (.uncalled id' producer)
  unfold Coalescing.call at hkept ⊢
  rw [h.flights, henter]
  rcases hcall : r.flights.enter key (.uncalled id' producer) with ⟨e', f', notice⟩
  rw [hcall] at htracked hkept hknown
  have hentered : Besides id e { r with flights := f', notices := r.notices ++ [notice] }
      { r' with flights := f'.addCaller e, notices := r'.notices ++ [notice] } :=
    ⟨hknown, rfl, h.jobs, h.attached, h.shop, h.closed, by rw [h.notices]⟩
  refine hentered.replace hid _ (fun e'' hget x hx => ?_) hkept
  rw [(htracked.sound hx).callers]
  exact (waiting_pos (r := r) hget).trans_le (Flights.le_more _ _ _)

/-- Other jobs are dropped alike, unless they were all that waited beside the job that is more. -/
theorem Besides.dropJobs {ids : List String} (h : Besides id e r r') (hsound : r.Sound)
    (hids : id ∉ ids)
    (hkept : (ids.foldl (fun r id => r.dropJob id) r).flights.stage? e ≠ some .abandoned) :
    Besides id e (ids.foldl (fun r id => r.dropJob id) r)
      (ids.foldl (fun r id => r.dropJob id) r') := by
  induction ids generalizing r r' with
  | nil => exact h
  | cons id' ids ih =>
    have hmoves := moves_dropJob id' hsound
    have hrest := (moves_dropJobs ids hmoves.sound).continues
    have hdrop := h.dropJob (fun heq => hids (heq ▸ List.mem_cons_self ..))
      (fun e' hget => hsound.callers_pos hget) fun habandoned => hkept (hrest.over habandoned rfl)
    exact ih hdrop hmoves.sound (fun hid => hids (List.mem_cons_of_mem _ hid)) hkept

/-- The registry goes away alike, with one job more beside it. -/
theorem Besides.dropRegistry (h : Besides id e r r') (hsound : r.Sound)
    (hkept : r.dropRegistry.flights.stage? e ≠ some .abandoned) :
    Besides id e r.dropRegistry r'.dropRegistry := by
  have hexclusives : r'.exclusives = r.exclusives := by
    unfold exclusives
    rw [h.jobs]
    refine (Table.keysWhere_erase _ _ fun job hget => ?_).symm
    rw [h.attached] at hget
    cases hget
    rfl
  have hids : id ∉ r.exclusives := by
    intro hid
    obtain ⟨job, hget, -⟩ := r.jobs.exists_of_mem_keysWhere hid
    rw [h.jobs, Table.get?_erase_self] at hget
    cases hget
  have hdrop := h.dropJobs hsound hids hkept
  unfold Coalescing.dropRegistry
  rw [hexclusives]
  exact ⟨hdrop.known, congrArg Flights.close hdrop.flights, hdrop.jobs, hdrop.attached, hdrop.shop,
    rfl, hdrop.notices⟩

/-! ## Steps and runs -/

/-- A step that does not mention the job which is more does the same without it. -/
theorem Besides.perform {s : Step K V} (h : Besides id e r r') (hsound : r.Sound)
    (hopen : s.needsRegistry = true → r.closed = false) (hs : s.mentions id = false)
    (hkept : (r.perform s).2.flights.stage? e ≠ some .abandoned) :
    (r'.perform s).1 = (r.perform s).1 ∧ Besides id e (r.perform s).2 (r'.perform s).2 := by
  cases s with
  | shared id' key producer =>
    exact ⟨rfl, h.call hsound (hopen rfl) (of_decide_eq_false hs) key producer hkept⟩
  | exclusive id' producer =>
    exact ⟨rfl, h.replace (of_decide_eq_false hs) _ (fun e' => hsound.callers_pos) hkept⟩
  | poll id' =>
    obtain ⟨hanswer, hbesides⟩ := h.pollJob hsound (of_decide_eq_false hs)
    exact ⟨congrArg Response.answer hanswer, hbesides⟩
  | join ids =>
    obtain ⟨hanswers, hbesides⟩ := h.join hsound (of_decide_eq_false hs) (ids.length + 1)
    exact ⟨congrArg Response.joined hanswers, hbesides⟩
  | drop id' =>
    have hid : id' ≠ id := of_decide_eq_false hs
    have hcontains : r'.jobs.contains id' = r.jobs.contains id' := by
      rw [Table.contains, Table.contains, h.get? hid]
    exact ⟨congrArg Response.flag hcontains,
      h.dropJob hid (fun e' => hsound.callers_pos) hkept⟩
  | openGate gate =>
    exact ⟨rfl, h.known, h.flights, h.jobs, h.attached,
      congrArg (fun shop : Workshop => { shop with gates := shop.gates.opening gate }) h.shop,
      h.closed, h.notices⟩
  | closeGate gate =>
    exact ⟨rfl, h.known, h.flights, h.jobs, h.attached,
      congrArg (fun shop : Workshop => { shop with gates := shop.gates.closing gate }) h.shop,
      h.closed, h.notices⟩
  | inspect => exact ⟨by rw [Coalescing.perform, h.flights]; rfl, h⟩
  | dropRegistry => exact ⟨rfl, h.dropRegistry hsound hkept⟩

/-- The notices of the steps before do not matter. -/
theorem Besides.step {s : Step K V}
    (h : Besides id e { r with notices := [] } { r' with notices := [] }) (hsound : r.Sound)
    (hs : s.mentions id = false) (hkept : (r.step s).2.flights.stage? e ≠ some .abandoned) :
    (r'.step s).1 = (r.step s).1 ∧ Besides id e (r.step s).2 (r'.step s).2 := by
  have hsound₀ : Sound { r with notices := [] } := ⟨hsound.tracked, hsound.registered⟩
  have hattempt : (r'.attempt s).1 = (r.attempt s).1 ∧
      Besides id e (r.attempt s).2 (r'.attempt s).2 := by
    have hrefuses : (r'.closed && s.needsRegistry) = (r.closed && s.needsRegistry) :=
      congrArg (· && s.needsRegistry) h.closed
    rw [step_snd] at hkept
    unfold attempt at hkept ⊢
    rw [hrefuses]
    by_cases hrefused : (r.closed && s.needsRegistry) = true
    · rw [if_pos hrefused, if_pos hrefused]
      exact ⟨rfl, h⟩
    · rw [if_neg hrefused] at hkept ⊢
      rw [if_neg hrefused]
      exact h.perform hsound₀ (fun hneeds => by simpa [hneeds] using hrefused) hs hkept
  obtain ⟨hresponse, hbesides⟩ := hattempt
  refine ⟨?_, hbesides⟩
  have hreport : ∀ r : Coalescing K V, (r.step s).1 =
      { response := (r.attempt s).1,
        ongoing := if (r.attempt s).2.closed then none else some (r.attempt s).2.flights.ongoing,
        started := (r.attempt s).2.shop.started, cancelled := (r.attempt s).2.shop.cancelled,
        notices := (r.attempt s).2.notices } := fun _ => rfl
  rw [hreport, hreport, hresponse, hbesides.closed, hbesides.shop, hbesides.notices,
    hbesides.flights]
  rfl

/-- A run that never mentions the job which is more does the same without it, as long as its
execution is not abandoned. -/
theorem Besides.run (steps : List (Step K V))
    (h : Besides id e { r with notices := [] } { r' with notices := [] }) (hsound : r.Sound)
    (hsteps : ∀ s ∈ steps, s.mentions id = false)
    (hkept : (r.run steps).2.flights.stage? e ≠ some .abandoned) :
    (r'.run steps).1 = (r.run steps).1 := by
  induction steps generalizing r r' with
  | nil => rfl
  | cons s rest ih =>
    have hstep := stepsTo_step s hsound
    have hrest := continues_run rest hstep.sound
    obtain ⟨hreport, hbesides⟩ := h.step hsound (hsteps s (List.mem_cons_self ..))
      fun habandoned => hkept (hrest.over habandoned rfl)
    have hquiet : Besides id e { (r.step s).2 with notices := [] }
        { (r'.step s).2 with notices := [] } :=
      ⟨hbesides.known, hbesides.flights, hbesides.jobs, hbesides.attached, hbesides.shop,
        hbesides.closed, rfl⟩
    have hreports := ih hquiet hstep.sound
      (fun s' hs' => hsteps s' (List.mem_cons_of_mem _ hs')) hkept
    show (r'.step s).1 :: ((r'.step s).2.run rest).1 = (r.step s).1 :: ((r.step s).2.run rest).1
    rw [hreport, hreports]

/-- A job that is dropped without its execution being abandoned could as well have been kept. -/
theorem Sound.besides_drop (hsound : r.Sound) (hget : r.jobs.get? id = some (.shared e))
    (hkept : (r.dropJob id).flights.stage? e ≠ some .abandoned) :
    Besides id e { r.dropJob id with notices := [] } { r with notices := [] } := by
  have hlength := Flights.length_leave r.flights e
  have hleave := hsound.leaves e hget
  have hlt := hsound.tracked.known (waiting_pos hget)
  unfold dropJob at hkept ⊢
  simp only [hget] at hkept ⊢
  rcases hl : r.flights.leave e with ⟨_ | production, f', ns⟩ <;> rw [hl] at hlength hleave <;>
    simp only [hl] at hkept
  · obtain ⟨hflights, -⟩ := hleave.addCaller (hsound.callers_pos hget)
    exact ⟨hlength ▸ hlt, hflights, rfl, hget, rfl, rfl, rfl⟩
  · exact absurd hleave.abandons_stage?.2 hkept

/-- Whichever job of an execution is polled, the poll does the same. -/
def DriverIndependent (r : Coalescing K V) : Prop :=
  ∀ e first second, r.jobs.get? first = some (.shared e) →
    r.jobs.get? second = some (.shared e) →
    (r.step (.poll first)).1 = (r.step (.poll second)).1 ∧
      (r.step (.poll first)).2.flights = (r.step (.poll second)).2.flights ∧
      (r.step (.poll first)).2.shop = (r.step (.poll second)).2.shop ∧
      (r.step (.poll first)).2.closed = (r.step (.poll second)).2.closed ∧
      ∀ id, id ≠ first → id ≠ second →
        (r.step (.poll first)).2.jobs.get? id = (r.step (.poll second)).2.jobs.get? id

/-- Whichever job of an execution is dropped, and whatever happens then: if the execution settles or
another job waits for it to the end, the steps are answered as if the job had been kept and never
polled again. -/
def DropIndependent (r : Coalescing K V) : Prop :=
  ∀ e id steps, r.jobs.get? id = some (.shared e) → (∀ s ∈ steps, s.mentions id = false) →
    ((((r.step (.drop id)).2.run steps).2.Settled e ∨
      ∃ other, ((r.step (.drop id)).2.run steps).2.jobs.get? other = some (.shared e)) →
    ((r.step (.drop id)).2.run steps).1 = (r.run steps).1)

/-- What a poll does depends on the execution of the job alone. -/
theorem driverIndependent (r : Coalescing K V) : r.DriverIndependent := by
  intro e first second hfirst hsecond
  simp only [step, Step.needsRegistry, Bool.and_false, Bool.false_eq_true, if_false, perform,
    pollJob, hfirst, hsecond]
  rcases r.flights.poll Production.poll e r.shop with ⟨_ | outcome, f', shop, ns⟩
  · exact ⟨rfl, rfl, rfl, rfl, fun _ _ _ => rfl⟩
  · refine ⟨rfl, rfl, rfl, rfl, fun id hne hne' => ?_⟩
    show (r.jobs.insert first .ended).get? id = (r.jobs.insert second .ended).get? id
    rw [Table.get?_insert_of_ne _ _ hne, Table.get?_insert_of_ne _ _ hne']

/-- A step that drops a job does so after it has forgotten the notices of the step before. -/
theorem step_drop (r : Coalescing K V) (id : String) :
    (r.step (.drop id)).2 = Coalescing.dropJob id { r with notices := [] } := by
  rw [step_snd, attempt, if_neg (by simp [Step.needsRegistry]), perform]

/-- Whoever leaves an execution that others keep is not missed. -/
theorem Sound.dropIndependent (hsound : r.Sound) : r.DropIndependent := by
  intro e id steps hget hsteps hlast
  have hstep := stepsTo_step (.drop id) hsound
  have hrun := sound_run steps hstep.sound
  have hkept : ((r.step (.drop id)).2.run steps).2.flights.stage? e ≠ some .abandoned := by
    intro habandoned
    have hgone := (hrun.abandoned_iff (Flights.lt_of_stage? habandoned)).mp habandoned
    rcases hlast with hsettled | ⟨other, hother⟩
    · exact hgone.1 hsettled
    · exact hgone.2 other hother
  have hsound₀ : Sound { r with notices := [] } := ⟨hsound.tracked, hsound.registered⟩
  have hbesides : Besides id e { (r.step (.drop id)).2 with notices := [] }
      { r with notices := [] } := by
    have hnow : (r.step (.drop id)).2.flights.stage? e ≠ some .abandoned := fun habandoned =>
      hkept ((continues_run steps hstep.sound).over habandoned rfl)
    rw [step_drop] at hnow ⊢
    exact hsound₀.besides_drop hget hnow
  exact (hbesides.run steps hstep.sound hsteps hkept).symm

/-- An execution depends neither on which of its jobs is polled nor on a job that is dropped while
others wait, after any run. All work that was dropped in the run before it ended is accounted for:
the work of an execution is dropped exactly if its producer was called and all its jobs went away
before it settled, and no execution both settles and has its work dropped. -/
theorem execution_independent_of_jobs (steps : List (Step K V)) :
    (run ({} : Coalescing K V) steps).2.DriverIndependent ∧
      (run ({} : Coalescing K V) steps).2.DropIndependent ∧
      ∃ log cancels, Attributed steps log ∧ Cancelled steps log cancels :=
  ⟨driverIndependent _, (sound_run steps sound_init).dropIndependent, exists_cancelled steps⟩

/-- Two jobs wait for an execution that has been polled once, by the job that did not start it. -/
def beforeDeparture : List (Step Nat Nat) :=
  [.shared "a" 7 { wait := ⟨none, 2⟩, ending := fun n => .value (n + 40) },
    .shared "b" 7 { refusal := some "never called", ending := .value }, .poll "b"]

/-- Another job comes along, and both that are left receive the outcome. -/
def afterDeparture : List (Step Nat Nat) :=
  [.poll "b", .shared "c" 7 { refusal := some "never called", ending := .value }, .join ["b", "c"]]

/-- Here the job that has started the execution is dropped, and the others receive the outcome. -/
theorem execution_independent_of_jobs_starterDropped :
    let r := (run ({} : Coalescing Nat Nat) beforeDeparture).2
    let last := ((r.step (.drop "a")).2.run afterDeparture).2
    r.jobs.get? "a" = some (.shared 0) ∧ r.jobs.get? "b" = some (.shared 0) ∧
      (∀ s ∈ afterDeparture, s.mentions "a" = false) ∧ last.Settled 0 ∧
      along receipts (r.step (.drop "a")).2 afterDeparture =
        [⟨"b", 0, .value 41⟩, ⟨"c", 0, .value 41⟩] ∧
      (r.step (.poll "a")).1 = (r.step (.poll "b")).1 ∧
      ((r.step (.drop "a")).2.run afterDeparture).1 = (r.run afterDeparture).1 := by
  intro r last
  obtain ⟨hdriver, hdrop, -⟩ := execution_independent_of_jobs beforeDeparture
  have hsteps : ∀ s ∈ afterDeparture, s.mentions "a" = false := by decide
  have hsettled : last.Settled 0 := ⟨_, _, rfl, rfl⟩
  exact ⟨rfl, rfl, hsteps, hsettled, by decide, (hdriver 0 "a" "b" rfl rfl).1,
    hdrop 0 "a" afterDeparture rfl hsteps (.inl hsettled)⟩

end Coalescing

end ReadThrough
