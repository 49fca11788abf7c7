import ReadThrough.Proofs.Coalescing.Outcomes
/-!
# Proofs: whose work is dropped

The work that is dropped before it ends, attributed like the calls of producers: to the execution
that it was done for, or to a job that runs alone. The work of an execution is dropped exactly if
its producer has been called and the last job goes away before the execution settles.
-/

namespace ReadThrough

variable {K V : Type}

/-- Whether a job runs alone with a producer that came under this name. -/
def Job.employs (name : String) : Job V → Bool
  | .exclusive (.uncalled id _) | .exclusive (.working id _ _) => id = name
  | .shared _ | .ended => false

namespace Coalescing

/-- The work that was dropped agrees with the state, with the calls of producers so far and with the
jobs that have begun to run alone. -/
structure Drops (r : Coalescing K V) (alone : List String) (log cancels : List Invocation) :
    Prop where
  names : cancels.map (·.name) = r.shop.cancelled
  once : (cancels.filterMap (·.execution)).Nodup
  exactly : ∀ e name, ⟨some e, name⟩ ∈ cancels ↔
    ⟨some e, name⟩ ∈ log ∧ r.flights.stage? e = some .abandoned
  lone : ∀ name, cancels.count ⟨none, name⟩ + r.jobs.count (Job.employs name) ≤ alone.count name

variable {r r' : Coalescing K V} {started : List (String × Producer V)} {alone : List String}
  {seen : List Nat} {log log' cancels : List Invocation}

/-- At first no work has been dropped. -/
theorem drops_init : Drops ({} : Coalescing K V) [] [] [] where
  names := rfl
  once := List.nodup_nil
  exactly _ _ := ⟨nofun, nofun⟩
  lone _ := le_rfl

/-- From `r` to `r'` no work is dropped. -/
structure Saves (r r' : Coalescing K V) : Prop where
  shop : r'.shop.cancelled = r.shop.cancelled
  stages : ∀ e, r'.flights.stage? e = some .abandoned ↔ r.flights.stage? e = some .abandoned
  lone : ∀ name, r'.jobs.count (Job.employs name) ≤ r.jobs.count (Job.employs name)

theorem Saves.refl (r : Coalescing K V) : Saves r r := ⟨rfl, fun _ => Iff.rfl, fun _ => le_rfl⟩

/-- If no work is dropped in two stretches, none is in both. -/
theorem Saves.trans {r'' : Coalescing K V} (h : Saves r r') (h' : Saves r' r'') : Saves r r'' :=
  ⟨h'.shop.trans h.shop, fun e => (h'.stages e).trans (h.stages e),
    fun name => (h'.lone name).trans (h.lone name)⟩

/-- An abandoned execution is over, so that nothing new is called for it. -/
theorem Drops.saves (h : Drops r alone log cancels) (hs : Saves r r') (hg : Grows r log log') :
    Drops r' alone log' cancels where
  names := h.names.trans hs.shop.symm
  once := h.once
  exactly e name := by
    rw [h.exactly, hs.stages]
    refine and_congr_left fun habandoned => (hg e name ?_).symm
    rw [Flights.isOver_eq_of_stage? habandoned]
    rfl
  lone name := (Nat.add_le_add_left (hs.lone name) _).trans (h.lone name)

/-- Jobs that begin to run alone later had no work to drop. -/
theorem Drops.append (h : Drops r alone log cancels) (alone' : List String) :
    Drops r (alone ++ alone') log cancels :=
  ⟨h.names, h.once, h.exactly, fun name => by
    rw [List.count_append]
    exact (h.lone name).trans (Nat.le_add_right _ _)⟩

/-- The work of a job that runs alone is dropped. -/
theorem Drops.dropAlone (h : Drops r alone log cancels) (name : String)
    {jobs : Table String (Job V)}
    (hjobs : ∀ name', jobs.count (Job.employs name') + (if name = name' then 1 else 0) ≤
      r.jobs.count (Job.employs name')) :
    Drops { r with jobs, shop.cancelled := r.shop.cancelled ++ [name] } alone log
      (cancels ++ [⟨none, name⟩]) where
  names := by
    rw [List.map_append, h.names]
    rfl
  once := by simpa using h.once
  exactly e name' := by
    rw [← h.exactly e name']
    simp
  lone name' := by
    have hlone := h.lone name'
    have hname := hjobs name'
    rw [List.count_append, List.count_singleton]
    by_cases hn : name = name'
    · subst hn
      simp only [if_true, beq_self_eq_true] at hname ⊢
      omega
    · have hne : ((⟨none, name⟩ : Invocation) == ⟨none, name'⟩) = false := by simpa using hn
      simp only [hn, hne, if_false, Bool.false_eq_true] at hname ⊢
      omega

/-- The work of an execution is dropped, whose producer has been called under this name and no
other. -/
theorem Drops.dropShared (h : Drops r alone log cancels) {e : Nat} {name : String}
    {f' : Flights K (Production V) V} (hrunning : r.flights.stage? e ≠ some .abandoned)
    (habandoned : f'.stage? e = some .abandoned)
    (hother : ∀ e', e' ≠ e → f'.stage? e' = r.flights.stage? e')
    (hlog : ∀ name', ⟨some e, name'⟩ ∈ log ↔ name' = name) {jobs : Table String (Job V)}
    (hjobs : ∀ name, jobs.count (Job.employs name) ≤ r.jobs.count (Job.employs name))
    (notices : List Notice) :
    Drops { r with flights := f', jobs, shop.cancelled := r.shop.cancelled ++ [name], notices }
      alone log (cancels ++ [⟨some e, name⟩]) where
  names := by
    rw [List.map_append, h.names]
    rfl
  once := by
    rw [List.filterMap_append, List.nodup_append]
    refine ⟨h.once, by simp, fun e' he' e'' he'' heq => ?_⟩
    obtain ⟨⟨_, name'⟩, hi, rfl⟩ := List.mem_filterMap.mp he'
    have hself : e'' = e := by simpa using he''
    exact hrunning ((h.exactly e name').mp (hself ▸ heq ▸ hi)).2
  exactly e' name' := by
    rw [List.mem_append, h.exactly]
    by_cases he : e' = e
    · subst he
      simp [hrunning, habandoned, hlog]
    · simp [hother e' he, he]
  lone name' := by
    have hlone := (Nat.add_le_add_left (hjobs name') _).trans (h.lone name')
    rw [List.count_append, List.count_singleton]
    simpa using hlone

/-- To erase a job adds none. -/
theorem count_erase_le (r : Coalescing K V) (id name : String) :
    (r.jobs.erase id).count (Job.employs name) ≤ r.jobs.count (Job.employs name) := by
  have := r.jobs.count_erase id (Job.employs name)
  omega

variable [DecidableEq K]

/-- A job that is dropped takes along what only it waited for. -/
theorem Drops.dropJob (hledger : Ledger r started alone seen log)
    (h : Drops r alone log cancels) (id : String)
    (hleaves : ∀ e, r.jobs.get? id = some (.shared e) →
      r.flights.Leaves e (r.flights.leave e)) :
    ∃ cancels', Drops (r.dropJob id) alone log cancels' := by
  have hsaves : ∀ {r' : Coalescing K V}, r'.shop.cancelled = r.shop.cancelled →
      (∀ e, r'.flights.stage? e = r.flights.stage? e) → r'.jobs = r.jobs.erase id →
      Drops r' alone log cancels := by
    intro r' hshop hstages hjobs
    refine h.saves ⟨hshop, fun e => by rw [hstages], fun name => ?_⟩ (.refl r log)
    rw [hjobs]
    exact count_erase_le r id name
  unfold Coalescing.dropJob
  cases hget : r.jobs.get? id with
  | none => exact ⟨cancels, hsaves rfl (fun _ => rfl) rfl⟩
  | some job =>
    cases job with
    | ended => exact ⟨cancels, hsaves rfl (fun _ => rfl) rfl⟩
    | exclusive production =>
      cases production with
      | uncalled name producer => exact ⟨cancels, hsaves rfl (fun _ => rfl) rfl⟩
      | working name wait outcome =>
        refine ⟨_, h.dropAlone name fun name' => ?_⟩
        have hcount := r.jobs.count_erase id (Job.employs name')
        have hweight : r.jobs.weight id (Job.employs name') = if name = name' then 1 else 0 := by
          simp [Table.weight, hget, Job.employs]
        rw [hweight] at hcount
        exact hcount.le
    | shared e =>
      have hleave := hleaves e hget
      simp only
      rcases hl : r.flights.leave e with ⟨_ | production, f', ns⟩ <;> rw [hl] at hleave
      · refine ⟨cancels, hsaves rfl (fun e' => ?_) rfl⟩
        by_cases he : e' = e
        · exact he ▸ hleave.parts_stage?
        · exact hleave.stage?_of_ne he
      · obtain ⟨hrunning, habandoned⟩ := hleave.abandons_stage?
        have hnot : r.flights.stage? e ≠ some .abandoned := by
          rw [hrunning]
          simp
        have haccounts := hledger.stages e _ hrunning
        cases production with
        | uncalled name producer =>
          refine ⟨cancels, h.names, h.once, fun e' name' => ?_, fun name' => ?_⟩
          · rw [h.exactly]
            by_cases he : e' = e
            · subst he
              have hlog : ⟨some e', name'⟩ ∉ log := fun hmem => haccounts.2 _ hmem rfl
              simp [hlog]
            · rw [hleave.stage?_of_ne he]
          · exact (Nat.add_le_add_left (count_erase_le r id name') _).trans (h.lone name')
        | working name wait outcome =>
          obtain ⟨⟨name', producer', n, horigin', hn, -⟩, producer, horigin⟩ := haccounts
          have hname : name' = name := by
            rw [horigin, Option.some.injEq, Prod.mk.injEq] at horigin'
            exact horigin'.1.symm
          -- The log has one call for the execution, which is that of the work that is dropped.
          have hlog : ∀ name', ⟨some e, name'⟩ ∈ log ↔ name' = name := by
            intro name''
            constructor
            · intro hmem
              obtain ⟨-, producer'', horigin''⟩ := hledger.sourced _ hmem e rfl
              rw [horigin, Option.some.injEq, Prod.mk.injEq] at horigin''
              exact horigin''.1.symm
            · rintro rfl
              exact hname ▸ List.mem_of_getElem? hn
          exact ⟨_, h.dropShared hnot habandoned (fun e' => hleave.stage?_of_ne) hlog
            (count_erase_le r id) _⟩

/-! ## Steps that drop nothing -/

omit [DecidableEq K] in
/-- A poll drops no work, and goes on with the work under its name. -/
theorem saves_poll (production : Production V) (shop : Workshop) :
    (production.poll shop).2.cancelled = shop.cancelled ∧
      ∀ rest, (production.poll shop).1 = .waiting rest →
        ∀ name, Job.employs name (.exclusive rest) = Job.employs name (.exclusive production) := by
  cases production with
  | uncalled id producer =>
    obtain ⟨progress, hpoll, hcarries⟩ := Production.carries_poll_uncalled id producer shop
    rw [hpoll]
    refine ⟨rfl, fun rest hrest name => ?_⟩
    subst hrest
    obtain ⟨wait, rfl⟩ := hcarries
    rfl
  | working id wait outcome =>
    obtain ⟨progress, hpoll, hcarries⟩ := Production.carries_poll_working id wait outcome shop
    rw [hpoll]
    refine ⟨rfl, fun rest hrest name => ?_⟩
    subst hrest
    obtain ⟨wait, rfl⟩ := hcarries
    rfl

omit [DecidableEq K] in
/-- A job can take the place of one that runs alone under the same name, or of any if it does not
run alone. -/
theorem saves_keep (id : String) (job : Job V) (r : Coalescing K V)
    (hjob : ∀ name, (if job.employs name then 1 else 0) ≤ r.jobs.weight id (Job.employs name)) :
    Saves r (r.keep id job) := by
  refine ⟨rfl, fun _ => Iff.rfl, fun name => ?_⟩
  have hcount := r.jobs.count_insert id job (Job.employs name)
  have hname := hjob name
  show (r.jobs.insert id job).count _ ≤ _
  omega

/-- A poll drops no work. -/
theorem saves_pollJob (id : String) {r : Coalescing K V} (hsound : r.Sound) :
    Saves r (r.pollJob id).2 := by
  unfold pollJob
  cases hget : r.jobs.get? id with
  | none => exact .refl r
  | some job =>
    cases job with
    | ended => exact .refl r
    | exclusive production =>
      obtain ⟨hshop, hrest⟩ := saves_poll production r.shop
      have hweight : ∀ name, r.jobs.weight id (Job.employs name) =
          if Job.employs name (.exclusive production) then 1 else 0 := fun name => by
        rw [Table.weight, hget, Option.any_some]
      simp only
      rcases hp : production.poll r.shop with ⟨rest | outcome, shop⟩ <;> rw [hp] at hshop hrest
      · have hkeep := saves_keep id (.exclusive rest) { r with shop } fun name => by
          rw [hrest rest rfl name]
          exact (hweight name).ge
        exact ⟨hshop, hkeep.stages, hkeep.lone⟩
      · have hkeep := saves_keep id .ended { r with shop } fun _ => Nat.zero_le _
        exact ⟨hshop, hkeep.stages, hkeep.lone⟩
    | shared e =>
      have hpoll := Flights.polls_of_waiting Production.poll hsound.tracked (waiting_pos hget)
        r.shop
      simp only
      rcases hp : r.flights.poll Production.poll e r.shop with ⟨answer, f', shop, ns⟩
      rw [hp] at hpoll
      have hsaves : Saves r { r with flights := f', shop, notices := r.notices ++ ns } := by
        obtain ⟨stage, stage', hstage, hstage', hadvances⟩ := hpoll.advances
        -- A poll moves the execution on, but only a departure abandons one.
        have hself : f'.stage? e = some .abandoned ↔ r.flights.stage? e = some .abandoned := by
          rw [hstage, hstage']
          cases hadvances with
          | receives => exact Iff.rfl
          | @works work progress shop hw => simp [Stage.ofProgress_ne_abandoned]
        have hshop : shop.cancelled = r.shop.cancelled := by
          cases hadvances with
          | receives => rfl
          | @works work progress shop hw =>
            exact (congrArg (·.2.cancelled) hw).symm.trans (saves_poll work r.shop).1
        refine ⟨hshop, fun e' => ?_, fun _ => le_rfl⟩
        by_cases he : e' = e
        · exact he ▸ hself
        · exact iff_of_eq (congrArg (· = _) (hpoll.stage?_of_ne he))
      cases answer with
      | none => exact hsaves
      | some outcome => exact hsaves.trans (saves_keep id .ended _ fun _ => Nat.zero_le _)

/-- Joined polls drop no work. -/
theorem saves_join (ids : List String) (passes : Nat) {r : Coalescing K V} (hsound : r.Sound) :
    Saves r (join pollJob passes ids r).2 := by
  have hjoin := join_under (R := Saves) .refl .trans
    (fun id (_ : id ∈ ids) r hs => ⟨saves_pollJob id hs, (moves_pollJob id hs).sound⟩) passes hsound
  exact hjoin.1

/-- To come to an execution drops no work. -/
theorem saves_enter (r : Coalescing K V) (key : K) (production : Production V)
    (notices : List Notice) :
    Saves r { r with flights := (r.flights.enter key production).2.1, notices } := by
  refine ⟨rfl, fun e => ?_, fun _ => le_rfl⟩
  rcases Flights.stage?_enter r.flights key production e with hsame | ⟨hnone, hrunning⟩
  · exact iff_of_eq (congrArg (· = _) hsame)
  · show (r.flights.enter key production).2.1.stage? e = _ ↔ _
    rw [hnone, hrunning]
    exact ⟨nofun, nofun⟩

/-! ## Steps and runs -/

/-- A job that shares an execution may leave it. -/
theorem Sound.leaves (hsound : r.Sound) {id : String} (e : Nat)
    (hget : r.jobs.get? id = some (.shared e)) : r.flights.Leaves e (r.flights.leave e) :=
  Flights.leaves_of_waiting hsound.tracked (waiting_pos hget)

/-- Jobs are dropped one after the other, each with its work if nobody else waits for it. -/
theorem Drops.dropJobs (ids : List String) (hsound : r.Sound)
    (hledger : Ledger r started alone seen log) (h : Drops r alone log cancels) :
    ∃ cancels', Drops (ids.foldl (fun r id => r.dropJob id) r) alone log cancels' := by
  induction ids generalizing r cancels with
  | nil => exact ⟨cancels, h⟩
  | cons id ids ih =>
    obtain ⟨cancels', h'⟩ := h.dropJob hledger id hsound.leaves
    exact ih (moves_dropJob id hsound).sound (hledger.idles (idles_dropJob id r)) h'

/-- A call drops the job whose name it takes, with its work if nobody else waits for it. -/
theorem Drops.call (hsound : r.Sound) (hopen : r.closed = false)
    (hledger : Ledger r started alone seen log) (h : Drops r alone log cancels) (id : String)
    (key : K) (producer : Producer V) :
    ∃ cancels', Drops (r.call id key producer) alone log cancels' := by
  have hreg := hsound.registered hopen
  have htracked := hsound.tracked.enter hreg key (.uncalled id producer)
  have henter := hledger.enter hsound hopen id key producer
  unfold Coalescing.call
  rcases hcall : r.flights.enter key (.uncalled id producer) with ⟨e, f', notice⟩
  rw [hcall] at htracked henter
  let r' : Coalescing K V := { r with flights := f', notices := r.notices ++ [notice] }
  have hsaves : Saves r r' := by
    have := saves_enter r key (.uncalled id producer) (r.notices ++ [notice])
    rwa [hcall] at this
  have hentered : Drops r' alone log cancels := h.saves hsaves (.refl r log)
  have hidles : Idles { r with flights := f' } r' :=
    ⟨rfl, rfl, fun _ => .inl rfl, fun _ => le_rfl⟩
  have hledger' := henter.idles hidles
  obtain ⟨cancels', h'⟩ := hentered.dropJob hledger' id fun e' hget =>
    Flights.leaves_of_waiting htracked
      ((waiting_pos (r := r) hget).trans_le (Flights.le_more r.waiting e e'))
  exact ⟨cancels', h'.saves (saves_keep id _ _ fun _ => Nat.zero_le _) (.refl _ log)⟩

/-- A job that begins to run alone drops the job whose name it takes. -/
theorem Drops.exclusive (hsound : r.Sound) (hledger : Ledger r started alone seen log)
    (h : Drops r alone log cancels) (id : String) (producer : Producer V) :
    ∃ cancels', Drops (r.replace id (.exclusive (.uncalled id producer))) (alone ++ [id]) log
      cancels' := by
  obtain ⟨cancels', h'⟩ := h.dropJob hledger id hsound.leaves
  refine ⟨cancels', h'.names, h'.once, h'.exactly, fun name => ?_⟩
  have hlone := h'.lone name
  have hcount := (r.dropJob id).jobs.count_insert id (.exclusive (.uncalled id producer))
    (Job.employs name)
  have hnew : (Job.exclusive (.uncalled id producer)).employs name = decide (id = name) := rfl
  rw [hnew] at hcount
  show _ + ((r.dropJob id).jobs.insert id _).count _ ≤ _
  rw [List.count_append, List.count_singleton]
  by_cases hname : id = name
  · subst hname
    simp only [decide_true, beq_self_eq_true, if_true] at hcount ⊢
    omega
  · simp only [hname, decide_false, beq_eq_false_iff_ne.mpr hname, Bool.false_eq_true, if_false]
      at hcount ⊢
    omega

/-- Every step attributes the work that it drops. -/
theorem Drops.step (s : Step K V) (hsound : r.Sound) (hledger : Ledger r started alone seen log)
    (h : Drops r alone log cancels) :
    ∃ log' cancels', Ledger (r.step s).2 (started ++ origins r s) (alone ++ soloists r s)
        (seen ++ polled r s) log' ∧
      Drops (r.step s).2 (alone ++ soloists r s) log' cancels' := by
  let r₀ : Coalescing K V := { r with notices := [] }
  have hsound₀ : r₀.Sound := ⟨hsound.tracked, hsound.registered⟩
  have hledger₀ : Ledger r₀ started alone seen log :=
    hledger.idles ⟨rfl, rfl, fun _ => .inl rfl, fun _ => le_rfl⟩
  have h₀ : Drops r₀ alone log cancels := ⟨h.names, h.once, h.exactly, h.lone⟩
  obtain ⟨log', hgrows, hsame, hledger'⟩ := hledger.step s hsound
  refine ⟨log', ?_⟩
  suffices hdrops : ∃ cancels', Drops (r.step s).2 (alone ++ soloists r s) log' cancels' from
    hdrops.imp fun _ h' => ⟨hledger', h'⟩
  -- A step that is refused, or drops no job, saves all work; the others drop theirs.
  by_cases hrefused : (r.closed && s.needsRegistry) = true
  · have hstep : (r.step s).2 = r₀ := by rw [step_snd, attempt, if_pos hrefused]
    rw [hstep]
    exact ⟨cancels, (h₀.saves (.refl r₀) hgrows).append _⟩
  · have hstep : (r.step s).2 = (r₀.perform s).2 := by rw [step_snd, attempt, if_neg hrefused]
    have hopen : s.needsRegistry = true → r.closed = false := fun hs => by
      simpa [hs] using hrefused
    rw [hstep]
    cases s with
    | poll id => exact ⟨cancels, (h₀.saves (saves_pollJob id hsound₀) hgrows).append _⟩
    | join ids =>
      exact ⟨cancels, (h₀.saves (saves_join ids (ids.length + 1) hsound₀) hgrows).append _⟩
    | shared id key producer =>
      obtain ⟨cancels', h'⟩ := h₀.call hsound₀ (hopen rfl) hledger₀ id key producer
      exact ⟨cancels', hsame rfl ▸ h'.append _⟩
    | exclusive id producer =>
      obtain ⟨cancels', h'⟩ := h₀.exclusive hsound₀ hledger₀ id producer
      have hsoloist : soloists r (.exclusive id producer) = [id] := by
        rw [soloists, hopen rfl]
        rfl
      rw [hsoloist, hsame rfl]
      exact ⟨cancels', h'⟩
    | drop id =>
      obtain ⟨cancels', h'⟩ := h₀.dropJob hledger₀ id hsound₀.leaves
      exact ⟨cancels', hsame rfl ▸ h'.append _⟩
    | openGate gate =>
      have hsaves : Saves r₀ (r₀.perform (.openGate gate)).2 :=
        ⟨rfl, fun _ => Iff.rfl, fun _ => le_rfl⟩
      exact ⟨cancels, (h₀.saves hsaves hgrows).append _⟩
    | closeGate gate =>
      have hsaves : Saves r₀ (r₀.perform (.closeGate gate)).2 :=
        ⟨rfl, fun _ => Iff.rfl, fun _ => le_rfl⟩
      exact ⟨cancels, (h₀.saves hsaves hgrows).append _⟩
    | inspect => exact ⟨cancels, (h₀.saves (.refl r₀) hgrows).append _⟩
    | dropRegistry =>
      obtain ⟨cancels', h'⟩ := h₀.dropJobs r₀.exclusives hsound₀ hledger₀
      have hclose : Saves (r₀.exclusives.foldl (fun r id => r.dropJob id) r₀) r₀.dropRegistry :=
        ⟨rfl, fun _ => Iff.rfl, fun _ => le_rfl⟩
      exact ⟨cancels', hsame rfl ▸ (h'.saves hclose (.refl _ log)).append _⟩

/-- Every run attributes the work that it drops. -/
theorem Drops.run (steps : List (Step K V)) (hsound : r.Sound)
    (hledger : Ledger r started alone seen log) (h : Drops r alone log cancels) :
    ∃ log' cancels', Ledger (r.run steps).2 (started ++ along origins r steps)
        (alone ++ along soloists r steps) (seen ++ along polled r steps) log' ∧
      Drops (r.run steps).2 (alone ++ along soloists r steps) log' cancels' := by
  induction steps generalizing r started alone seen log cancels with
  | nil =>
    simp only [along, List.append_nil]
    exact ⟨log, cancels, hledger, h⟩
  | cons s rest ih =>
    obtain ⟨log', cancels', hledger', h'⟩ := h.step s hsound hledger
    obtain ⟨log'', cancels'', hledger'', h''⟩ := ih (stepsTo_step s hsound).sound hledger' h'
    simp only [List.append_assoc] at hledger'' h''
    exact ⟨log'', cancels'', hledger'', h''⟩

/-- The work that was dropped in a run before it ended, attributed to executions and to jobs that
run alone. It was dropped for an execution exactly if its producer has been called and all jobs
that waited for it have gone away before it settled; nobody has then received an outcome of it. -/
structure Cancelled (steps : List (Step K V)) (log cancels : List Invocation) : Prop where
  names : cancels.map (·.name) = (run ({} : Coalescing K V) steps).2.shop.cancelled
  once : (cancels.filterMap (·.execution)).Nodup
  exactly : ∀ e name, ⟨some e, name⟩ ∈ cancels ↔ ⟨some e, name⟩ ∈ log ∧
    ¬ (run ({} : Coalescing K V) steps).2.Settled e ∧
    ∀ id, (run ({} : Coalescing K V) steps).2.jobs.get? id ≠ some (.shared e)
  unsettled : ∀ c ∈ along receipts ({} : Coalescing K V) steps, ∀ name,
    ⟨some c.execution, name⟩ ∉ cancels
  lone : ∀ name,
    cancels.count ⟨none, name⟩ ≤ (along soloists ({} : Coalescing K V) steps).count name

omit [DecidableEq K] in
/-- An execution has settled exactly if it has an outcome. -/
theorem settled_iff {e : Nat} :
    r.Settled e ↔ ∃ outcome, r.flights.stage? e = some (.settled outcome) := by
  constructor
  · rintro ⟨x, outcome, hx, hs⟩
    exact ⟨outcome, hs ▸ Flights.stage?_of_getElem? hx⟩
  · rintro ⟨outcome, hs⟩
    obtain ⟨x, hx, hstage⟩ := Flights.exists_of_stage? hs
    exact ⟨x, outcome, hx, hstage⟩

/-- An execution is abandoned if it was started, has not settled and no job waits for it. -/
theorem Sound.abandoned_iff (hsound : r.Sound) {e : Nat} (he : e < r.flights.executions.length) :
    r.flights.stage? e = some .abandoned ↔
      ¬ r.Settled e ∧ ∀ id, r.jobs.get? id ≠ some (.shared e) := by
  have hx : r.flights.executions[e]? = some r.flights.executions[e] := List.getElem?_eq_getElem he
  have hexecution := hsound.tracked.sound hx
  rw [settled_iff, Flights.stage?_of_getElem? hx]
  generalize r.flights.executions[e] = x at hx hexecution
  constructor
  · intro habandoned
    rw [Option.some.injEq] at habandoned
    refine ⟨fun ⟨outcome, hs⟩ => ?_, fun id hget => ?_⟩
    · rw [habandoned] at hs
      cases hs
    · have hpos := waiting_pos hget
      rw [hexecution.deserted habandoned] at hpos
      exact lt_irrefl 0 hpos
  · rintro ⟨hunsettled, hnone⟩
    cases hs : x.stage with
    | abandoned => rfl
    | settled outcome => exact absurd ⟨outcome, by rw [hs]⟩ hunsettled
    | running work =>
      obtain ⟨id, hget⟩ := exists_job_of_waiting (hexecution.wanted (Stage.isRunning_of_eq hs))
      exact absurd hget (hnone id)

/-- The work that was dropped in any run can be attributed, by the same log of calls. -/
theorem exists_cancelled (steps : List (Step K V)) :
    ∃ log cancels, Attributed steps log ∧ Cancelled steps log cancels := by
  obtain ⟨log, cancels, hledger, h⟩ := drops_init.run steps sound_init ledger_init
  have hsound : (run ({} : Coalescing K V) steps).2.Sound := sound_run steps sound_init
  simp only [List.nil_append] at hledger h
  refine ⟨log, cancels, hledger.attributed, h.names, h.once, fun e name => ?_,
    fun c hc name hmem => ?_, fun name => (Nat.le_add_right _ _).trans (h.lone name)⟩
  · rw [h.exactly]
    refine and_congr_right fun hlog => hsound.abandoned_iff ?_
    obtain ⟨-, producer, horigin⟩ := hledger.sourced _ hlog e rfl
    exact hledger.length ▸ (List.getElem?_eq_some_iff.mp horigin).1
  · have hsettled := settled_of_mem_run steps sound_init hc
    rw [((h.exactly _ _).mp hmem).2] at hsettled
    cases hsettled

end Coalescing

end ReadThrough
