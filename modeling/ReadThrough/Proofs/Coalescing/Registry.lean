import ReadThrough.Proofs.Coalescing.Invariant
/-!
# Proofs: what the registry holds

After every step of every run the registry holds exactly the live executions, those that have not
settled and for which a job still waits, each under its key and with its number. An execution leaves
the registry once, in the step in which it settles or loses its last job.
-/

namespace ReadThrough

variable {K V : Type}

namespace Coalescing

/-- The key that an execution was started for. -/
def keyOf? (r : Coalescing K V) (e : Nat) : Option K := (r.flights.executions[e]?).map (·.key)

/-- An execution has settled. -/
def Settled (r : Coalescing K V) (e : Nat) : Prop :=
  ∃ x outcome, r.flights.executions[e]? = some x ∧ x.stage = .settled outcome

/-- An execution was started and has not settled, and a job waits for it. -/
def Live (r : Coalescing K V) (e : Nat) : Prop :=
  e < r.flights.executions.length ∧ ¬ r.Settled e ∧ ∃ id, r.jobs.get? id = some (.shared e)

/-- An execution was started, and it has settled or no job waits for it any more. -/
def Gone (r : Coalescing K V) (e : Nat) : Prop := e < r.flights.executions.length ∧ ¬ r.Live e

/-- What happened to the registry during a run. -/
def noticesOf (r : Coalescing K V) (steps : List (Step K V)) [DecidableEq K] : List Notice :=
  (r.run steps).1.flatMap (·.notices)

variable [DecidableEq K]

/-- The live executions are those that are running. -/
theorem Sound.live_iff_runs {r : Coalescing K V} (h : r.Sound) (e : Nat) :
    r.Live e ↔ r.flights.Runs e := by
  constructor
  · rintro ⟨hlt, hns, id, hid⟩
    have hx : r.flights.executions[e]? = some r.flights.executions[e] :=
      List.getElem?_eq_getElem hlt
    refine ⟨_, hx, ?_⟩
    cases hs : r.flights.executions[e].stage with
    | running work => rfl
    | settled outcome => exact absurd ⟨_, outcome, hx, hs⟩ hns
    | abandoned =>
      have hzero := (h.tracked.sound hx).deserted hs
      have hpos := waiting_pos hid
      omega
  · rintro ⟨x, hx, hrun⟩
    refine ⟨(List.getElem?_eq_some_iff.mp hx).1, ?_, ?_⟩
    · rintro ⟨y, outcome, hy, hs⟩
      rw [hx] at hy
      cases hy
      rw [Stage.not_running_of_eq hs] at hrun
      cases hrun
    · exact exists_job_of_waiting ((h.tracked.sound hx).wanted hrun)

/-- An execution is gone exactly if it was started and is not running any more. -/
theorem Sound.gone_iff_isOver {r : Coalescing K V} (h : r.Sound) (e : Nat) :
    r.Gone e ↔ r.flights.isOver e = true := by
  unfold Gone
  rw [h.live_iff_runs]
  constructor
  · rintro ⟨hlt, hnot⟩
    have hx : r.flights.executions[e]? = some r.flights.executions[e] :=
      List.getElem?_eq_getElem hlt
    rw [Flights.isOver, hx, Option.any_some, Bool.not_eq_true']
    by_contra hrun
    exact hnot ⟨_, hx, by simpa using hrun⟩
  · intro hover
    unfold Flights.isOver at hover
    cases hx : r.flights.executions[e]? with
    | none => rw [hx] at hover; cases hover
    | some x =>
      refine ⟨(List.getElem?_eq_some_iff.mp hx).1, ?_⟩
      rintro ⟨y, hy, hrun⟩
      rw [hx] at hy hover
      cases hy
      rw [Option.any_some, hrun] at hover
      cases hover

end Coalescing

/-- As many executions are registered as run. -/
theorem Flights.Registered.ongoing_eq {W T : Type} [DecidableEq K] {f : Flights K W T}
    (h : f.Registered) : f.ongoing = {e | f.Runs e}.ncard := by
  let found := f.registry.pairs.map (·.2.execution)
  have hentry : ∀ {k t}, (k, t) ∈ f.registry.pairs → t.number = flightNumber t.execution ∧
      ∃ x, f.executions[t.execution]? = some x ∧ x.key = k ∧ x.stage.isRunning = true :=
    fun hm => (h _ _).mp (f.registry.get?_eq_some_iff.mpr hm)
  have hnodup : found.Nodup := by
    refine List.Nodup.map_on ?_ (.of_map _ f.registry.distinct)
    rintro ⟨k, n, e⟩ hm ⟨k', n', e'⟩ hm' heq
    obtain ⟨hn, x, hx, hk, -⟩ := hentry hm
    obtain ⟨hn', x', hx', hk', -⟩ := hentry hm'
    have he : e = e' := heq
    subst he
    rw [hx] at hx'
    cases hx'
    rw [← hk, ← hk', show n = _ from hn, show n' = _ from hn']
  have hmem : {e | f.Runs e} = (found.toFinset : Set Nat) := by
    ext e
    rw [Set.mem_ofPred_eq, List.coe_toFinset, Set.mem_ofPred_eq, List.mem_map]
    constructor
    · rintro ⟨x, hx, hrun⟩
      exact ⟨_, f.registry.get?_eq_some_iff.mp (h.get?_key hx hrun), rfl⟩
    · rintro ⟨⟨k, t⟩, hm, rfl⟩
      obtain ⟨-, x, hx, -, hrun⟩ := hentry hm
      exact ⟨x, hx, hrun⟩
  rw [hmem, Set.ncard_coe_finset, List.toFinset_card_of_nodup hnodup, List.length_map]
  rfl

namespace Coalescing

variable [DecidableEq K]

/-- A registry that is there at the end of a run was there at its beginning. -/
theorem open_of_run (steps : List (Step K V)) {r : Coalescing K V} (h : r.Sound)
    (hopen : (r.run steps).2.closed = false) : r.closed = false := by
  induction steps generalizing r with
  | nil => exact hopen
  | cons s rest ih =>
    have hstep := stepsTo_step s h
    exact (hstep.noticed (ih hstep.sound hopen)).1

/-- Over a run the notices say of every execution exactly whether it stopped running. -/
theorem steps_run (steps : List (Step K V)) {r : Coalescing K V} (h : r.Sound)
    (hopen : (r.run steps).2.closed = false) :
    r.flights.Steps (r.noticesOf steps) (r.run steps).2.flights := by
  induction steps generalizing r with
  | nil => exact .refl _
  | cons s rest ih =>
    have hstep := stepsTo_step s h
    exact (hstep.noticed (open_of_run rest hstep.sound hopen)).2.trans (ih hstep.sound hopen)

/-- An execution that is gone after some steps, and was not before, was removed once in them, and
any other not at all. -/
theorem Sound.removals_of_steps {r r' : Coalescing K V} {ns : List Notice} (h : r.Sound)
    (h' : r'.Sound) (hs : r.flights.Steps ns r'.flights) (e : Nat) :
    (¬ r.Gone e ∧ r'.Gone e → removals ns e = 1) ∧
      (¬ (¬ r.Gone e ∧ r'.Gone e) → removals ns e = 0) := by
  have hremoved := hs.removed e
  rw [h.gone_iff_isOver, h'.gone_iff_isOver]
  cases h1 : r.flights.isOver e <;> cases h2 : r'.flights.isOver e <;>
    simp [h1, h2] at hremoved ⊢ <;> exact hremoved

/-- The registry after any run, while there is a registry: it has an entry for a key exactly when
there is a live execution of the key, which is then the one that the entry names and numbers; no
two live executions have the same key, and as many executions are registered as are live. Each
execution is removed exactly once, in the step in which it settles or loses its last job, and
nothing is registered when every execution that a job waits for has settled. -/
theorem registry_holds_live (steps : List (Step K V))
    (hopen : (run ({} : Coalescing K V) steps).2.closed = false) :
    let r := (run ({} : Coalescing K V) steps).2
    (∀ key ticket, r.flights.registry.get? key = some ticket ↔
      ticket.number = flightNumber ticket.execution ∧ r.keyOf? ticket.execution = some key ∧
        r.Live ticket.execution) ∧
    (∀ e e', r.Live e → r.Live e' → r.keyOf? e = r.keyOf? e' → e = e') ∧
    r.flights.ongoing = {e | r.Live e}.ncard ∧
    (∀ e, (r.Gone e → removals (noticesOf {} steps) e = 1) ∧
      (¬ r.Gone e → removals (noticesOf {} steps) e = 0)) ∧
    (∀ s, (r.step s).2.closed = false → ∀ e,
      (¬ r.Gone e ∧ (r.step s).2.Gone e → removals (r.step s).1.notices e = 1) ∧
        (¬ (¬ r.Gone e ∧ (r.step s).2.Gone e) → removals (r.step s).1.notices e = 0)) ∧
    ((∀ id e, r.jobs.get? id = some (.shared e) → r.Settled e) → r.flights.ongoing = 0) := by
  intro r
  have hsound : r.Sound := sound_run steps sound_init
  have hreg := hsound.registered hopen
  have hcount : r.flights.ongoing = {e | r.Live e}.ncard := by
    rw [hreg.ongoing_eq]
    simp only [hsound.live_iff_runs]
  refine ⟨fun key ticket => ?_, fun e e' he he' hkey => ?_, hcount, fun e => ?_, fun s hs e => ?_,
    fun hall => ?_⟩
  · rw [hreg key ticket, hsound.live_iff_runs]
    refine and_congr_right fun _ => ?_
    constructor
    · rintro ⟨x, hx, hk, hrun⟩
      exact ⟨by rw [keyOf?, hx, Option.map_some, hk], x, hx, hrun⟩
    · rintro ⟨hk, x, hx, hrun⟩
      rw [keyOf?, hx, Option.map_some, Option.some.injEq] at hk
      exact ⟨x, hx, hk, hrun⟩
  · obtain ⟨x, hx, hrun⟩ := (hsound.live_iff_runs e).mp he
    obtain ⟨x', hx', hrun'⟩ := (hsound.live_iff_runs e').mp he'
    rw [keyOf?, keyOf?, hx, hx', Option.map_some, Option.map_some, Option.some.injEq] at hkey
    exact hreg.key_unique hx hrun hx' hrun' hkey
  · have hfresh : ¬ Gone ({} : Coalescing K V) e := fun h => absurd h.1 (Nat.not_lt_zero e)
    have hremoved := sound_init.removals_of_steps hsound (steps_run steps sound_init hopen) e
    exact ⟨fun h => hremoved.1 ⟨hfresh, h⟩, fun h => hremoved.2 fun h' => h h'.2⟩
  · have hstep := stepsTo_step s hsound
    exact hsound.removals_of_steps hstep.sound (hstep.noticed hs).2 e
  · have hnone : {e | r.Live e} = ∅ := by
      ext e
      rw [Set.mem_ofPred_eq, Set.mem_empty_iff_false, iff_false]
      rintro ⟨-, hns, id, hid⟩
      exact hns (hall id e hid)
    rw [hcount, hnone, Set.ncard_empty]

/-- A run in which an execution loses its first job, gains another one and panics in the hands of
the second; the next one for the same key outlives a third, which is dropped before its first
poll. -/
def crowdedRun : List (Step Nat Nat) :=
  [.shared "a" 7 { ending := fun _ => .panicked "boom" }, .shared "b" 7 { ending := .value },
    .drop "a", .shared "c" 7 { refusal := some "never called", ending := .value },
    .poll "b", .drop "b", .shared "d" 7 { wait := ⟨some "gate", 1⟩, ending := .value },
    .shared "e" 9 { ending := .value }, .poll "d", .drop "e", .poll "c", .drop "c"]

/-- In this run an execution panics in the hands of its second job, and the next one for its key
stays. -/
theorem registry_holds_live_crowdedRun :
    let r := (run ({} : Coalescing Nat Nat) crowdedRun).2
    r.closed = false ∧ r.flights.ongoing = 1 ∧ {e | r.Live e}.ncard = 1 ∧
      removals (noticesOf {} crowdedRun) 0 = 1 ∧ removals (noticesOf {} crowdedRun) 1 = 0 := by
  intro r
  obtain ⟨-, -, hcount, hremoved, -⟩ := registry_holds_live crowdedRun rfl
  have hgone : r.Gone 0 := ⟨by decide, fun hlive => hlive.2.1 ⟨_, _, rfl, rfl⟩⟩
  have hunsettled : ¬ r.Settled 1 := fun ⟨_, _, hx, hs⟩ => by cases hx; cases hs
  have hlive : r.Live 1 := ⟨by decide, hunsettled, "d", rfl⟩
  exact ⟨rfl, rfl, hcount.symm, (hremoved 0).1 hgone, (hremoved 1).2 fun h => h.2 hlive⟩

end Coalescing

end ReadThrough
