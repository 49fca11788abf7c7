import ReadThrough.Proofs.Session.Aims
import Mathlib.Data.List.Dedup
/-!
# Proofs: the visits that a run pays to loads

Each poll of a load is a visit to a shared execution, or to the work of a load that is alone
(`Session.Visits`). The first visit makes work call the source, and no later one does so again. So
the calls of the source are those of the shared executions, each of which was visited, and of the
loads that were visited alone (`Tally`).
-/

namespace ReadThrough

variable {P A V E : Type}

/-- Whether a load that does its work alone is visited for the first time. -/
def Visit.isDetour (visit : Visit) : Bool := visit.execution.isNone && visit.first

/-- Whether work has yet to call the source. -/
def Work.isFresh : Work P A V E → Bool
  | .fresh _ => true
  | .calling _ _ _ | .storing _ _ _ _ => false

/-- How many calls of the source the work of an execution has yet to make. -/
def uncalled (f : Flights (Key P A) (Work P A V E) (Result V E)) (e : Nat) : Nat :=
  match f.stage? e with
  | some (.running work) => work.isFresh.toNat
  | some (.settled _) | some .abandoned | none => 0

/-- The tally of the visits is right: each execution was visited, and the calls of the source are
those of the executions and of the loads that were visited alone. All work has made its call. -/
structure Tally (w : World P A V E) (visits : List Visit) : Prop where
  visited : ∀ e, (∃ visit ∈ visits, visit.execution = some e) ↔
    e < w.cache.flights.executions.length
  called : w.cache.env.called.length =
    w.cache.flights.executions.length + visits.countP Visit.isDetour
  shared : ∀ e, uncalled w.cache.flights e = 0
  alone : ∀ work, .alone work ∈ w.loads → work.isFresh = false

/-! ## Visits -/

/-- An execution at the same stage has the same calls yet to make. -/
theorem uncalled_eq_of_stage {f f' : Flights (Key P A) (Work P A V E) (Result V E)} {e : Nat}
    (h : f'.stage? e = f.stage? e) : uncalled f' e = uncalled f e := by
  rw [uncalled, h, uncalled]

section Visits

variable [DecidableEq P] [DecidableEq A] {c : Cache P A V E} {loads : Multiset (Load P A V E)}

/-- Only the first poll of work calls the source. -/
theorem Work.called_pollAs (execution : Option Nat) (work : Work P A V E)
    (env : Environment P A V E) :
    (work.pollAs execution env).2.called.length = env.called.length + work.isFresh.toNat := by
  obtain ⟨-, -, -, -, hcalled, -⟩ := work.books_pollAs execution env
  rw [hcalled, List.length_append, List.length_map]
  cases work <;> rfl

/-- Work that has been polled and goes on has made its call. -/
theorem Work.isFresh_of_pollAs {execution : Option Nat} {work left : Work P A V E}
    {env : Environment P A V E} (h : (work.pollAs execution env).1 = .waiting left) :
    left.isFresh = false := by
  rw [Work.pollAs_eq] at h
  have hnumber := Work.number?_poll h
  cases left with
  | fresh key => cases hnumber
  | calling | storing => rfl

/-- What a visit to a shared execution does: its work makes its call, unless it has made it. -/
structure Load.Pays (e : Nat) (c c' : Cache P A V E) : Prop where
  length : c'.flights.executions.length = c.flights.executions.length
  other : ∀ e', e' ≠ e → c'.flights.stage? e' = c.flights.stage? e'
  self : uncalled c'.flights e = 0
  called : c'.env.called.length = c.env.called.length + uncalled c.flights e
  known : e < c.flights.executions.length

/-- A visit to a shared execution makes the call of its work, unless it was made. -/
theorem Load.pays_pollAttached {e : Nat} (h : Attended ⟨c, .attached e ::ₘ loads⟩) :
    Load.Pays e c (pollAttached e c).2 := by
  have hpolls := Flights.polls_of_waiting (Work.pollAs (some e)) h.tracked
    (waitingAmong_attached_pos loads e) c.env
  have hflights := Load.flights_pollAttached e c
  have hcalled : (pollAttached e c).2.env.called =
      (c.flights.poll (Work.pollAs (some e)) e c.env).2.2.1.called := by
    unfold pollAttached
    rcases c.flights.poll (Work.pollAs (some e)) e c.env with ⟨_ | outcome, f', env', ns⟩ <;> rfl
  rcases hpoll : c.flights.poll (Work.pollAs (some e)) e c.env with ⟨answer, f', env', ns⟩
  rw [hpoll] at hpolls hflights hcalled
  obtain ⟨stage, stage', hstage, hstage', hadvances⟩ := hpolls.advances
  refine ⟨?_, fun e' he => ?_, ?_, ?_, Flights.lt_of_stage? hstage⟩
  · rw [hflights]
    exact hpolls.length
  · rw [hflights]
    exact hpolls.stage?_of_ne he
  · rw [hflights, uncalled, hstage']
    cases hadvances with
    | receives => rfl
    | @works work progress _ hw =>
      cases progress with
      | finished outcome => rfl
      | waiting left => simp [Work.isFresh_of_pollAs (congrArg Prod.fst hw), Stage.ofProgress]
  · rw [hcalled, uncalled, hstage]
    cases hadvances with
    | receives => rfl
    | @works work progress _ hw =>
      have hwork := work.called_pollAs (some e) c.env
      rw [hw] at hwork
      exact hwork

/-- What a session does besides its loads calls nobody. -/
theorem Acts.called_eq {c' : Cache P A V E} (h : Acts c c') : c'.env.called = c.env.called := by
  cases h with
  | @looks key maxAge found _ hlook =>
    unfold Cache.lookup at hlook
    split at hlook
    · cases hlook
      exact (c.env.undisturbed_lookup key maxAge).called
    · cases hlook
  | _ => rfl

end Visits

namespace Tally

variable {w w' : World P A V E} {visits visits' : List Visit} {c c' : Cache P A V E}
  {loads : Multiset (Load P A V E)}

/-- Nothing is visited and nothing called. -/
theorem rests (h : Tally w visits)
    (hlength : w'.cache.flights.executions.length = w.cache.flights.executions.length)
    (hcalled : w'.cache.env.called = w.cache.env.called)
    (hshared : ∀ e, uncalled w'.cache.flights e ≤ uncalled w.cache.flights e)
    (hloads : ∀ work, .alone work ∈ w'.loads → .alone work ∈ w.loads) : Tally w' visits := by
  refine ⟨?_, ?_, fun e => Nat.le_zero.mp (h.shared e ▸ hshared e),
    fun work hmem => h.alone work (hloads work hmem)⟩
  · rw [hlength]
    exact h.visited
  · rw [hlength, hcalled]
    exact h.called

/-- An execution is visited. If it has just been started, it has yet to make its call. -/
theorem pays {e : Nat} {first : Bool} {left : Progress (Load P A V E) (Result V E)}
    (hpays : Load.Pays e c c')
    (hvisited : ∀ e', (∃ visit ∈ visits ++ [⟨some e, first⟩], visit.execution = some e') ↔
      e' < c.flights.executions.length)
    (hcalled : c.env.called.length + uncalled c.flights e =
      c.flights.executions.length + visits.countP Visit.isDetour)
    (hshared : ∀ e', e' ≠ e → uncalled c.flights e' = 0)
    (halone : ∀ work, .alone work ∈ loads → work.isFresh = false)
    (hleft : ∀ load, left = .waiting load → load = .attached e) :
    Tally ⟨c', held left.rest? loads⟩ (visits ++ [⟨some e, first⟩]) := by
  refine ⟨?_, ?_, fun e' => ?_, fun work hmem => ?_⟩
  · show ∀ e', _ ↔ e' < c'.flights.executions.length
    rw [hpays.length]
    exact hvisited
  · show c'.env.called.length = c'.flights.executions.length + _
    rw [hpays.length, hpays.called, hcalled, List.countP_append]
    rfl
  · by_cases he : e' = e
    · subst he
      exact hpays.self
    · exact (uncalled_eq_of_stage (hpays.other e' he)).trans (hshared e' he)
  · cases left with
    | waiting load =>
      rw [hleft load rfl] at hmem
      rcases Multiset.mem_cons.mp hmem with hattached | hmem
      · cases hattached
      · exact halone work hmem
    | finished result => exact halone work hmem

/-- A visit to an execution that is known visits nothing new. -/
theorem visited_append {e : Nat} {first : Bool} (h : Tally w visits)
    (hknown : e < w.cache.flights.executions.length) (e' : Nat) :
    (∃ visit ∈ visits ++ [⟨some e, first⟩], visit.execution = some e') ↔
      e' < w.cache.flights.executions.length := by
  rw [← h.visited e']
  constructor
  · rintro ⟨visit, hmem, hvisit⟩
    rcases List.mem_append.mp hmem with hmem | hmem
    · exact ⟨visit, hmem, hvisit⟩
    · obtain rfl := List.mem_singleton.mp hmem
      obtain rfl := Option.some.inj hvisit
      exact (h.visited e).mpr hknown
  · rintro ⟨visit, hmem, hvisit⟩
    exact ⟨visit, List.mem_append_left _ hmem, hvisit⟩

variable [DecidableEq P] [DecidableEq A]

/-- The tally stays right with a visit to a shared execution. -/
theorem pollsAttached {e : Nat} (h : Tally ⟨c, .attached e ::ₘ loads⟩ visits)
    (hattended : Attended ⟨c, .attached e ::ₘ loads⟩) :
    Tally ⟨(Load.pollAttached e c).2, held (Load.pollAttached e c).1.rest? loads⟩
      (visits ++ [⟨some e, false⟩]) := by
  have hpays := Load.pays_pollAttached hattended
  have hcalled := h.called
  refine pays hpays (h.visited_append hpays.known) ?_ (fun e' _ => h.shared e')
    (fun work hmem => h.alone work (Multiset.mem_cons_of_mem hmem)) fun load hleft => ?_
  · have huncalled : uncalled c.flights e = 0 := h.shared e
    rw [huncalled]
    exact hcalled
  · exact Load.waiting_pollAttached hleft

/-- A load that comes to an execution visits it, and the execution is known or just started. -/
theorem enters (key : Key P A) (h : Tally ⟨c, loads⟩ visits) (hattended : Attended ⟨c, loads⟩) :
    let entered := c.flights.enter key (.fresh key)
    (∀ e', (∃ visit ∈ visits ++ [⟨some entered.1, true⟩], visit.execution = some e') ↔
      e' < entered.2.1.executions.length) ∧
    c.env.called.length + uncalled entered.2.1 entered.1 =
      entered.2.1.executions.length + visits.countP Visit.isDetour ∧
    ∀ e', e' ≠ entered.1 → uncalled entered.2.1 e' = 0 := by
  have hcalled : c.env.called.length = c.flights.executions.length + _ := h.called
  have hshared : ∀ e, uncalled c.flights e = 0 := h.shared
  rcases Flights.enter_cases hattended.tracked hattended.registered key (.fresh key) with
    ⟨e, x, hx, -, -, henter⟩ | ⟨-, hstart⟩
  · -- The load joins an execution, which has made its call.
    have hsame : ∀ e', uncalled (c.flights.set e { x with callers := x.callers + 1 }) e' = 0 :=
      fun e' => (uncalled_eq_of_stage (Flights.stage?_set_same
        (y := { x with callers := x.callers + 1 }) hx rfl e')).trans (hshared e')
    rw [henter]
    refine ⟨fun e' => ?_, ?_, fun e' _ => hsame e'⟩
    · rw [Flights.length_set]
      exact h.visited_append (List.getElem?_eq_some_iff.mp hx).1 e'
    · rw [Flights.length_set, hsame]
      exact hcalled
  · -- The load starts one, which nobody has visited.
    have hnew :
        uncalled (c.flights.start key (.fresh key)).2.1 c.flights.executions.length = 1 := by
      rw [uncalled, Flights.stage?_start_self]
      rfl
    have hlength : (c.flights.start key (.fresh key)).2.1.executions.length =
        c.flights.executions.length + 1 := List.length_append
    have hvisited : ∀ e', (∃ visit ∈ visits, visit.execution = some e') ↔
        e' < c.flights.executions.length := h.visited
    rw [hstart]
    show (∀ e', (∃ visit ∈ visits ++ [⟨some c.flights.executions.length, true⟩], _) ↔ _) ∧
      _ + uncalled _ c.flights.executions.length = _ ∧
      ∀ e', e' ≠ c.flights.executions.length → _
    refine ⟨fun e' => ?_, ?_, fun e' he => ?_⟩
    · rw [hlength, Nat.lt_succ_iff_lt_or_eq, ← hvisited e']
      constructor
      · rintro ⟨visit, hmem, hvisit⟩
        rcases List.mem_append.mp hmem with hmem | hmem
        · exact .inl ⟨visit, hmem, hvisit⟩
        · obtain rfl := List.mem_singleton.mp hmem
          exact .inr (Option.some.inj hvisit).symm
      · rintro (⟨visit, hmem, hvisit⟩ | rfl)
        · exact ⟨visit, List.mem_append_left _ hmem, hvisit⟩
        · exact ⟨_, List.mem_append_right _ (List.mem_singleton_self _), rfl⟩
    · rw [hlength, hnew, hcalled]
      omega
    · exact (uncalled_eq_of_stage (Flights.stage?_start_of_ne c.flights key _ he)).trans
        (hshared e')

/-- The tally stays right with the first visit of a shared load. -/
theorem pollsFirst {key : Key P A} (h : Tally ⟨c, .unstarted key true ::ₘ loads⟩ visits)
    (hattended : Attended ⟨c, .unstarted key true ::ₘ loads⟩) :
    Tally ⟨((Load.unstarted key true).poll c).2,
        held ((Load.unstarted key true).poll c).1.rest? loads⟩
      (visits ++ [(Load.unstarted key true).visit c]) := by
  have halone : ∀ work, .alone work ∈ loads → work.isFresh = false :=
    fun work hmem => h.alone work (Multiset.mem_cons_of_mem hmem)
  have hothers : Tally ⟨c, loads⟩ visits := ⟨h.visited, h.called, h.shared, halone⟩
  have hattended' : Attended ⟨c, loads⟩ := hattended.of_eq rfl (waitingAmong_cons loads rfl).symm
  obtain ⟨hvisited, hcalled, hshared⟩ := hothers.enters key hattended'
  have hpays := Load.pays_pollAttached (hattended.enters
    (c.env.noteRegistry [(c.flights.enter key (.fresh key)).2.2]))
  exact pays hpays hvisited hcalled hshared halone fun load hleft =>
    Load.waiting_pollAttached hleft

/-- Work that is not shared is visited. If it has not been visited before, it makes its call. -/
theorem pollsAlone (work : Work P A V E) (h : Tally ⟨c, loads⟩ visits) :
    Tally ⟨(Load.pollAlone work c).2, held (Load.pollAlone work c).1.rest? loads⟩
      (visits ++ [⟨none, work.isFresh⟩]) := by
  have hflights := Load.flights_pollAlone work c
  have hcalled : (Load.pollAlone work c).2.env.called =
      (work.pollAs none c.env).2.called := by
    unfold Load.pollAlone
    rcases work.pollAs none c.env with ⟨rest | outcome, env'⟩ <;> rfl
  refine ⟨fun e => ?_, ?_, ?_, fun work' hmem => ?_⟩
  · show _ ↔ e < (Load.pollAlone work c).2.flights.executions.length
    rw [hflights, ← h.visited e]
    constructor
    · rintro ⟨visit, hmem, hvisit⟩
      rcases List.mem_append.mp hmem with hmem | hmem
      · exact ⟨visit, hmem, hvisit⟩
      · obtain rfl := List.mem_singleton.mp hmem
        cases hvisit
    · rintro ⟨visit, hmem, hvisit⟩
      exact ⟨visit, List.mem_append_left _ hmem, hvisit⟩
  · have hbefore : c.env.called.length = c.flights.executions.length + _ := h.called
    have hdetour : [(⟨none, work.isFresh⟩ : Visit)].countP Visit.isDetour = work.isFresh.toNat := by
      cases work <;> rfl
    show (Load.pollAlone work c).2.env.called.length =
      (Load.pollAlone work c).2.flights.executions.length + _
    rw [hflights, hcalled, work.called_pollAs none c.env, List.countP_append, hdetour, hbefore,
      Nat.add_assoc]
  · show ∀ e, uncalled (Load.pollAlone work c).2.flights e = 0
    rw [hflights]
    exact h.shared
  · -- What is left of the work has made its call.
    unfold Load.pollAlone at hmem
    rcases hpoll : work.pollAs none c.env with ⟨rest | outcome, env'⟩ <;> rw [hpoll] at hmem
    · rcases Multiset.mem_cons.mp hmem with hsame | hmem
      · obtain rfl := Load.alone.inj hsame
        exact Work.isFresh_of_pollAs (congrArg Prod.fst hpoll)
      · exact h.alone work' hmem
    · exact h.alone work' hmem

/-- The tally stays right when a load is dropped. -/
theorem drops {load : Load P A V E} (h : Tally ⟨c, load ::ₘ loads⟩ visits) :
    Tally ⟨load.drop c, loads⟩ visits := by
  have hloads : ∀ work, .alone work ∈ loads → .alone work ∈ load ::ₘ loads :=
    fun work hmem => Multiset.mem_cons_of_mem hmem
  cases load with
  | unstarted key share => exact h.rests rfl rfl (fun _ => le_rfl) hloads
  | alone work => exact h.rests rfl rfl (fun _ => le_rfl) hloads
  | attached e =>
    have hflights := Load.flights_drop_attached e c
    have hcalled : ((Load.attached e).drop c).env.called = c.env.called := by
      unfold Load.drop
      simp only
      rcases c.flights.leave e with ⟨_ | left, f', ns⟩ <;> rfl
    refine h.rests ?_ hcalled (fun e' => ?_) hloads
    · show ((Load.attached e).drop c).flights.executions.length = _
      rw [hflights]
      exact Flights.length_leave _ e
    · show uncalled ((Load.attached e).drop c).flights e' ≤ _
      rw [hflights]
      rcases c.flights.stage?_leave e e' with hsame | ⟨-, habandoned⟩
      · exact le_of_eq (uncalled_eq_of_stage hsame)
      · rw [uncalled, habandoned]
        exact Nat.zero_le _

/-- The tally stays right with a load step and its visits. -/
theorem loadStep {starts : Key P A → Bool → Prop}
    (hloadStep : LoadStep SessionActs starts w visits' w')
    (hattended : Attended w) (h : Tally w visits) : Tally w' (visits ++ visits') := by
  cases hloadStep with
  | rests hrests =>
    rw [List.append_nil]
    cases hrests with
    | acts hacts =>
      have hflights := hacts.flights_eq
      refine h.rests ?_ hacts.called_eq (fun e => ?_) fun _ => id
      · exact congrArg (·.executions.length) hflights
      · exact le_of_eq (congrArg (uncalled · e) hflights)
    | closes => exact h.rests rfl rfl (fun _ => le_rfl) fun _ => id
  | begins =>
    rw [List.append_nil]
    refine h.rests rfl rfl (fun _ => le_rfl) fun work hmem => ?_
    rcases Multiset.mem_cons.mp hmem with hunstarted | hmem
    · cases hunstarted
    · exact hmem
  | drops load =>
    rw [List.append_nil]
    exact h.drops
  | @polls c loads load =>
    have hothers : Tally ⟨c, loads⟩ visits := ⟨h.visited, h.called, h.shared,
      fun work hmem => h.alone work (Multiset.mem_cons_of_mem hmem)⟩
    cases load with
    | attached e => exact h.pollsAttached hattended
    | alone work =>
      have hbegun : work.isFresh = false := h.alone work (Multiset.mem_cons_self ..)
      have hpolls := hothers.pollsAlone work
      rw [hbegun] at hpolls
      exact hpolls
    | unstarted key share =>
      cases share with
      | true => exact h.pollsFirst hattended
      | false => exact hothers.pollsAlone (.fresh key)

/-- The tally stays right along a path. -/
theorem loadPath {starts : Key P A → Bool → Prop} (hpath : LoadPath SessionActs starts w visits' w')
    (hattended : Attended w) (h : Tally w visits) : Tally w' (visits ++ visits') := by
  suffices hall : Attended w' ∧ Tally w' (visits ++ visits') from hall.2
  induction hpath with
  | refl =>
    rw [List.append_nil]
    exact ⟨hattended, h⟩
  | tail _ hlast ih =>
    obtain ⟨hattended', h'⟩ := ih
    rw [← List.append_assoc]
    exact ⟨hattended'.moves (hlast.moves SessionActs.moves), h'.loadStep hlast hattended'⟩

omit [DecidableEq P] [DecidableEq A] in
/-- How many executions were visited. -/
theorem executions_eq (h : Tally w visits) :
    w.cache.flights.executions.length = (visits.filterMap (·.execution)).dedup.length := by
  have hperm : (List.range w.cache.flights.executions.length).Perm
      (visits.filterMap (·.execution)).dedup := by
    refine (List.perm_ext_iff_of_nodup List.nodup_range (List.nodup_dedup _)).mpr fun e => ?_
    rw [List.mem_range, ← h.visited e, List.mem_dedup, List.mem_filterMap]
  rw [← hperm.length_eq, List.length_range]

end Tally

/-! ## Runs -/

namespace Session

variable [DecidableEq P] [DecidableEq A] [DecidableEq V]

/-- The visits that a run pays to loads. Each step follows a path from the session as it finds it to
the session that it leaves, unless it writes past the cache. -/
inductive Visits : Session P A V E → List (Step P A V) → List Visit → Prop where
  | nil (s : Session P A V E) : Visits s [] []
  | put {s : Session P A V E} {key : Key P A} {entry : Entry V} {rest : List (Step P A V)}
      {visits : List Visit} (hrest : Visits (s.step (.put key entry)).2 rest visits) :
      Visits s (.put key entry :: rest) visits
  | step {s : Session P A V E} {st : Step P A V} {rest : List (Step P A V)}
      {visits later : List Visit}
      (hpath : LoadPath SessionActs (fun _ _ => True) s.fresh.world visits (s.step st).2.world)
      (hrest : Visits (s.step st).2 rest later) : Visits s (st :: rest) (visits ++ later)

/-- Every run pays some visits. -/
theorem exists_visits (steps : List (Step P A V)) {s : Session P A V E} (h : s.Sound) :
    ∃ visits, s.Visits steps visits := by
  induction steps generalizing s with
  | nil => exact ⟨[], .nil s⟩
  | cons st rest ih =>
    cases hst : st.isPut with
    | false =>
      obtain ⟨⟨visits, hpath⟩, hfit⟩ := travels_step h.fit hst st.allowed_all
      obtain ⟨later, hlater⟩ := ih fun _ _ hget => (hfit hget).sound
      exact ⟨visits ++ later, .step hpath hlater⟩
    | true =>
      obtain ⟨key, entry, rfl⟩ := Step.eq_put_of_isPut hst
      obtain ⟨later, hlater⟩ := ih (sound_put h key entry)
      exact ⟨later, .put hlater⟩

/-- The visits of a run keep the tally right. -/
theorem Visits.tally {s : Session P A V E} {steps : List (Step P A V)} {visits later : List Visit}
    (hvisits : s.Visits steps later) (hattended : Attended s.world) (h : Tally s.world visits) :
    Tally (s.run steps).2.world (visits ++ later) := by
  induction hvisits generalizing visits with
  | nil s =>
    rw [List.append_nil]
    exact h
  | @put s key entry rest later hrest ih =>
    have hflights : (s.step (.put key entry)).2.cache.flights = s.cache.flights := by
      rw [step_snd]
      split <;> rfl
    have hcalled : (s.step (.put key entry)).2.cache.env.called = s.cache.env.called := by
      rw [step_snd]
      split <;> rfl
    have hloads : (s.step (.put key entry)).2.tasks = s.tasks := by
      rw [step_snd]
      split <;> rfl
    refine ih ?_ ?_
    · exact hattended.of_eq hflights (congrArg (fun t => waitingAmong (loadsOf t)) hloads)
    · refine h.rests (congrArg (·.executions.length) hflights) hcalled
        (fun e => le_of_eq (congrArg (uncalled · e) hflights)) fun work hmem => ?_
      exact (congrArg (.alone work ∈ loadsOf ·) hloads).mp hmem
  | @step s st rest visits₁ later hpath hrest ih =>
    have hfresh : Attended s.fresh.world := ⟨hattended.tracked, hattended.registered⟩
    have htally : Tally s.fresh.world visits := ⟨h.visited, h.called, h.shared, h.alone⟩
    have hmoves : Moves s.fresh.world (s.step st).2.world :=
      LoadReaches.moves SessionActs.moves ⟨_, hpath⟩
    rw [← List.append_assoc]
    exact ih (hfresh.moves hmoves) (htally.loadPath hpath hfresh)

end Session

end ReadThrough
