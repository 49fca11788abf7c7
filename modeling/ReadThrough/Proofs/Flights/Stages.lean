import ReadThrough.Proofs.Flights.Operations
/-!
# Proofs: how far each execution is

The stage of an execution changes in three ways only: `enter` starts a new execution, `poll` takes
the polled one a step further, and `leave` abandons one. Everything else about the stages stays as
it is, and a settled execution keeps its outcome for good.
-/

namespace ReadThrough

variable {K W T σ : Type}

/-- The result of a computation that is finished. -/
def Progress.result? : Progress W T → Option T
  | .waiting _ => none
  | .finished result => some result

/-- What is left of a computation that is not finished. -/
def Progress.rest? : Progress W T → Option W
  | .waiting rest => some rest
  | .finished _ => none

/-- The stage of an execution after a poll of its work. -/
def Stage.ofProgress : Progress W (Outcome T) → Stage W T
  | .waiting rest => .running rest
  | .finished outcome => .settled outcome

/-- A poll of the work does not abandon it. -/
theorem Stage.ofProgress_ne_abandoned (progress : Progress W (Outcome T)) :
    ofProgress progress ≠ .abandoned := by cases progress <;> exact nofun

/-- The execution that a caller came to, as a notice says. -/
def Notice.entered? : Notice → Option Nat
  | .started execution _ | .attached execution _ => some execution
  | .removed _ _ => none

namespace Flights

/-- How far an execution is. -/
def stage? (f : Flights K W T) (e : Nat) : Option (Stage W T) := (f.executions[e]?).map (·.stage)

/-- The stage of an execution that is there is its own. -/
theorem stage?_of_getElem? {f : Flights K W T} {e : Nat} {x : Execution K W T}
    (hx : f.executions[e]? = some x) : f.stage? e = some x.stage := by rw [stage?, hx]; rfl

/-- Only executions that were started have a stage. -/
theorem lt_of_stage? {f : Flights K W T} {e : Nat} {stage : Stage W T}
    (h : f.stage? e = some stage) : e < f.executions.length := by
  obtain ⟨x, hx, -⟩ := Option.map_eq_some_iff.mp h
  exact (List.getElem?_eq_some_iff.mp hx).1

/-- A stage is that of an execution. -/
theorem exists_of_stage? {f : Flights K W T} {e : Nat} {stage : Stage W T}
    (h : f.stage? e = some stage) : ∃ x, f.executions[e]? = some x ∧ x.stage = stage :=
  Option.map_eq_some_iff.mp h

/-- An execution that is replaced has the stage of its replacement. -/
theorem stage?_set_self {f : Flights K W T} {e : Nat} {x x' : Execution K W T}
    (hx : f.executions[e]? = some x) : (f.set e x').stage? e = some x'.stage := by
  rw [stage?, executions_set_self hx, Option.map_some]

/-- To replace one execution leaves the stages of the others as they are. -/
theorem stage?_set_of_ne (f : Flights K W T) {e e' : Nat} (x : Execution K W T) (h : e' ≠ e) :
    (f.set e x).stage? e' = f.stage? e' := by
  rw [stage?, executions_set_of_ne x h, stage?]

/-- A replacement that keeps the stage of its execution keeps all stages. -/
theorem stage?_set_same {f : Flights K W T} {e : Nat} {x y : Execution K W T}
    (hx : f.executions[e]? = some x) (h : y.stage = x.stage) (e' : Nat) :
    (f.set e y).stage? e' = f.stage? e' := by
  by_cases he : e' = e
  · subst he
    rw [stage?_set_self hx, stage?_of_getElem? hx, h]
  · exact stage?_set_of_ne f y he

theorem length_set (f : Flights K W T) (e : Nat) (x : Execution K W T) :
    (f.set e x).executions.length = f.executions.length := by simp [set]

/-- An execution that is over stays as it is. -/
theorem Extends.over {f f' : Flights K W T} (h : f.Extends f') {e : Nat} {stage : Stage W T}
    (hs : f.stage? e = some stage) (hover : stage.isRunning = false) :
    f'.stage? e = some stage := by
  obtain ⟨x, hx, rfl⟩ := exists_of_stage? hs
  obtain ⟨x', hx', -, hkeep⟩ := h hx
  rw [stage?_of_getElem? hx', hkeep hover]

/-- A settled execution stays settled. -/
theorem Extends.settled {f f' : Flights K W T} (h : f.Extends f') {e : Nat} {outcome : Outcome T}
    (hs : f.stage? e = some (.settled outcome)) : f'.stage? e = some (.settled outcome) :=
  h.over hs rfl

/-- Whether an execution is over can be read off its stage. -/
theorem isOver_eq_of_stage? {f : Flights K W T} {e : Nat} {stage : Stage W T}
    (h : f.stage? e = some stage) : f.isOver e = !stage.isRunning := by
  obtain ⟨x, hx, rfl⟩ := exists_of_stage? h
  rw [isOver, hx, Option.any_some]

/-- An execution that is over stays over. -/
theorem Extends.isOver {f f' : Flights K W T} (h : f.Extends f') {e : Nat}
    (hover : f.isOver e = true) : f'.isOver e = true := by
  unfold Flights.isOver at hover
  cases hx : f.executions[e]? with
  | none => rw [hx] at hover; cases hover
  | some x =>
    rw [hx, Option.any_some, Bool.not_eq_true'] at hover
    rw [isOver_eq_of_stage? (h.over (stage?_of_getElem? hx) hover), hover]
    rfl

variable [DecidableEq K]

theorem length_release (f : Flights K W T) (e : Nat) :
    (f.release e).1.executions.length = f.executions.length := by
  unfold release
  split
  · rfl
  · simp only
    repeat' split
    all_goals first | rfl | exact length_set f e _

/-- A release changes no stage. -/
theorem stage?_release (f : Flights K W T) (e e' : Nat) :
    (f.release e).1.stage? e' = f.stage? e' := by
  unfold release
  split
  · rfl
  · rename_i x hx
    have hset := stage?_set_same (y := { x with released := true }) hx rfl e'
    simp only
    repeat' split
    all_goals first | rfl | exact hset

/-- What a departure does to the stages: at most a running execution is abandoned. -/
theorem stage?_leave (f : Flights K W T) (e e' : Nat) :
    (f.leave e).2.1.stage? e' = f.stage? e' ∨
      (∃ work, f.stage? e' = some (.running work)) ∧
        (f.leave e).2.1.stage? e' = some .abandoned := by
  unfold leave detach
  cases hx : f.executions[e]? with
  | none => exact .inl rfl
  | some x =>
    cases hs : x.stage with
    | running work =>
      simp only [hs]
      by_cases hn : x.callers - 1 = 0
      · simp only [hn, if_true, stage?_release]
        by_cases he : e' = e
        · subst he
          exact .inr ⟨⟨work, hs ▸ stage?_of_getElem? hx⟩, stage?_set_self hx⟩
        · exact .inl (stage?_set_of_ne f _ he)
      · simp only [hn, if_false]
        exact .inl (stage?_set_same hx hs.symm e')
    | settled outcome => simp only [hs]; exact .inl (stage?_set_same hx hs.symm e')
    | abandoned => simp only [hs]; exact .inl (stage?_set_same hx hs.symm e')

/-- A departure changes no stage but that of the execution which is left. -/
theorem Leaves.stage?_of_ne {f f' : Flights K W T} {e e' : Nat} {answer : Option W}
    {ns : List Notice} (h : f.Leaves e (answer, f', ns)) (he : e' ≠ e) :
    f'.stage? e' = f.stage? e' := by
  cases h with
  | parts hx hs => exact stage?_set_of_ne f _ he
  | abandons hx hs hn => rw [stage?_release, stage?_set_of_ne f _ he]

/-- An execution that others still wait for keeps its stage when a caller goes away. -/
theorem Leaves.parts_stage? {f f' : Flights K W T} {e : Nat} {ns : List Notice}
    (h : f.Leaves e (none, f', ns)) : f'.stage? e = f.stage? e := by
  cases h with
  | @parts x hx hs => exact stage?_set_same (y := { x with callers := x.callers - 1 }) hx rfl e

/-- The last caller to go away abandons an execution that is running. -/
theorem Leaves.abandons_stage? {f f' : Flights K W T} {e : Nat} {work : W} {ns : List Notice}
    (h : f.Leaves e (some work, f', ns)) :
    f.stage? e = some (.running work) ∧ f'.stage? e = some .abandoned := by
  cases h with
  | abandons hx hs hn =>
    exact ⟨hs ▸ stage?_of_getElem? hx, by rw [stage?_release, stage?_set_self hx]⟩

theorem length_leave (f : Flights K W T) (e : Nat) :
    (f.leave e).2.1.executions.length = f.executions.length := by
  unfold leave detach
  cases hx : f.executions[e]? with
  | none => rfl
  | some x =>
    cases hs : x.stage with
    | running work =>
      by_cases hn : x.callers - 1 = 0
      · simp only [hs, hn, if_true, length_release, length_set]
      · simp only [hs, hn, if_false, length_set]
    | settled outcome => simp only [hs, length_set]
    | abandoned => simp only [hs, length_set]

/-- A start leaves the stages of the old executions alone. -/
theorem stage?_start_of_ne (f : Flights K W T) (key : K) (work : W) {e : Nat}
    (h : e ≠ f.executions.length) : (f.start key work).2.1.stage? e = f.stage? e := by
  unfold stage?
  rw [executions_start, List.getElem?_append]
  split
  · rfl
  · rw [List.getElem?_eq_none (by simp; omega), List.getElem?_eq_none (by omega)]

/-- An execution that has just started is running. -/
theorem stage?_start_self (f : Flights K W T) (key : K) (work : W) :
    (f.start key work).2.1.stage? f.executions.length = some (.running work) := by
  rw [stage?, executions_start_self, Option.map_some]

/-- What a poll does to the stage of its execution, by what it answers. -/
inductive Advances (step : W → σ → Progress W (Outcome T) × σ) (s : σ) :
    Stage W T → Option (Outcome T) → Stage W T → σ → Prop where
  | works {work : W} {progress : Progress W (Outcome T)} {s' : σ}
      (hw : step work s = (progress, s')) :
      Advances step s (.running work) progress.result? (.ofProgress progress) s'
  /-- The work has ended before. -/
  | receives {outcome : Outcome T} :
      Advances step s (.settled outcome) (some outcome) (.settled outcome) s

section Poll

variable {step : W → σ → Progress W (Outcome T) × σ} {f f' : Flights K W T} {e : Nat} {s s' : σ}
  {answer : Option (Outcome T)} {ns : List Notice}

/-- A poll starts no execution. -/
theorem Polls.length (h : f.Polls step e s (answer, f', s', ns)) :
    f'.executions.length = f.executions.length := by
  cases h with
  | waits hx hs hw => exact length_set f e _
  | settles hx hs hw => rw [length_release, length_set]
  | receives hx hs => exact length_set f e _

/-- A poll changes no stage but that of its execution. -/
theorem Polls.stage?_of_ne (h : f.Polls step e s (answer, f', s', ns)) {e' : Nat} (he : e' ≠ e) :
    f'.stage? e' = f.stage? e' := by
  cases h with
  | waits hx hs hw => exact stage?_set_of_ne f _ he
  | settles hx hs hw => rw [stage?_release, stage?_set_of_ne f _ he]
  | receives hx hs => exact stage?_set_of_ne f _ he

/-- A poll takes the stage of its execution one step on. -/
theorem Polls.advances (h : f.Polls step e s (answer, f', s', ns)) :
    ∃ stage stage', f.stage? e = some stage ∧ f'.stage? e = some stage' ∧
      Advances step s stage answer stage' s' := by
  cases h with
  | waits hx hs hw =>
    exact ⟨_, _, hs ▸ stage?_of_getElem? hx, stage?_set_self hx, .works hw⟩
  | settles hx hs hw =>
    refine ⟨_, _, hs ▸ stage?_of_getElem? hx, ?_, .works hw⟩
    rw [stage?_release, stage?_set_self hx]
    rfl
  | receives hx hs =>
    exact ⟨_, _, hs ▸ stage?_of_getElem? hx, (stage?_set_self hx).trans (congrArg some hs),
      .receives⟩

end Poll

/-! ## Whatever the state -/

/-- A call for a key says which execution it came to. -/
theorem entered?_enter (f : Flights K W T) (key : K) (work : W) :
    (f.enter key work).2.2.entered? = some (f.enter key work).1 := by
  unfold enter start
  split <;> rfl

/-- A release removes no execution but its own. -/
theorem removed?_of_mem_release {f : Flights K W T} {e : Nat} {n : Notice}
    (h : n ∈ (f.release e).2) : n.removed? = some e := by
  unfold release at h
  split at h
  · cases h
  · simp only at h
    split at h
    · cases h
    · split at h
      · split at h
        · rw [List.mem_singleton.mp h]; rfl
        · cases h
      · cases h

/-- A poll takes a step of the work or none, and its notices are about the polled execution. -/
theorem poll_works (step : W → σ → Progress W (Outcome T) × σ) (f : Flights K W T) (e : Nat)
    (s : σ) :
    ((f.poll step e s).2.2.1 = s ∨
      ∃ work, f.stage? e = some (.running work) ∧ (f.poll step e s).2.2.1 = (step work s).2) ∧
    ∀ n ∈ (f.poll step e s).2.2.2, n.removed? = some e := by
  rcases poll_cases step f e s with ⟨-, hidle⟩ | hpolls
  · rw [hidle]
    exact ⟨.inl rfl, nofun⟩
  · generalize f.poll step e s = polled at hpolls
    cases hpolls with
    | waits hx hs hw =>
      exact ⟨.inr ⟨_, hs ▸ stage?_of_getElem? hx, (congrArg Prod.snd hw).symm⟩, nofun⟩
    | settles hx hs hw =>
      exact ⟨.inr ⟨_, hs ▸ stage?_of_getElem? hx, (congrArg Prod.snd hw).symm⟩,
        fun n hn => removed?_of_mem_release hn⟩
    | receives hx hs => exact ⟨.inl rfl, nofun⟩

/-! ## What has settled -/

/-- Exactly the same executions have settled, with the same outcomes. -/
def SettledAlike (f f' : Flights K W T) : Prop :=
  ∀ e outcome, f'.stage? e = some (.settled outcome) ↔ f.stage? e = some (.settled outcome)

omit [DecidableEq K] in
theorem SettledAlike.refl (f : Flights K W T) : SettledAlike f f := fun _ _ => Iff.rfl

omit [DecidableEq K] in
/-- One execution changes, and does not settle thereby. -/
theorem settledAlike_of_ne {f f' : Flights K W T} {e : Nat}
    (hself : ∀ outcome, f'.stage? e = some (.settled outcome) ↔
      f.stage? e = some (.settled outcome))
    (hother : ∀ e', e' ≠ e → f'.stage? e' = f.stage? e') : SettledAlike f f' := by
  intro e' outcome
  by_cases he : e' = e
  · exact he ▸ hself outcome
  · rw [hother e' he]

/-- A call for a key leaves the stages of the executions there are alone. -/
theorem stage?_enter_of_lt (f : Flights K W T) (key : K) (work : W) {e : Nat}
    (h : e < f.executions.length) : (f.enter key work).2.1.stage? e = f.stage? e := by
  unfold enter
  cases hjoin : f.joinable? key with
  | some found =>
    exact stage?_set_same (y := { found.2 with callers := found.2.callers + 1 })
      (executions_of_joinable? hjoin) rfl e
  | none => exact stage?_start_of_ne f key work h.ne

/-- A call for a key changes no stage but that of the execution it starts, which was unknown
before. -/
theorem stage?_enter (f : Flights K W T) (key : K) (work : W) (e : Nat) :
    (f.enter key work).2.1.stage? e = f.stage? e ∨
      f.stage? e = none ∧ (f.enter key work).2.1.stage? e = some (.running work) := by
  unfold enter
  cases hjoin : f.joinable? key with
  | some found =>
    exact .inl (stage?_set_same (y := { found.2 with callers := found.2.callers + 1 })
      (executions_of_joinable? hjoin) rfl e)
  | none =>
    by_cases he : e = f.executions.length
    · subst he
      have hnone : f.stage? f.executions.length = none := by
        rw [stage?, List.getElem?_eq_none le_rfl, Option.map_none]
      exact .inr ⟨hnone, stage?_start_self f key work⟩
    · exact .inl (stage?_start_of_ne f key work he)

/-- A call settles nothing. -/
theorem settledAlike_enter (f : Flights K W T) (key : K) (work : W) :
    SettledAlike f (f.enter key work).2.1 := by
  intro e outcome
  rcases stage?_enter f key work e with hsame | ⟨hnone, hrunning⟩
  · rw [hsame]
  · rw [hnone, hrunning]
    constructor <;> intro h <;> cases h

/-- A departure settles nothing. -/
theorem settledAlike_leave (f : Flights K W T) (e : Nat) : SettledAlike f (f.leave e).2.1 := by
  intro e' outcome
  rcases stage?_leave f e e' with hsame | ⟨⟨work, hrunning⟩, habandoned⟩
  · rw [hsame]
  · rw [hrunning, habandoned]
    constructor <;> intro h <;> cases h

end Flights

end ReadThrough
