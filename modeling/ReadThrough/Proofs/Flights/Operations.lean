import ReadThrough.Proofs.Flights.Registry
/-!
# Proofs: the operations of the registry

What each operation does to executions that are tracked and to a registry that holds exactly the
running ones: `enter`, `poll` and `leave` keep both, and their notices say what stopped running.
-/

namespace ReadThrough

variable {K W T σ : Type}

namespace Flights

/-- One caller of an execution more. -/
def more (waiting : Nat → Nat) (e : Nat) : Nat → Nat := Function.update waiting e (waiting e + 1)

/-- One caller of an execution less. -/
def less (waiting : Nat → Nat) (e : Nat) : Nat → Nat := Function.update waiting e (waiting e - 1)

theorem le_more (waiting : Nat → Nat) (e e' : Nat) : waiting e' ≤ more waiting e e' := by
  unfold more
  by_cases he : e' = e
  · rw [he, Function.update_self]
    exact Nat.le_succ _
  · rw [Function.update_of_ne he]

variable [DecidableEq K]

/-- The registry holds exactly the running executions, each under its key and with its number. -/
def Registered (f : Flights K W T) : Prop :=
  ∀ k (t : Ticket), f.registry.get? k = some t ↔
    t.number = flightNumber t.execution ∧
      ∃ x, f.executions[t.execution]? = some x ∧ x.key = k ∧ x.stage.isRunning = true

/-- No execution for the key is running. -/
def Vacant (f : Flights K W T) (key : K) : Prop :=
  ∀ ⦃e : Nat⦄ ⦃x : Execution K W T⦄, f.executions[e]? = some x → x.stage.isRunning = true →
    x.key ≠ key

/-- A running execution is found under its key. -/
theorem Registered.get?_key {f : Flights K W T} (h : f.Registered) {e : Nat}
    {x : Execution K W T} (hx : f.executions[e]? = some x) (hr : x.stage.isRunning = true) :
    f.registry.get? x.key = some ⟨flightNumber e, e⟩ :=
  (h x.key ⟨flightNumber e, e⟩).mpr ⟨rfl, x, hx, rfl, hr⟩

/-- Two running executions have different keys. -/
theorem Registered.key_unique {f : Flights K W T} (h : f.Registered) {e e' : Nat}
    {x x' : Execution K W T} (hx : f.executions[e]? = some x) (hr : x.stage.isRunning = true)
    (hx' : f.executions[e']? = some x') (hr' : x'.stage.isRunning = true)
    (hkey : x.key = x'.key) : e = e' := by
  have h1 := h.get?_key hx hr
  have h2 := h.get?_key hx' hr'
  rw [hkey, h2] at h1
  exact (congrArg Ticket.execution (Option.some.inj h1)).symm

/-- Changing nothing but callers and work of an execution leaves the registry right. -/
theorem Registered.set {f : Flights K W T} (h : f.Registered) {e : Nat}
    {x x' : Execution K W T} (hx : f.executions[e]? = some x) (hkey : x'.key = x.key)
    (hrun : x'.stage.isRunning = x.stage.isRunning) : (f.set e x').Registered := by
  intro k t
  refine (h k t).trans (and_congr_right fun _ => ?_)
  by_cases he : t.execution = e
  · rw [he, executions_set_self hx, hx]
    simp only [Option.some.injEq, exists_eq_left', hkey, hrun]
  · rw [executions_set_of_ne x' he]

/-! ## Entering -/

/-- What can be joined is an execution that is there. -/
theorem executions_of_joinable? {f : Flights K W T} {key : K} {e : Nat} {x : Execution K W T}
    (h : f.joinable? key = some (e, x)) : f.executions[e]? = some x := by
  unfold joinable? at h
  split at h
  · cases h
  · split at h
    · cases h
    · rename_i y hy
      simp only [Option.ite_none_right_eq_some, Option.some.injEq, Prod.mk.injEq] at h
      obtain ⟨-, rfl, rfl⟩ := h
      exact hy

/-- Exactly the running execution of a key can be joined. -/
theorem joinable?_eq_some_iff {f : Flights K W T} {waiting : Nat → Nat} (ht : f.Tracked waiting)
    (hr : f.Registered) {key : K} {e : Nat} {x : Execution K W T} :
    f.joinable? key = some (e, x) ↔
      f.executions[e]? = some x ∧ x.key = key ∧ x.stage.isRunning = true := by
  constructor
  · intro h
    unfold joinable? at h
    split at h
    · cases h
    · rename_i t hget
      obtain ⟨-, y, hy, hkey, hrun⟩ := (hr key t).mp hget
      rw [hy] at h
      simp only [Option.ite_none_right_eq_some, Option.some.injEq, Prod.mk.injEq] at h
      obtain ⟨-, rfl, rfl⟩ := h
      exact ⟨hy, hkey, hrun⟩
  · rintro ⟨hx, rfl, hrun⟩
    have hpos : 0 < x.callers := by
      rw [(ht.sound hx).callers]
      exact (ht.sound hx).wanted hrun
    simp [joinable?, hr.get?_key hx hrun, hx, hpos]

/-- What a call for a key does: it attaches to the running execution of the key, or starts one if
there is none. -/
theorem enter_cases {f : Flights K W T} {waiting : Nat → Nat} (ht : f.Tracked waiting)
    (hr : f.Registered) (key : K) (work : W) :
    (∃ e x, f.executions[e]? = some x ∧ x.key = key ∧ x.stage.isRunning = true ∧
      f.enter key work = (e, f.set e { x with callers := x.callers + 1 }, .attached e f.ongoing)) ∨
    (f.Vacant key ∧ f.enter key work = f.start key work) := by
  cases hj : f.joinable? key with
  | some p =>
    obtain ⟨e, x⟩ := p
    obtain ⟨hx, hkey, hrun⟩ := (joinable?_eq_some_iff ht hr).mp hj
    exact .inl ⟨e, x, hx, hkey, hrun, by simp [enter, hj]⟩
  | none =>
    refine .inr ⟨fun e x hx hrun hkey => ?_, by simp [enter, hj]⟩
    have := (joinable?_eq_some_iff ht hr).mpr ⟨hx, hkey, hrun⟩
    rw [hj] at this
    cases this

/-- An execution that starts is put behind all others. -/
theorem executions_start (f : Flights K W T) (key : K) (work : W) :
    (f.start key work).2.1.executions =
      f.executions ++ [{ key, callers := 1, stage := .running work, released := false }] := rfl

/-- Every execution after a start is an old one or the one that was started. -/
theorem executions_start_cases {f : Flights K W T} {key : K} {work : W} {e : Nat}
    {x : Execution K W T} (hx : (f.start key work).2.1.executions[e]? = some x) :
    f.executions[e]? = some x ∨ (e = f.executions.length ∧
      x = { key, callers := 1, stage := .running work, released := false }) := by
  rw [executions_start, List.getElem?_append] at hx
  split at hx
  · exact .inl hx
  · rename_i hlt
    have he : e - f.executions.length = 0 := by
      by_contra hne
      rw [List.getElem?_eq_none (by simp; omega)] at hx
      cases hx
    rw [he] at hx
    exact .inr ⟨by omega, (Option.some.inj hx).symm⟩

theorem executions_start_self (f : Flights K W T) (key : K) (work : W) :
    (f.start key work).2.1.executions[f.executions.length]? =
      some { key, callers := 1, stage := .running work, released := false } := by
  simp [executions_start]

theorem executions_start_of_lt (f : Flights K W T) (key : K) (work : W) {e : Nat}
    {x : Execution K W T} (hx : f.executions[e]? = some x) :
    (f.start key work).2.1.executions[e]? = some x := by
  have hlt := (List.getElem?_eq_some_iff.mp hx).1
  rw [executions_start, List.getElem?_append_left hlt, hx]

/-- An execution starts with the caller that has started it. -/
theorem Tracked.start {f : Flights K W T} {waiting : Nat → Nat} (ht : f.Tracked waiting) (key : K)
    (work : W) : (f.start key work).2.1.Tracked (more waiting f.executions.length) := by
  have hnew : waiting f.executions.length = 0 := by
    by_contra hne
    exact absurd (ht.known (Nat.pos_of_ne_zero hne)) (lt_irrefl _)
  constructor
  · intro e x hx
    rcases executions_start_cases hx with hx | ⟨rfl, rfl⟩
    · have hne : e ≠ f.executions.length := (List.getElem?_eq_some_iff.mp hx).1.ne
      rw [more, Function.update_of_ne hne]
      exact ht.sound hx
    · rw [more, Function.update_self, hnew]
      exact ⟨rfl, fun _ => Nat.one_pos, nofun, rfl⟩
  · intro e he
    rw [executions_start, List.length_append, List.length_singleton]
    by_cases h : e = f.executions.length
    · omega
    · rw [more, Function.update_of_ne h] at he
      exact (ht.known he).trans (Nat.lt_succ_self _)

/-- An execution that starts is registered, if none is running for its key. -/
theorem Registered.start {f : Flights K W T} (hr : f.Registered) {key : K}
    (hfree : f.Vacant key) (work : W) : (f.start key work).2.1.Registered := by
  intro k t
  have hreg : (f.start key work).2.1.registry =
      f.registry.insert key ⟨flightNumber f.executions.length, f.executions.length⟩ := rfl
  rw [hreg]
  constructor
  · intro h
    by_cases hk : k = key
    · subst hk
      rw [Table.get?_insert_self, Option.some.injEq] at h
      subst h
      exact ⟨rfl, _, executions_start_self f k work, rfl, rfl⟩
    · rw [Table.get?_insert_of_ne _ _ hk] at h
      obtain ⟨hn, x, hx, hkey, hrun⟩ := (hr k t).mp h
      exact ⟨hn, x, executions_start_of_lt f key work hx, hkey, hrun⟩
  · rintro ⟨hn, x, hx, hkey, hrun⟩
    rcases executions_start_cases hx with hx | ⟨he, rfl⟩
    · rw [Table.get?_insert_of_ne _ _ (hkey ▸ hfree hx hrun)]
      exact (hr k t).mpr ⟨hn, x, hx, hkey, hrun⟩
    · subst hkey
      rw [Table.get?_insert_self, ← he, ← hn]

/-- The start of an execution stops none. -/
theorem steps_start {f : Flights K W T} (key : K) (work : W) :
    f.Steps [(f.start key work).2.2] (f.start key work).2.1 := by
  refine ⟨fun e x hx => ⟨x, executions_start_of_lt f key work hx, rfl, fun _ => rfl⟩, fun e => ?_⟩
  have hnone : removals [(f.start key work).2.2] e = 0 := rfl
  rw [hnone, isOver, isOver]
  cases hx : f.executions[e]? with
  | some x => rw [executions_start_of_lt f key work hx, Nat.zero_add]
  | none =>
    cases hy : (f.start key work).2.1.executions[e]? with
    | none => rfl
    | some y =>
      rcases executions_start_cases hy with h | ⟨-, rfl⟩
      · rw [hx] at h; cases h
      · rfl

/-- A call makes one caller more for the execution that it comes to. -/
theorem Tracked.enter {f : Flights K W T} {waiting : Nat → Nat} (ht : f.Tracked waiting)
    (hr : f.Registered) (key : K) (work : W) :
    (f.enter key work).2.1.Tracked (more waiting (f.enter key work).1) := by
  rcases enter_cases ht hr key work with ⟨e, x, hx, -, hrun, h⟩ | ⟨-, h⟩
  · rw [h]
    have hs := ht.sound hx
    refine ht.set hx ⟨?_, fun _ => ?_, fun ha => ?_, hs.released⟩ fun e' he =>
      Function.update_of_ne he _ _
    · rw [more, Function.update_self, hs.callers]
    · rw [more, Function.update_self]; exact Nat.succ_pos _
    · rw [show x.stage = .abandoned from ha] at hrun; cases hrun
  · rw [h]
    exact ht.start key work

/-- A call keeps the registry right: it attaches to the running execution of the key, or starts one.
-/
theorem Registered.enter {f : Flights K W T} {waiting : Nat → Nat} (ht : f.Tracked waiting)
    (hr : f.Registered) (key : K) (work : W) : (f.enter key work).2.1.Registered := by
  rcases enter_cases ht hr key work with ⟨e, x, hx, -, -, h⟩ | ⟨hfree, h⟩
  · rw [h]; exact hr.set hx rfl rfl
  · rw [h]; exact hr.start hfree work

/-- A call stops no execution, and its notice says so. -/
theorem steps_enter {f : Flights K W T} {waiting : Nat → Nat} (ht : f.Tracked waiting)
    (hr : f.Registered) (key : K) (work : W) :
    f.Steps [(f.enter key work).2.2] (f.enter key work).2.1 := by
  rcases enter_cases ht hr key work with ⟨e, x, hx, -, -, h⟩ | ⟨-, h⟩
  · rw [h]
    have hs : f.Steps [] (f.set e { x with callers := x.callers + 1 }) :=
      steps_set hx rfl rfl fun _ => rfl
    exact ⟨hs.continues, fun e' => hs.removed e'⟩
  · rw [h]; exact steps_start key work

/-! ## Leaving the registry -/

/-- A release sets the flag of an execution that was not released before, whatever the registry
holds. -/
theorem release_executions {f : Flights K W T} {e : Nat} {x : Execution K W T}
    (hx : f.executions[e]? = some x) (hrel : x.released = false) :
    (f.release e).1.executions = (f.set e { x with released := true }).executions := by
  simp only [release, hx, hrel, Bool.false_eq_true, if_false]
  split
  · split <;> rfl
  · rfl

/-- The execution `x` stops running as `x'`: it is replaced and released in one go. -/
theorem Registered.retire {f : Flights K W T} (hr : f.Registered) {e : Nat}
    {x x' : Execution K W T} (hx : f.executions[e]? = some x) (hrun : x.stage.isRunning = true)
    (hkey : x'.key = x.key) (hrel : x'.released = false) :
    (f.set e x').release e =
      ({ registry := f.registry.erase x.key,
         executions := (f.set e { x' with released := true }).executions },
        [.removed e (f.registry.erase x.key).size]) := by
  have hget : (f.set e x').registry.get? x'.key = some ⟨flightNumber e, e⟩ := by
    rw [hkey]; exact hr.get?_key hx hrun
  have hget' : ((f.set e x').set e { x' with released := true }).registry.get? x'.key =
      some ⟨flightNumber e, e⟩ := hget
  simp only [release, executions_set_self hx, hrel, Bool.false_eq_true, if_false, hget', if_true]
  rw [set_set, hkey]
  rfl

/-- The registry is right after an execution has stopped running and was released. -/
theorem Registered.release {f : Flights K W T} (hr : f.Registered) {e : Nat}
    {x x' : Execution K W T} (hx : f.executions[e]? = some x) (hrun : x.stage.isRunning = true)
    (hkey : x'.key = x.key) (hrel : x'.released = false) (hstop : x'.stage.isRunning = false) :
    ((f.set e x').release e).1.Registered := by
  rw [hr.retire hx hrun hkey hrel]
  intro k t
  constructor
  · intro h
    by_cases hk : k = x.key
    · subst hk; rw [Table.get?_erase_self] at h; cases h
    · rw [Table.get?_erase_of_ne _ hk] at h
      obtain ⟨hn, y, hy, hyk, hyr⟩ := (hr k t).mp h
      have hne : t.execution ≠ e := by
        rintro rfl
        rw [hx] at hy
        cases hy
        exact hk hyk.symm
      exact ⟨hn, y, by rw [executions_set_of_ne _ hne]; exact hy, hyk, hyr⟩
  · rintro ⟨hn, y, hy, hyk, hyr⟩
    rcases executions_set hx hy with ⟨-, rfl⟩ | ⟨hne, hy⟩
    · rw [show Stage.isRunning x'.stage = true from hyr] at hstop; cases hstop
    · have hk : k ≠ x.key := fun h => hne (hr.key_unique hy hyr hx hrun (hyk.trans h))
      rw [Table.get?_erase_of_ne _ hk]
      exact (hr k t).mpr ⟨hn, y, hy, hyk, hyr⟩

/-- A release after an execution has stopped running is a step that removes it. -/
theorem Registered.steps_release {f : Flights K W T} (hr : f.Registered) {e : Nat}
    {x x' : Execution K W T} (hx : f.executions[e]? = some x) (hrun : x.stage.isRunning = true)
    (hkey : x'.key = x.key) (hrel : x'.released = false) (hstop : x'.stage.isRunning = false) :
    f.Steps ((f.set e x').release e).2 ((f.set e x').release e).1 := by
  rw [hr.retire hx hrun hkey hrel]
  constructor
  · show f.Extends (f.set e { x' with released := true })
    exact extends_set hx hkey fun h => by rw [hrun] at h; cases h
  · intro e'
    show removals [_] e' + _ = (isOver (f.set e { x' with released := true }) e').toNat
    by_cases he : e' = e
    · subst he
      have hover : f.isOver e' = false := by rw [isOver, hx, Option.any_some, hrun]; rfl
      rw [isOver_set_self hx, hover]
      simp [removals, Notice.removed?, hstop]
    · rw [isOver_set_of_ne _ he]
      simp [removals, Notice.removed?, Ne.symm he]

/-- Executions stay tracked when one stops running and is released. -/
theorem Tracked.release {f : Flights K W T} {waiting waiting' : Nat → Nat} (h : f.Tracked waiting)
    {e : Nat} {x x' : Execution K W T} (hx : f.executions[e]? = some x)
    (hrel : x'.released = false) (hx' : Execution.Sound { x' with released := true } (waiting' e))
    (hother : ∀ e', e' ≠ e → waiting' e' = waiting e') :
    ((f.set e x').release e).1.Tracked waiting' := by
  have hexec : ((f.set e x').release e).1.executions =
      (f.set e { x' with released := true }).executions := by
    rw [release_executions (executions_set_self hx) hrel, set_set]
  have hset := h.set hx hx' hother
  exact ⟨fun hy => hset.sound (by rw [← hexec]; exact hy), fun hw => by
    rw [hexec]; exact hset.known hw⟩

/-- A running execution that is replaced and released continues the executions. -/
theorem Tracked.extends_release {f : Flights K W T} {waiting : Nat → Nat} (h : f.Tracked waiting)
    {e : Nat} {x x' : Execution K W T} {work : W} (hx : f.executions[e]? = some x)
    (hs : x.stage = .running work) (hkey : x'.key = x.key) (hrel : x'.released = x.released) :
    f.Extends ((f.set e x').release e).1 := by
  intro e' y hy
  rw [release_executions (executions_set_self hx) (hrel.trans (h.unreleased hx hs)), set_set]
  have hext : f.Extends (f.set e { x' with released := true }) :=
    extends_set hx hkey fun hstop => by rw [hs] at hstop; cases hstop
  exact hext hy

/-! ## Polling -/

/-- What a poll by an attached caller does. -/
inductive Polls (step : W → σ → Progress W (Outcome T) × σ) (f : Flights K W T) (e : Nat) (s : σ) :
    Option (Outcome T) × Flights K W T × σ × List Notice → Prop where
  | waits {x : Execution K W T} {work rest : W} {s' : σ} (hx : f.executions[e]? = some x)
      (hs : x.stage = .running work) (hw : step work s = (.waiting rest, s')) :
      Polls step f e s (none, f.set e { x with stage := .running rest }, s', [])
  /-- The work ends, and the caller receives its outcome. -/
  | settles {x : Execution K W T} {work : W} {outcome : Outcome T} {s' : σ}
      (hx : f.executions[e]? = some x) (hs : x.stage = .running work)
      (hw : step work s = (.finished outcome, s')) :
      Polls step f e s
        (some outcome,
          ((f.set e { x with stage := .settled outcome, callers := x.callers - 1 }).release e).1,
          s',
          ((f.set e { x with stage := .settled outcome, callers := x.callers - 1 }).release e).2)
  /-- The work has ended before, and the caller receives its outcome. -/
  | receives {x : Execution K W T} {outcome : Outcome T} (hx : f.executions[e]? = some x)
      (hs : x.stage = .settled outcome) :
      Polls step f e s (some outcome, f.set e { x with callers := x.callers - 1 }, s, [])

/-- Nothing comes of polling an execution that is abandoned or unknown. -/
theorem poll_cases (step : W → σ → Progress W (Outcome T) × σ) (f : Flights K W T) (e : Nat)
    (s : σ) :
    ((∀ x, f.executions[e]? = some x → x.stage = .abandoned) ∧
      f.poll step e s = (none, f, s, [])) ∨ f.Polls step e s (f.poll step e s) := by
  unfold poll
  cases hx : f.executions[e]? with
  | none => exact .inl ⟨nofun, rfl⟩
  | some x =>
    cases hs : x.stage with
    | running work =>
      simp only [hs]
      rcases hw : step work s with ⟨rest | outcome, s'⟩
      · exact .inr (.waits hx hs hw)
      · exact .inr (.settles hx hs hw)
    | settled outcome =>
      simp only [hs]
      rw [← hs]
      exact .inr (.receives hx hs)
    | abandoned =>
      simp only [hs]
      exact .inl ⟨fun x' hx' => Option.some.inj hx' ▸ hs, trivial⟩

/-- Whoever waits for an execution can poll it, and the poll does one of the things that polls do.
-/
theorem polls_of_waiting (step : W → σ → Progress W (Outcome T) × σ) {f : Flights K W T}
    {waiting : Nat → Nat} (ht : f.Tracked waiting) {e : Nat} (he : 0 < waiting e) (s : σ) :
    f.Polls step e s (f.poll step e s) := by
  refine (poll_cases step f e s).resolve_left fun ⟨habandoned, _⟩ => ?_
  have hlt := ht.known he
  have hx : f.executions[e]? = some f.executions[e] := List.getElem?_eq_getElem hlt
  exact absurd ((ht.sound hx).deserted (habandoned _ hx)) he.ne'

section Poll

variable {step : W → σ → Progress W (Outcome T) × σ} {f f' : Flights K W T} {e : Nat} {s s' : σ}
  {answer : Option (Outcome T)} {ns : List Notice}

/-- The executions after one has settled. -/
theorem executions_settle {x : Execution K W T} {work : W} (outcome : Outcome T) (n : Nat)
    {waiting : Nat → Nat} (ht : f.Tracked waiting) (hx : f.executions[e]? = some x)
    (hs : x.stage = .running work) :
    ((f.set e { x with stage := .settled outcome, callers := n }).release e).1.executions =
      (f.set e
        { x with stage := .settled outcome, callers := n, released := true }).executions := by
  have hrel := ht.unreleased hx hs
  rw [release_executions (x := { x with stage := .settled outcome, callers := n })
    (executions_set_self hx) hrel, set_set]

/-- A caller that receives the outcome does not wait any more; nobody else is affected. -/
theorem Polls.tracked {waiting : Nat → Nat} (ht : f.Tracked waiting)
    (h : f.Polls step e s (answer, f', s', ns)) :
    f'.Tracked (if answer.isSome then less waiting e else waiting) := by
  cases h with
  | waits hx hs hw =>
    have hsound := ht.sound hx
    have hrel := ht.unreleased hx hs
    refine ht.set hx ⟨hsound.callers, fun _ => ?_, nofun, hrel⟩ fun _ _ => rfl
    exact hsound.wanted (Stage.isRunning_of_eq hs)
  | settles hx hs hw =>
    have hrel := ht.unreleased hx hs
    refine ht.release hx hrel ⟨?_, nofun, nofun, rfl⟩
      fun e' he => Function.update_of_ne he _ _
    rw [Option.isSome_some, if_pos rfl, less, Function.update_self, ← (ht.sound hx).callers]
  | @receives x outcome hx hs =>
    refine ht.set hx ⟨?_, fun hrun => ?_, fun ha => ?_, (ht.sound hx).released⟩
      fun e' he => Function.update_of_ne he _ _
    · rw [Option.isSome_some, if_pos rfl, less, Function.update_self, ← (ht.sound hx).callers]
    · have hstop := Stage.not_running_of_eq hs
      rw [show x.stage.isRunning = true from hrun] at hstop
      cases hstop
    · rw [show x.stage = .abandoned from ha] at hs
      cases hs

/-- A poll keeps the registry right and tells what it removes. -/
theorem Polls.registered {waiting : Nat → Nat} (ht : f.Tracked waiting) (hr : f.Registered)
    (h : f.Polls step e s (answer, f', s', ns)) : f'.Registered ∧ f.Steps ns f' := by
  cases h with
  | waits hx hs hw =>
    have hrun := Stage.isRunning_of_eq hs
    exact ⟨hr.set hx rfl hrun.symm, steps_set hx rfl hrun.symm fun h => by rw [hrun] at h; cases h⟩
  | settles hx hs hw =>
    have hrun := Stage.isRunning_of_eq hs
    have hrel := ht.unreleased hx hs
    exact ⟨hr.release hx hrun rfl hrel rfl, hr.steps_release hx hrun rfl hrel rfl⟩
  | receives hx hs => exact ⟨hr.set hx rfl rfl, steps_set hx rfl rfl fun _ => rfl⟩

/-- A poll continues the executions, whether or not they are registered. -/
theorem Polls.continues {waiting : Nat → Nat} (ht : f.Tracked waiting)
    (h : f.Polls step e s (answer, f', s', ns)) : f.Extends f' := by
  cases h with
  | waits hx hs hw => exact extends_set hx rfl fun h => by rw [hs] at h; cases h
  | settles hx hs hw => exact ht.extends_release hx hs rfl rfl
  | receives hx hs => exact extends_set hx rfl fun _ => rfl

/-- An outcome that a poll answers is that of the execution, then and for ever. -/
theorem Polls.outcome {waiting : Nat → Nat} {outcome : Outcome T} (ht : f.Tracked waiting)
    (h : f.Polls step e s (some outcome, f', s', ns)) :
    ∃ x, f'.executions[e]? = some x ∧ x.stage = .settled outcome := by
  cases h with
  | settles hx hs hw =>
    rw [executions_settle _ _ ht hx hs]
    exact ⟨_, executions_set_self hx, rfl⟩
  | receives hx hs => exact ⟨_, executions_set_self hx, hs⟩

end Poll

/-! ## Going away -/

/-- What the departure of an attached caller does. -/
inductive Leaves (f : Flights K W T) (e : Nat) : Option W × Flights K W T × List Notice → Prop where
  /-- The execution does not need the caller. -/
  | parts {x : Execution K W T} (hx : f.executions[e]? = some x)
      (hs : x.stage.isRunning = true → 1 < x.callers) :
      Leaves f e (none, f.set e { x with callers := x.callers - 1 }, [])
  /-- The caller was the last one of a running execution, which is abandoned and released. -/
  | abandons {x : Execution K W T} {work : W} (hx : f.executions[e]? = some x)
      (hs : x.stage = .running work) (hn : x.callers = 1) :
      Leaves f e
        (some work, ((f.set e { x with stage := .abandoned, callers := 0 }).release e).1,
          ((f.set e { x with stage := .abandoned, callers := 0 }).release e).2)

/-- Whoever waits for an execution can leave it, and the departure does one of the things that
departures do. -/
theorem leaves_of_waiting {f : Flights K W T} {waiting : Nat → Nat} (ht : f.Tracked waiting)
    {e : Nat} (he : 0 < waiting e) : f.Leaves e (f.leave e) := by
  have hlt := ht.known he
  have hx : f.executions[e]? = some f.executions[e] := List.getElem?_eq_getElem hlt
  generalize f.executions[e] = x at hx
  have hpos : 0 < x.callers := by rw [(ht.sound hx).callers]; exact he
  unfold leave detach
  rw [hx]
  cases hs : x.stage with
  | running work =>
    by_cases hn : x.callers - 1 = 0
    · have hone : x.callers = 1 := by omega
      simp only [hs, hn, if_true]
      exact .abandons hx hs hone
    · simp only [hs, hn, if_false]
      rw [← hs]
      exact .parts hx fun _ => by omega
  | settled outcome =>
    simp only [hs]
    rw [← hs]
    exact .parts hx fun h => by rw [hs] at h; cases h
  | abandoned =>
    simp only [hs]
    rw [← hs]
    exact .parts hx fun h => by rw [hs] at h; cases h

section Leave

variable {f f' : Flights K W T} {e : Nat} {answer : Option W} {ns : List Notice}
  {waiting : Nat → Nat}

/-- A departure leaves one caller less. -/
theorem Leaves.tracked (ht : f.Tracked waiting) (h : f.Leaves e (answer, f', ns)) :
    f'.Tracked (less waiting e) := by
  cases h with
  | parts hx hs =>
    have hsound := ht.sound hx
    refine ht.set hx ⟨?_, ?_, ?_, hsound.released⟩ fun e' he => Function.update_of_ne he _ _
    · rw [less, Function.update_self, ← hsound.callers]
    · intro hrun
      have := hs hrun
      rw [less, Function.update_self, ← hsound.callers]
      omega
    · intro ha
      rw [less, Function.update_self, hsound.deserted ha]
  | abandons hx hs hn =>
    have hsound := ht.sound hx
    have hrel := ht.unreleased hx hs
    refine ht.release hx hrel ⟨?_, nofun, fun _ => ?_, rfl⟩
      fun e' he => Function.update_of_ne he _ _
    all_goals rw [less, Function.update_self, ← hsound.callers, hn]

/-- A departure that stops an execution takes it off the registry, and its notices say so. -/
theorem Leaves.registered (ht : f.Tracked waiting) (hr : f.Registered)
    (h : f.Leaves e (answer, f', ns)) : f'.Registered ∧ f.Steps ns f' := by
  cases h with
  | parts hx hs => exact ⟨hr.set hx rfl rfl, steps_set hx rfl rfl fun _ => rfl⟩
  | abandons hx hs hn =>
    have hrun := Stage.isRunning_of_eq hs
    have hrel := ht.unreleased hx hs
    exact ⟨hr.release hx hrun rfl hrel rfl, hr.steps_release hx hrun rfl hrel rfl⟩

/-- A departure forgets no execution and changes none that is over. -/
theorem Leaves.continues (ht : f.Tracked waiting) (h : f.Leaves e (answer, f', ns)) :
    f.Extends f' := by
  cases h with
  | parts hx hs => exact extends_set hx rfl fun _ => rfl
  | abandons hx hs hn => exact ht.extends_release hx hs rfl rfl

end Leave

end Flights

end ReadThrough
