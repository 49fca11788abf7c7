import ReadThrough.Flights
import Mathlib.Data.Set.Card
import Mathlib.Logic.Function.Basic
/-!
# Proofs: the registry and the executions

An execution runs until it settles or is abandoned. While nobody stands between going away and the
release that follows (`Tracked`), the registry holds exactly the running executions (`Registered`),
and every operation keeps both. What an operation says it removed is what stopped running in it
(`Steps`).

The callers of an execution are counted by whoever holds them, so the count is a parameter here:
`waiting` says for each execution how many callers are attached to it.
-/

namespace ReadThrough

variable {K W T σ : Type}

/-- Whether the work is under way. -/
def Stage.isRunning : Stage W T → Bool
  | .running _ => true
  | .settled _ | .abandoned => false

theorem Stage.isRunning_of_eq {stage : Stage W T} {work : W} (h : stage = .running work) :
    stage.isRunning = true := by rw [h]; rfl

theorem Stage.not_running_of_eq {stage : Stage W T} {outcome : Outcome T}
    (h : stage = .settled outcome) : stage.isRunning = false := by rw [h]; rfl

/-- The execution that a notice says was removed. -/
def Notice.removed? : Notice → Option Nat
  | .removed execution _ => some execution
  | .started _ _ | .attached _ _ => none

/-- How often notices say that an execution was removed. -/
def removals (notices : List Notice) (execution : Nat) : Nat :=
  notices.countP (·.removed? = some execution)

/-- Removals that are told one after the other add up. -/
theorem removals_append (ns ns' : List Notice) (e : Nat) :
    removals (ns ++ ns') e = removals ns e + removals ns' e := List.countP_append

/-- An execution agrees with the number of its callers: a running one has callers, an abandoned one
has none, and exactly a running one has not been released. -/
structure Execution.Sound (x : Execution K W T) (waiting : Nat) : Prop where
  callers : x.callers = waiting
  wanted : x.stage.isRunning = true → 0 < waiting
  deserted : x.stage = .abandoned → waiting = 0
  released : x.released = !x.stage.isRunning

namespace Flights

/-- An execution is running. -/
def Runs (f : Flights K W T) (e : Nat) : Prop :=
  ∃ x, f.executions[e]? = some x ∧ x.stage.isRunning = true

/-- Whether an execution was started and does not run any more. -/
def isOver (f : Flights K W T) (e : Nat) : Bool := f.executions[e]?.any (!·.stage.isRunning)

/-- The executions agree with the numbers of their callers. -/
structure Tracked (f : Flights K W T) (waiting : Nat → Nat) : Prop where
  sound : ∀ {e : Nat} {x : Execution K W T}, f.executions[e]? = some x → x.Sound (waiting e)
  known : ∀ {e : Nat}, 0 < waiting e → e < f.executions.length

/-- The executions `f'` continue those of `f`: none is forgotten or changes its key, and one that
does not run stays as it is. -/
def Extends (f f' : Flights K W T) : Prop :=
  ∀ ⦃e : Nat⦄ ⦃x : Execution K W T⦄, f.executions[e]? = some x →
    ∃ x', f'.executions[e]? = some x' ∧ x'.key = x.key ∧
      (x.stage.isRunning = false → x'.stage = x.stage)

theorem Extends.refl (f : Flights K W T) : f.Extends f := fun _ _ h => ⟨_, h, rfl, fun _ => rfl⟩

/-- What goes on from one state to another goes on from there. -/
theorem Extends.trans {f f' f'' : Flights K W T} (h : f.Extends f') (h' : f'.Extends f'') :
    f.Extends f'' := by
  intro e x hx
  obtain ⟨x', hx', hk, hs⟩ := h hx
  obtain ⟨x'', hx'', hk', hs'⟩ := h' hx'
  refine ⟨x'', hx'', hk'.trans hk, fun hr => ?_⟩
  rw [hs' (by rw [hs hr]; exact hr), hs hr]

/-- From `f` to `f'` with notices that say of every execution exactly whether it stopped running. -/
structure Steps (f : Flights K W T) (notices : List Notice) (f' : Flights K W T) : Prop where
  continues : f.Extends f'
  removed : ∀ e, removals notices e + (f.isOver e).toNat = (f'.isOver e).toNat

theorem Steps.refl (f : Flights K W T) : f.Steps [] f := ⟨.refl f, fun _ => by simp [removals]⟩

/-- The notices of two stretches tell together what stopped running in either. -/
theorem Steps.trans {f f' f'' : Flights K W T} {ns ns' : List Notice} (h : f.Steps ns f')
    (h' : f'.Steps ns' f'') : f.Steps (ns ++ ns') f'' := by
  refine ⟨h.continues.trans h'.continues, fun e => ?_⟩
  have h1 := h.removed e
  have h2 := h'.removed e
  rw [removals_append]
  omega

/-! ## Replacing an execution -/

/-- An execution that is replaced is found as it is now. -/
theorem executions_set_self {f : Flights K W T} {e : Nat} {x x' : Execution K W T}
    (hx : f.executions[e]? = some x) : (f.set e x').executions[e]? = some x' := by
  have hlt : e < f.executions.length := (List.getElem?_eq_some_iff.mp hx).1
  simp [set, hlt]

/-- To replace one execution leaves the others as they are. -/
theorem executions_set_of_ne {f : Flights K W T} {e e' : Nat} (x : Execution K W T)
    (h : e' ≠ e) : (f.set e x).executions[e']? = f.executions[e']? := by
  simp [set, h.symm]

theorem set_set (f : Flights K W T) (e : Nat) (x x' : Execution K W T) :
    (f.set e x).set e x' = f.set e x' := by
  simp [set]

/-- Every execution after a replacement is the new one or one of the old. -/
theorem executions_set {f : Flights K W T} {e e' : Nat} {x x' y : Execution K W T}
    (hx : f.executions[e]? = some x) (hy : (f.set e x').executions[e']? = some y) :
    (e' = e ∧ y = x') ∨ (e' ≠ e ∧ f.executions[e']? = some y) := by
  by_cases h : e' = e
  · subst h
    rw [executions_set_self hx] at hy
    exact .inl ⟨rfl, (Option.some.inj hy).symm⟩
  · rw [executions_set_of_ne x' h] at hy
    exact .inr ⟨h, hy⟩

/-- A running execution has not been released. -/
theorem Tracked.unreleased {f : Flights K W T} {waiting : Nat → Nat} (h : f.Tracked waiting)
    {e : Nat} {x : Execution K W T} {work : W} (hx : f.executions[e]? = some x)
    (hs : x.stage = .running work) : x.released = false := by
  rw [(h.sound hx).released, Stage.isRunning_of_eq hs]
  rfl

/-- A replacement is tracked if the new execution agrees with its callers. -/
theorem Tracked.set {f : Flights K W T} {waiting waiting' : Nat → Nat} (h : f.Tracked waiting)
    {e : Nat} {x x' : Execution K W T} (hx : f.executions[e]? = some x)
    (hx' : x'.Sound (waiting' e)) (hother : ∀ e', e' ≠ e → waiting' e' = waiting e') :
    (f.set e x').Tracked waiting' where
  sound {e' y} hy := by
    rcases executions_set hx hy with ⟨rfl, rfl⟩ | ⟨hne, hy⟩
    · exact hx'
    · rw [hother _ hne]; exact h.sound hy
  known {e'} hw := by
    have hlt : e' < f.executions.length := by
      by_cases he : e' = e
      · exact he ▸ (List.getElem?_eq_some_iff.mp hx).1
      · exact h.known (by rw [← hother _ he]; exact hw)
    simpa [Flights.set] using hlt

/-- An execution may change as long as it keeps its key, and its stage once it does not run any
more. -/
theorem extends_set {f : Flights K W T} {e : Nat} {x x' : Execution K W T}
    (hx : f.executions[e]? = some x) (hkey : x'.key = x.key)
    (hstage : x.stage.isRunning = false → x'.stage = x.stage) : f.Extends (f.set e x') := by
  intro e' y hy
  by_cases he : e' = e
  · subst he
    rw [hx] at hy
    cases hy
    exact ⟨x', executions_set_self hx, hkey, hstage⟩
  · exact ⟨y, by rw [executions_set_of_ne x' he]; exact hy, rfl, fun _ => rfl⟩

/-- Whether the replaced execution is over depends on its new stage alone. -/
theorem isOver_set_self {f : Flights K W T} {e : Nat} {x x' : Execution K W T}
    (hx : f.executions[e]? = some x) : (f.set e x').isOver e = !x'.stage.isRunning := by
  rw [isOver, executions_set_self hx, Option.any_some]

/-- To replace one execution does not end another. -/
theorem isOver_set_of_ne {f : Flights K W T} {e e' : Nat} (x : Execution K W T) (h : e' ≠ e) :
    (f.set e x).isOver e' = f.isOver e' := by
  rw [isOver, executions_set_of_ne x h, isOver]

/-- A replacement that leaves the running executions running and the others as they are is a step
without notices. -/
theorem steps_set {f : Flights K W T} {e : Nat} {x x' : Execution K W T}
    (hx : f.executions[e]? = some x) (hkey : x'.key = x.key)
    (hrun : x'.stage.isRunning = x.stage.isRunning)
    (hstage : x.stage.isRunning = false → x'.stage = x.stage) : f.Steps [] (f.set e x') := by
  refine ⟨extends_set hx hkey hstage, fun e' => ?_⟩
  by_cases he : e' = e
  · subst he
    rw [isOver_set_self hx, hrun, isOver, hx]
    simp [removals]
  · rw [isOver_set_of_ne x' he]
    simp [removals]

end Flights

end ReadThrough
