import ReadThrough.Proofs.Flights.Stages
/-!
# Proofs: one caller more

An execution with one caller more than it has (`addCaller`). No operation can tell the difference,
as long as the execution is not abandoned for want of that caller: every operation answers the same,
and leaves the same flights behind with one caller more.
-/

namespace ReadThrough

variable {K W T σ : Type}

namespace Flights

/-- An execution, with one caller more if it is `e` that gets it. -/
def addCallerAt (e e' : Nat) (x : Execution K W T) : Execution K W T :=
  { x with callers := if e' = e then x.callers + 1 else x.callers }

/-- The same flights with one caller more for an execution. -/
def addCaller (f : Flights K W T) (e : Nat) : Flights K W T :=
  { f with executions := f.executions.modify e (addCallerAt e e) }

/-- Other executions have the callers that they have. -/
theorem addCallerAt_of_ne {e e' : Nat} (h : e' ≠ e) :
    (addCallerAt e e' : Execution K W T → Execution K W T) = id := by
  funext x
  simp [addCallerAt, h]

/-- Each execution is found with its callers, and the one with one more. -/
theorem executions_addCaller (f : Flights K W T) (e e' : Nat) :
    (f.addCaller e).executions[e']? = (f.executions[e']?).map (addCallerAt e e') := by
  rw [addCaller, List.getElem?_modify]
  by_cases he : e' = e
  · subst he
    simp only [if_true]
    rfl
  · simp only [if_neg (Ne.symm he), addCallerAt_of_ne he]
    rfl

theorem length_addCaller (f : Flights K W T) (e : Nat) :
    (f.addCaller e).executions.length = f.executions.length := by
  simp [addCaller]

/-- To replace an execution and to add a caller can be done in either order. -/
theorem set_addCaller (f : Flights K W T) (e e' : Nat) (x : Execution K W T) :
    (f.addCaller e).set e' (addCallerAt e e' x) = (f.set e' x).addCaller e := by
  have hlist : ((f.addCaller e).set e' (addCallerAt e e' x)).executions =
      ((f.set e' x).addCaller e).executions := by
    refine List.ext_getElem? fun e'' => ?_
    rw [executions_addCaller, set, set, List.getElem?_set, List.getElem?_set,
      executions_addCaller]
    by_cases he : e' = e''
    · subst he
      simp only [if_true, length_addCaller]
      split <;> rfl
    · simp only [he, if_false]
  exact congrArg (Flights.mk f.registry) hlist

/-- The registry does not know of callers. -/
theorem registry_addCaller (f : Flights K W T) (e : Nat) :
    (f.addCaller e).registry = f.registry := rfl

/-- To replace an execution takes back that it had a caller more. -/
theorem set_addCaller_self {f : Flights K W T} {e : Nat} {x : Execution K W T}
    (hx : f.executions[e]? = some x) : (f.addCaller e).set e x = f := by
  have hlist : ((f.addCaller e).set e x).executions = f.executions := by
    refine List.ext_getElem? fun e' => ?_
    rw [set, List.getElem?_set, executions_addCaller]
    by_cases he : e = e'
    · subst he
      have hlt := (List.getElem?_eq_some_iff.mp hx).1
      rw [if_pos rfl, length_addCaller, if_pos hlt, hx]
    · rw [if_neg he, addCallerAt_of_ne (Ne.symm he), Option.map_id]
      rfl
  exact congrArg (Flights.mk f.registry) hlist

/-- A caller that does not matter for the execution comes back. -/
theorem Leaves.addCaller [DecidableEq K] {f f' : Flights K W T} {e : Nat} {ns : List Notice}
    (h : f.Leaves e (none, f', ns)) (hpos : ∀ x, f.executions[e]? = some x → 0 < x.callers) :
    f = f'.addCaller e ∧ ns = [] := by
  cases h with
  | @parts x hx hs =>
    refine ⟨?_, rfl⟩
    have hback : addCallerAt e e { x with callers := x.callers - 1 } = x := by
      have := hpos x hx
      simp [addCallerAt, Nat.sub_add_cancel this]
    rw [← set_addCaller, hback, set_addCaller_self hx]

/-- Whoever receives the outcome or goes away does not count any more, with a caller more or
without. -/
theorem callers_addCallerAt (e e' : Nat) {x : Execution K W T} (hpos : 0 < x.callers) :
    (addCallerAt e e' x).callers - 1 = if e' = e then x.callers - 1 + 1 else x.callers - 1 := by
  unfold addCallerAt
  simp only
  split <;> omega

variable [DecidableEq K]

/-- A release does not look at the callers. -/
theorem release_addCaller (f : Flights K W T) (e e' : Nat) :
    (f.addCaller e).release e' = ((f.release e').1.addCaller e, (f.release e').2) := by
  unfold release
  rw [executions_addCaller]
  cases hx : f.executions[e']? with
  | none => rfl
  | some x =>
    have hset := set_addCaller f e e' { x with released := true }
    cases hr : x.released with
    | true => simp only [Option.map_some, addCallerAt, hr, if_true]
    | false =>
      simp only [addCallerAt] at hset
      simp only [Option.map_some, addCallerAt, hr, Bool.false_eq_true, if_false, hset]
      rw [registry_addCaller]
      generalize (f.set e' _).registry.get? x.key = found
      cases found with
      | none => rfl
      | some ticket =>
        simp only
        split <;> rfl

/-- A poll does not look at the callers of other executions, and changes those of its own as before.
-/
theorem poll_addCaller (step : W → σ → Progress W (Outcome T) × σ) (f : Flights K W T)
    (e e' : Nat) (s : σ) (hpos : ∀ x, f.executions[e']? = some x → 0 < x.callers) :
    (f.addCaller e).poll step e' s =
      ((f.poll step e' s).1, (f.poll step e' s).2.1.addCaller e, (f.poll step e' s).2.2) := by
  unfold poll
  rw [executions_addCaller]
  cases hx : f.executions[e']? with
  | none => rfl
  | some x =>
    have hcallers := callers_addCallerAt e e' (hpos x hx)
    have hset := fun stage callers =>
      set_addCaller f e e' { x with stage := stage, callers := callers }
    simp only [addCallerAt] at hcallers hset
    simp only [Option.map_some, addCallerAt, hcallers]
    cases hs : x.stage with
    | abandoned => rfl
    | settled outcome => simp only [hset]
    | running work =>
      simp only
      split
      · simp only [hset]
      · simp only [hset, release_addCaller]

/-- A departure does the same with one caller more, unless it was that of the last caller. -/
theorem leave_addCaller (f : Flights K W T) (e e' : Nat)
    (hpos : ∀ x, f.executions[e']? = some x → 0 < x.callers)
    (hkept : (f.leave e').2.1.stage? e ≠ some .abandoned) :
    (f.addCaller e).leave e' =
      ((f.leave e').1, (f.leave e').2.1.addCaller e, (f.leave e').2.2) := by
  unfold leave detach at hkept ⊢
  rw [executions_addCaller]
  cases hx : f.executions[e']? with
  | none => rfl
  | some x =>
    have hcallers := callers_addCallerAt e e' (hpos x hx)
    have hset := fun stage callers =>
      set_addCaller f e e' { x with stage := stage, callers := callers }
    simp only [addCallerAt] at hcallers hset
    simp only [Option.map_some, addCallerAt, hcallers]
    cases hs : x.stage with
    | abandoned => simp only [hset]
    | settled outcome => simp only [hset]
    | running work =>
      simp only
      by_cases hn : x.callers - 1 = 0
      · have he : e' ≠ e := by
          rintro rfl
          simp only [hx, hs, hn, if_true, stage?_release] at hkept
          exact hkept (stage?_set_self hx)
        have hgone := hset .abandoned 0
        simp only [he, if_false] at hgone
        simp only [hn, he, if_true, if_false, hgone, release_addCaller]
      · have hn' : ¬ (if e' = e then x.callers - 1 + 1 else x.callers - 1) = 0 := by
          split <;> omega
        simp only [hn, hn', if_false, hset]

/-- The same executions can be joined with one caller more. -/
theorem joinable?_addCaller {f : Flights K W T} {waiting : Nat → Nat} (ht : f.Tracked waiting)
    (hr : f.Registered) (e : Nat) (key : K) :
    (f.addCaller e).joinable? key =
      (f.joinable? key).map fun found => (found.1, addCallerAt e found.1 found.2) := by
  unfold joinable?
  rw [registry_addCaller]
  cases hget : f.registry.get? key with
  | none => rfl
  | some ticket =>
    obtain ⟨-, x, hx, -, hrun⟩ := (hr key ticket).mp hget
    have hsound := ht.sound hx
    have hpos : 0 < x.callers := hsound.callers ▸ hsound.wanted hrun
    have hpos' : 0 < (addCallerAt e ticket.execution x).callers := by
      unfold addCallerAt
      simp only
      split <;> omega
    simp only [executions_addCaller, hx, Option.map_some, if_pos hpos, if_pos hpos']

/-- A call comes to the same execution with one caller more somewhere. -/
theorem enter_addCaller {f : Flights K W T} {waiting : Nat → Nat} (ht : f.Tracked waiting)
    (hr : f.Registered) {e : Nat} (he : e < f.executions.length) (key : K) (work : W) :
    (f.addCaller e).enter key work =
      ((f.enter key work).1, (f.enter key work).2.1.addCaller e, (f.enter key work).2.2) := by
  unfold enter
  rw [joinable?_addCaller ht hr]
  cases hj : f.joinable? key with
  | some found =>
    obtain ⟨e', x⟩ := found
    have hset := set_addCaller f e e' { x with callers := x.callers + 1 }
    have hmore : (addCallerAt e e' x).callers + 1 =
        if e' = e then x.callers + 1 + 1 else x.callers + 1 := by
      unfold addCallerAt
      simp only
      split <;> rfl
    simp only [addCallerAt] at hset hmore
    simp only [Option.map_some, addCallerAt, hmore, hset]
    rfl
  | none =>
    -- The execution that starts comes last, so that the one with another caller keeps its place.
    have hlist : ∀ x : Execution K W T, (f.addCaller e).executions ++ [x] =
        (f.executions ++ [x]).modify e (addCallerAt e e) := by
      intro x
      refine List.ext_getElem? fun e' => ?_
      rw [addCaller, List.getElem?_modify, List.getElem?_append, List.getElem?_append,
        List.length_modify, List.getElem?_modify]
      split
      · rfl
      · have hne : e ≠ e' := by omega
        simp only [hne, if_false]
        exact Option.map_id'.symm
    simp only [Option.map_none, start, length_addCaller, registry_addCaller, hlist]
    rfl

end Flights

end ReadThrough
