import ReadThrough.Proofs.Flights.Stages
/-!
# Proofs: executions without a registry

The same executions with and without a registry (`WithoutRegistry`). Callers poll and leave them
alike: the registry is only ever looked at to take an execution off it, which changes nothing that a
caller can see. Without a registry a release is not noticed at all, however often and whenever it is
made.
-/

namespace ReadThrough

variable {K W T σ : Type}

/-- An execution as its callers know it: whether it has been released is not for them to see. -/
def Execution.spent (x : Execution K W T) : Execution K W T := { x with released := true }

namespace Flights

/-- The executions of `f`, without a registry. -/
structure WithoutRegistry (f f' : Flights K W T) : Prop where
  registry : f'.registry = Table.empty
  executions : f'.executions.map Execution.spent = f.executions.map Execution.spent

variable {f f' : Flights K W T} {e : Nat} {x x' : Execution K W T}

/-- When the registry goes away the executions stay. -/
theorem withoutRegistry_close (f : Flights K W T) : f.WithoutRegistry f.close := ⟨rfl, rfl⟩

/-- An execution may be replaced on both sides, released or not. -/
theorem WithoutRegistry.set (h : f.WithoutRegistry f') (hx : x'.spent = x.spent) :
    (f.set e x).WithoutRegistry (f'.set e x') where
  registry := h.registry
  executions := by
    show (f'.executions.set e x').map _ = (f.executions.set e x).map _
    rw [List.map_set, List.map_set, h.executions, hx]

/-- Each execution is there on both sides. -/
theorem WithoutRegistry.cases (h : f.WithoutRegistry f') (e : Nat) :
    f.executions[e]? = none ∧ f'.executions[e]? = none ∨
      ∃ x released, f.executions[e]? = some x ∧
        f'.executions[e]? = some { x with released := released } := by
  have hsame : (f'.executions[e]?).map Execution.spent =
      (f.executions[e]?).map Execution.spent := by
    rw [← List.getElem?_map, h.executions, List.getElem?_map]
  cases hx : f.executions[e]? with
  | none =>
    rw [hx, Option.map_none, Option.map_eq_none_iff] at hsame
    exact .inl ⟨rfl, hsame⟩
  | some x =>
    rw [hx, Option.map_some, Option.map_eq_some_iff] at hsame
    obtain ⟨x', hx', hspent⟩ := hsame
    obtain ⟨key, callers, stage, released⟩ := x
    obtain ⟨key', callers', stage', released'⟩ := x'
    cases hspent
    exact .inr ⟨_, released', rfl, hx'⟩

/-! ## Releases -/

variable [DecidableEq K]

/-- A release changes nothing that callers can see. -/
theorem spent_release (f : Flights K W T) (e : Nat) :
    (f.release e).1.executions.map Execution.spent = f.executions.map Execution.spent := by
  cases hx : f.executions[e]? with
  | none => simp [release, hx]
  | some x =>
    by_cases hrel : x.released = true
    · simp [release, hx, hrel]
    · have hlt := (List.getElem?_eq_some_iff.mp hx).1
      have hself : (f.executions.map Execution.spent)[e]? = some x.spent := by
        rw [List.getElem?_map, hx, Option.map_some]
      rw [release_executions hx (Bool.not_eq_true _ ▸ hrel)]
      show (f.executions.set e _).map Execution.spent = _
      rw [List.map_set]
      refine List.ext_getElem? fun e' => ?_
      by_cases he : e = e'
      · subst he
        rw [List.getElem?_set_self (by simpa using hlt), hself]
        rfl
      · rw [List.getElem?_set_ne he]

/-- Where there is no registry, nothing is taken off it. -/
theorem release_of_empty (h : f.registry = Table.empty) (e : Nat) :
    (f.release e).1.registry = Table.empty ∧ (f.release e).2 = [] := by
  unfold release
  split
  · exact ⟨h, rfl⟩
  · split
    · exact ⟨h, rfl⟩
    · simp only [set, h, Table.get?_empty, and_self]

/-- Without a registry a release does nothing that a caller could see. -/
theorem WithoutRegistry.release_right (h : f.WithoutRegistry f') (e : Nat) :
    f.WithoutRegistry (f'.release e).1 :=
  ⟨(release_of_empty h.registry e).1, (spent_release f' e).trans h.executions⟩

/-- A release without a registry only notes that it was made. -/
theorem WithoutRegistry.release (h : f.WithoutRegistry f') (e : Nat) :
    (f.release e).1.WithoutRegistry (f'.release e).1 where
  registry := (release_of_empty h.registry e).1
  executions := by rw [spent_release, h.executions, spent_release]

/-- The registry can go away right before any release: between the settling of an execution and its
release, or between the two steps of a departure. -/
theorem withoutRegistry_release_close (f : Flights K W T) (e : Nat) :
    (f.release e).1.WithoutRegistry (f.close.release e).1 ∧ (f.close.release e).2 = [] :=
  ⟨f.withoutRegistry_close.release e, (release_of_empty rfl e).2⟩

/-! ## Polls and departures -/

/-- A poll answers the same without a registry, but tells of no release. -/
theorem WithoutRegistry.poll (h : f.WithoutRegistry f') (step : W → σ → Progress W (Outcome T) × σ)
    (e : Nat)
    (s : σ) : ∃ f₁', f'.poll step e s = ((f.poll step e s).1, f₁', (f.poll step e s).2.2.1, []) ∧
      (f.poll step e s).2.1.WithoutRegistry f₁' := by
  rcases h.cases e with ⟨hx, hx'⟩ | ⟨x, released, hx, hx'⟩
  · simp only [Flights.poll, hx, hx']
    exact ⟨f', rfl, h⟩
  · simp only [Flights.poll, hx, hx']
    cases hs : x.stage with
    | abandoned => exact ⟨f', rfl, h⟩
    | settled outcome => exact ⟨_, rfl, h.set rfl⟩
    | running work =>
      rcases hw : step work s with ⟨rest | outcome, s'⟩ <;> simp only [hw]
      · exact ⟨_, rfl, h.set rfl⟩
      · have hset : WithoutRegistry
            (f.set e { x with stage := .settled outcome, callers := x.callers - 1 })
            (f'.set e { x with
              stage := .settled outcome, callers := x.callers - 1, released := released }) :=
          h.set rfl
        exact ⟨_, by rw [← (release_of_empty hset.registry e).2], hset.release e⟩

omit [DecidableEq K] in
/-- A caller goes away alike without a registry. -/
theorem WithoutRegistry.detach (h : f.WithoutRegistry f') (e : Nat) :
    (f'.detach e).1 = (f.detach e).1 ∧ (f.detach e).2.WithoutRegistry (f'.detach e).2 := by
  rcases h.cases e with ⟨hx, hx'⟩ | ⟨x, released, hx, hx'⟩
  · simp only [Flights.detach, hx, hx']
    exact ⟨trivial, h⟩
  · simp only [Flights.detach, hx, hx']
    cases hs : x.stage with
    | abandoned => exact ⟨rfl, h.set rfl⟩
    | settled outcome => exact ⟨rfl, h.set rfl⟩
    | running work =>
      by_cases hlast : x.callers - 1 = 0
      · simp only [if_pos hlast]
        exact ⟨trivial, h.set rfl⟩
      · simp only [if_neg hlast]
        exact ⟨trivial, h.set rfl⟩

/-- A departure answers the same without a registry, but tells of no release. -/
theorem WithoutRegistry.leave (h : f.WithoutRegistry f') (e : Nat) :
    ∃ f₁', f'.leave e = ((f.leave e).1, f₁', []) ∧ (f.leave e).2.1.WithoutRegistry f₁' := by
  obtain ⟨hwork, hdetach⟩ := h.detach e
  unfold Flights.leave
  rcases hf : f.detach e with ⟨_ | work, f₁⟩ <;> rcases hf' : f'.detach e with ⟨_ | work', f₁'⟩ <;>
    rw [hf, hf'] at hwork hdetach
  · exact ⟨f₁', rfl, hdetach⟩
  · cases hwork
  · cases hwork
  · cases hwork
    exact ⟨_, by rw [← (release_of_empty hdetach.registry e).2], hdetach.release e⟩

end Flights

end ReadThrough
