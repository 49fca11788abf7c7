import ReadThrough.Proofs.Flights.Stages
import Mathlib.Data.List.Perm.Basic
import Mathlib.Data.Multiset.Filter
/-!
# Proofs: the work under way

The work of all running executions, as a multiset: a start adds work to it, a poll takes a step of
one piece of work or finishes it, and an execution that is abandoned gives its work up. Nothing else
changes it.
-/

namespace ReadThrough

variable {α β K W T σ : Type}

/-! ## One more or none -/

/-- A collection with one more element or none. -/
def held (one : Option α) (rest : Multiset α) : Multiset α := one.elim rest (· ::ₘ rest)

theorem held_some (a : α) (rest : Multiset α) : held (some a) rest = a ::ₘ rest := rfl

/-- The order in which elements are added does not matter. -/
theorem held_comm (one one' : Option α) (rest : Multiset α) :
    held one (held one' rest) = held one' (held one rest) := by
  cases one with
  | none => rfl
  | some a =>
    cases one' with
    | none => rfl
    | some a' => exact Multiset.cons_swap a a' rest

theorem held_add (one : Option α) (rest rest' : Multiset α) :
    held one rest + rest' = held one (rest + rest') := by
  cases one with
  | none => rfl
  | some a => exact Multiset.cons_add a rest rest'

theorem add_held (one : Option α) (rest rest' : Multiset α) :
    rest' + held one rest = held one (rest' + rest) := by
  rw [add_comm, held_add, add_comm]

theorem le_held (one : Option α) (rest : Multiset α) : rest ≤ held one rest := by
  cases one with
  | none => exact le_rfl
  | some a => exact Multiset.le_cons_self rest a

/-- A partial map of a collection with one more element has the image of that element more, if it
has one. -/
theorem filterMap_held (g : α → Option β) (one : Option α) (rest : Multiset α) :
    (held one rest).filterMap g = held (one.bind g) (rest.filterMap g) := by
  cases one with
  | none => rfl
  | some a =>
    rw [held_some, Multiset.filterMap_cons, Option.bind_some]
    cases g a with
    | none => exact zero_add _
    | some b => exact Multiset.singleton_add b _

theorem coe_filterMap_cons (g : α → Option β) (a : α) (as : List α) :
    ((a :: as).filterMap g : Multiset β) = held (g a) (as.filterMap g : List β) := by
  rw [List.filterMap_cons]
  cases g a with
  | none => rfl
  | some b => rfl

/-! ## Work -/

/-- The work of an execution that is not finished. -/
def Stage.work? : Stage W T → Option W
  | .running work => some work
  | .settled _ | .abandoned => none

/-- After a poll an execution has the work that is left, if any is. -/
theorem Stage.work?_ofProgress (progress : Progress W (Outcome T)) :
    (Stage.ofProgress progress).work? = progress.rest? := by
  cases progress with
  | waiting rest => rfl
  | finished outcome => rfl

namespace Flights

/-- The work of the executions that are not finished. -/
def works (f : Flights K W T) : Multiset W := (f.executions.filterMap (·.stage.work?) : List W)

/-- The work of a running execution is under way. -/
theorem mem_works {f : Flights K W T} {e : Nat} {x : Execution K W T} {work : W}
    (hx : f.executions[e]? = some x) (hs : x.stage = .running work) : work ∈ f.works := by
  refine Multiset.mem_coe.mpr (List.mem_filterMap.mpr ⟨x, List.mem_of_getElem? hx, ?_⟩)
  rw [hs]
  rfl

/-- A replacement changes the work of one execution. -/
theorem works_set {f : Flights K W T} {e : Nat} {x : Execution K W T}
    (hx : f.executions[e]? = some x) :
    ∃ rest, f.works = held x.stage.work? rest ∧
      ∀ x', (f.set e x').works = held x'.stage.work? rest := by
  obtain ⟨hlt, hget⟩ := List.getElem?_eq_some_iff.mp hx
  refine ⟨((f.executions.eraseIdx e).filterMap (·.stage.work?) : List W), ?_, fun x' => ?_⟩
  · have hperm := (List.getElem_cons_eraseIdx_perm hlt).symm.filterMap (·.stage.work?)
    rw [works, Multiset.coe_eq_coe.mpr hperm, coe_filterMap_cons, hget]
  · have hperm := (List.set_perm_cons_eraseIdx hlt x').filterMap (·.stage.work?)
    rw [works, set, Multiset.coe_eq_coe.mpr hperm, coe_filterMap_cons]

/-- A replacement that keeps the stage of its execution keeps all work. -/
theorem works_set_same {f : Flights K W T} {e : Nat} {x y : Execution K W T}
    (hx : f.executions[e]? = some x) (h : y.stage = x.stage) : (f.set e y).works = f.works := by
  obtain ⟨rest, hworks, hset⟩ := works_set hx
  rw [hset, hworks, h]

variable [DecidableEq K]

/-- To release an execution leaves the work under way as it is. -/
theorem works_release (f : Flights K W T) (e : Nat) : (f.release e).1.works = f.works := by
  unfold release
  split
  · rfl
  · rename_i x hx
    have hset := works_set_same (y := { x with released := true }) hx rfl
    simp only
    repeat' split
    all_goals first | rfl | exact hset

/-- A call for a key starts work or leaves the work as it is. -/
theorem works_enter (f : Flights K W T) (key : K) (work : W) :
    (f.enter key work).2.1.works = f.works ∨ (f.enter key work).2.1.works = work ::ₘ f.works := by
  unfold enter
  cases hjoin : f.joinable? key with
  | none =>
    refine .inr ?_
    have hstart : (f.start key work).2.1.works =
        ((f.executions ++ [_]).filterMap _ : List W) := rfl
    simp only
    rw [hstart, List.filterMap_append, ← Multiset.coe_add, add_comm]
    rfl
  | some found =>
    obtain ⟨e, x⟩ := found
    exact .inl (works_set_same (executions_of_joinable? hjoin) rfl)

/-- Whoever leaves takes the work along that is abandoned. -/
theorem works_leave (f : Flights K W T) (e : Nat) :
    f.works = held (f.leave e).1 (f.leave e).2.1.works := by
  unfold leave detach
  cases hx : f.executions[e]? with
  | none => rfl
  | some x =>
    cases hs : x.stage with
    | running work =>
      obtain ⟨rest, hworks, hset⟩ := works_set hx
      by_cases hn : x.callers - 1 = 0
      · simp only [hs, hn, if_true, works_release]
        rw [hset, hworks, hs]
        rfl
      · simp only [hs, hn, if_false]
        rw [hset, hworks, hs]
        rfl
    | settled outcome =>
      simp only [hs]
      exact (works_set_same hx hs.symm).symm
    | abandoned =>
      simp only [hs]
      exact (works_set_same hx hs.symm).symm

/-- A poll takes a step of the work of one execution. -/
theorem Polls.works {step : W → σ → Progress W (Outcome T) × σ} {f f' : Flights K W T} {e : Nat}
    {s s' : σ} {answer : Option (Outcome T)} {ns : List Notice}
    (h : f.Polls step e s (answer, f', s', ns)) {stage stage' : Stage W T}
    (hstage : f.stage? e = some stage) (hstage' : f'.stage? e = some stage') :
    ∃ rest, f.works = held stage.work? rest ∧ f'.works = held stage'.work? rest := by
  cases h with
  | waits hx hs hw =>
    obtain ⟨rest, hworks, hset⟩ := works_set hx
    rw [stage?_of_getElem? hx, Option.some.injEq] at hstage
    rw [stage?_set_self hx, Option.some.injEq] at hstage'
    exact ⟨rest, hstage ▸ hworks, hstage' ▸ hset _⟩
  | settles hx hs hw =>
    obtain ⟨rest, hworks, hset⟩ := works_set hx
    rw [stage?_of_getElem? hx, Option.some.injEq] at hstage
    rw [stage?_release, stage?_set_self hx, Option.some.injEq] at hstage'
    exact ⟨rest, hstage ▸ hworks, by rw [works_release, hset, ← hstage']⟩
  | receives hx hs =>
    obtain ⟨rest, hworks, hset⟩ := works_set hx
    rw [stage?_of_getElem? hx, Option.some.injEq] at hstage
    rw [stage?_set_self hx, Option.some.injEq] at hstage'
    exact ⟨rest, hstage ▸ hworks, hstage' ▸ hset _⟩

/-- Whatever work there is after a poll was there before, or a step of some work has left it. -/
theorem mem_works_poll (step : W → σ → Progress W (Outcome T) × σ) (f : Flights K W T) (e : Nat)
    (s : σ) {work : W} (h : work ∈ (f.poll step e s).2.1.works) :
    work ∈ f.works ∨ ∃ before ∈ f.works, (step before s).1 = .waiting work := by
  rcases poll_cases step f e s with ⟨-, hidle⟩ | hpolls
  · rw [hidle] at h
    exact .inl h
  · rcases hpoll : f.poll step e s with ⟨answer, f', s', ns⟩
    rw [hpoll] at hpolls h
    obtain ⟨stage, stage', hstage, hstage', hadvances⟩ := hpolls.advances
    obtain ⟨rest, hworks, hworks'⟩ := hpolls.works hstage hstage'
    have hrest : work ∈ rest → work ∈ f.works := by
      intro hmem
      rw [hworks]
      exact Multiset.mem_of_le (le_held _ _) hmem
    simp only [hworks'] at h
    cases hadvances with
    | receives => exact .inl (hrest h)
    | @works before progress _ hstep =>
      rw [Stage.work?_ofProgress] at h
      cases progress with
      | finished outcome => exact .inl (hrest h)
      | waiting after =>
        rcases Multiset.mem_cons.mp h with rfl | h
        · refine .inr ⟨before, ?_, by rw [hstep]⟩
          rw [hworks]
          exact Multiset.mem_cons_self _ _
        · exact .inl (hrest h)

end Flights

end ReadThrough
