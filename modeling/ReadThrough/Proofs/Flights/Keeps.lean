import ReadThrough.Proofs.Flights.Stages
/-!
# Proofs: what every operation keeps

Whatever state the registry is in, no operation forgets an execution, changes its key or takes the
release of an execution back. If every entry of the registry names an execution for its key
(`Labelled`), then it does so after every operation.
-/

namespace ReadThrough

variable {K W T σ : Type}

namespace Flights

/-- Executions keep their places and keys, and stay released. -/
def Keeps (f f' : Flights K W T) : Prop :=
  ∀ ⦃e : Nat⦄ ⦃x : Execution K W T⦄, f.executions[e]? = some x →
    ∃ y, f'.executions[e]? = some y ∧ y.key = x.key ∧ (x.released = true → y.released = true)

variable {f f' f'' : Flights K W T} {e : Nat} {x : Execution K W T}

theorem Keeps.refl (f : Flights K W T) : f.Keeps f := fun _ x hx => ⟨x, hx, rfl, id⟩

/-- What keeps its place through two stretches keeps it through both. -/
theorem Keeps.trans (h : f.Keeps f') (h' : f'.Keeps f'') : f.Keeps f'' := by
  intro e x hx
  obtain ⟨y, hy, hkey, hrel⟩ := h hx
  obtain ⟨z, hz, hkey', hrel'⟩ := h' hy
  exact ⟨z, hz, hkey'.trans hkey, fun hx => hrel' (hrel hx)⟩

/-- No execution is forgotten. -/
theorem Keeps.length_le (h : f.Keeps f') : f.executions.length ≤ f'.executions.length := by
  by_contra hlt
  have hx := List.getElem?_eq_getElem (l := f.executions) (not_le.mp hlt)
  obtain ⟨y, hy, -⟩ := h hx
  exact absurd (List.getElem?_eq_some_iff.mp hy).1 (lt_irrefl _)

/-- An execution may change as long as it keeps its key and stays released. -/
theorem keeps_set (hx : f.executions[e]? = some x) (y : Execution K W T) (hkey : y.key = x.key)
    (hrel : x.released = true → y.released = true) : f.Keeps (f.set e y) := by
  intro e' z hz
  by_cases he : e' = e
  · subst he
    rw [hx] at hz
    cases hz
    exact ⟨y, executions_set_self hx, hkey, hrel⟩
  · exact ⟨z, by rwa [executions_set_of_ne y he], rfl, id⟩

/-- A caller that goes away leaves all executions in their places. -/
theorem keeps_detach (f : Flights K W T) (e : Nat) : f.Keeps (f.detach e).2 := by
  unfold detach
  cases hx : f.executions[e]? with
  | none => exact .refl f
  | some x =>
    cases hs : x.stage with
    | running work =>
      simp only [hs]
      split
      · exact keeps_set hx _ rfl id
      · exact keeps_set hx _ rfl id
    | settled outcome =>
      simp only [hs]
      exact keeps_set hx _ rfl id
    | abandoned =>
      simp only [hs]
      exact keeps_set hx _ rfl id

variable [DecidableEq K]

/-- An execution that starts comes after all others. -/
theorem keeps_start (f : Flights K W T) (key : K) (work : W) : f.Keeps (f.start key work).2.1 :=
  fun _ x hx => ⟨x, executions_start_of_lt f key work hx, rfl, id⟩

/-- A call leaves all executions in their places, whether it attaches or starts one. -/
theorem keeps_enter (f : Flights K W T) (key : K) (work : W) : f.Keeps (f.enter key work).2.1 := by
  unfold enter
  cases hjoin : f.joinable? key with
  | none => exact keeps_start f key work
  | some found => exact keeps_set (executions_of_joinable? hjoin) _ rfl id

/-- An execution that has been released is not released again. -/
theorem release_of_released (hx : f.executions[e]? = some x) (hrel : x.released = true) :
    f.release e = (f, []) := by
  simp only [release, hx, hrel, if_true]

/-- A release leaves all executions in their places. -/
theorem keeps_release (f : Flights K W T) (e : Nat) : f.Keeps (f.release e).1 := by
  cases hx : f.executions[e]? with
  | none =>
    have hnothing : (f.release e).1 = f := by simp only [release, hx]
    rw [hnothing]
    exact .refl f
  | some x =>
    cases hrel : x.released with
    | true =>
      rw [release_of_released hx hrel]
      exact .refl f
    | false =>
      intro e' y hy
      rw [release_executions hx hrel]
      exact keeps_set hx { x with released := true } rfl (fun _ => rfl) hy

/-- A poll leaves all executions in their places. -/
theorem keeps_poll (step : W → σ → Progress W (Outcome T) × σ) (f : Flights K W T) (e : Nat)
    (s : σ) : f.Keeps (f.poll step e s).2.1 := by
  rcases poll_cases step f e s with ⟨-, hidle⟩ | hpolls
  · rw [hidle]
    exact .refl f
  · generalize f.poll step e s = polled at hpolls
    cases hpolls with
    | waits hx hs hw => exact keeps_set hx _ rfl id
    | @settles x work outcome s' hx hs hw =>
      have hset :=
        keeps_set hx { x with stage := .settled outcome, callers := x.callers - 1 } rfl id
      exact hset.trans (keeps_release _ e)
    | receives hx hs => exact keeps_set hx _ rfl id

/-- A departure leaves all executions in their places. -/
theorem keeps_leave (f : Flights K W T) (e : Nat) : f.Keeps (f.leave e).2.1 := by
  have hdetach := f.keeps_detach e
  unfold leave
  rcases hleft : f.detach e with ⟨_ | work, f'⟩ <;> rw [hleft] at hdetach
  · exact hdetach
  · exact hdetach.trans (f'.keeps_release e)

/-! ## Entries for their keys -/

/-- Every entry of the registry names an execution for its key. -/
def Labelled (f : Flights K W T) : Prop :=
  ∀ ⦃key : K⦄ ⦃ticket : Ticket⦄, f.registry.get? key = some ticket →
    ∃ x, f.executions[ticket.execution]? = some x ∧ x.key = key

/-- A registry of running executions names them for their keys. -/
theorem Registered.labelled (h : f.Registered) : f.Labelled := by
  intro key ticket hget
  obtain ⟨-, x, hx, hkey, -⟩ := (h key ticket).mp hget
  exact ⟨x, hx, hkey⟩

/-- Entries that were there before still name executions for their keys. -/
theorem Labelled.kept (h : f.Labelled) (hkeeps : f.Keeps f')
    (hentries : ∀ {key ticket}, f'.registry.get? key = some ticket →
      f.registry.get? key = some ticket) : f'.Labelled := by
  intro key ticket hget
  obtain ⟨x, hx, hkey⟩ := h (hentries hget)
  obtain ⟨y, hy, hsame, -⟩ := hkeeps hx
  exact ⟨y, hy, hsame.trans hkey⟩

/-- A release adds no entry. -/
theorem get?_of_release {key : K} {ticket : Ticket}
    (h : (f.release e).1.registry.get? key = some ticket) :
    f.registry.get? key = some ticket := by
  unfold release at h
  cases hx : f.executions[e]? with
  | none =>
    rw [hx] at h
    exact h
  | some x =>
    simp only [hx] at h
    split at h
    · exact h
    · split at h
      · split at h
        · by_cases hkey : key = x.key
          · rw [hkey, Table.get?_erase_self] at h
            cases h
          · rw [Table.get?_erase_of_ne _ hkey] at h
            exact h
        · exact h
      · exact h

/-- A call comes to an execution for its key. -/
theorem Labelled.enter (h : f.Labelled) (key : K) (work : W) :
    (f.enter key work).2.1.Labelled ∧
      ∃ x, (f.enter key work).2.1.executions[(f.enter key work).1]? = some x ∧ x.key = key := by
  have hkeeps := f.keeps_enter key work
  unfold Flights.enter at hkeeps ⊢
  cases hjoin : f.joinable? key with
  | some found =>
    obtain ⟨e, x⟩ := found
    rw [hjoin] at hkeeps
    have hx := executions_of_joinable? hjoin
    refine ⟨h.kept hkeeps id, _, executions_set_self hx, ?_⟩
    -- The execution is the one that the entry of the key names.
    unfold joinable? at hjoin
    split at hjoin
    · cases hjoin
    · rename_i ticket hget
      obtain ⟨y, hy, hkey⟩ := h hget
      rw [hy] at hjoin
      simp only [Option.ite_none_right_eq_some, Option.some.injEq, Prod.mk.injEq] at hjoin
      rw [← hjoin.2.2]
      exact hkey
  | none =>
    rw [hjoin] at hkeeps
    refine ⟨fun key' ticket hget => ?_, _, executions_start_self f key work, rfl⟩
    by_cases hkey : key' = key
    · subst hkey
      have hnew : some (⟨flightNumber f.executions.length, f.executions.length⟩ : Ticket) =
          some ticket := (Table.get?_insert_self _ _ _).symm.trans hget
      cases hnew
      exact ⟨_, executions_start_self f key' work, rfl⟩
    · have hold : f.registry.get? key' = some ticket :=
        (Table.get?_insert_of_ne _ _ hkey).symm.trans hget
      obtain ⟨x, hx, hlabel⟩ := h hold
      exact ⟨x, executions_start_of_lt f key work hx, hlabel⟩

/-- A poll adds no entry to the registry. -/
theorem Labelled.poll (h : f.Labelled) (step : W → σ → Progress W (Outcome T) × σ) (e : Nat)
    (s : σ) : (f.poll step e s).2.1.Labelled := by
  refine h.kept (f.keeps_poll step e s) fun {key ticket} hget => ?_
  rcases poll_cases step f e s with ⟨-, hidle⟩ | hpolls
  · rwa [hidle] at hget
  · generalize f.poll step e s = polled at hpolls hget
    cases hpolls with
    | waits | receives => exact hget
    | @settles x work outcome s' =>
      have hset := get?_of_release hget
      exact hset

/-- A departure adds no entry to the registry. -/
theorem Labelled.leave (h : f.Labelled) (e : Nat) : (f.leave e).2.1.Labelled := by
  refine h.kept (f.keeps_leave e) fun {key ticket} hget => ?_
  have hdetach : (f.detach e).2.registry = f.registry := by
    unfold detach
    cases f.executions[e]? with
    | none => rfl
    | some x =>
      simp only
      split
      · split <;> rfl
      · rfl
  rw [← hdetach]
  unfold Flights.leave at hget
  rcases hleft : f.detach e with ⟨_ | work, f'⟩ <;> rw [hleft] at hget
  · exact hget
  · exact get?_of_release hget

end Flights

end ReadThrough
