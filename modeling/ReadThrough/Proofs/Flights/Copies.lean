import ReadThrough.Proofs.Flights.Keeps
/-!
# Proofs: the executions of some keys

A registry that has the executions of some keys and no others (`Copies`), at places of its own. What
is done to an execution of these keys, or to their entries, can be done in the copy as well, and
answers the same there; what is done to the executions of other keys leaves the copy alone.
-/

namespace ReadThrough

variable {K W T σ : Type}

/-- Whether a notice says that a caller attached to an execution, or started one. -/
def Notice.attached? : Notice → Option Bool
  | .started _ _ => some false
  | .attached _ _ => some true
  | .removed _ _ => none

theorem Notice.attached?_of_removed? {n : Notice} {e : Nat} (h : n.removed? = some e) :
    n.attached? = none := by
  cases n with
  | removed => rfl
  | started | attached => cases h

namespace Flights

/-- The executions of `f'` are those of `f` for the keys that `owns` picks: `place` says where each
of them is. -/
structure Copies (owns : K → Bool) (place : Nat → Nat) (f f' : Flights K W T) : Prop where
  there : ∀ {e : Nat} {x : Execution K W T}, f.executions[e]? = some x → owns x.key = true →
    f'.executions[place e]? = some x
  back : ∀ {e' : Nat} {x : Execution K W T}, f'.executions[e']? = some x →
    owns x.key = true ∧ ∃ e, place e = e' ∧ f.executions[e]? = some x
  apart : ∀ {e₁ e₂ : Nat} {x₁ x₂ : Execution K W T}, f.executions[e₁]? = some x₁ →
    owns x₁.key = true → f.executions[e₂]? = some x₂ → owns x₂.key = true →
    place e₁ = place e₂ → e₁ = e₂

variable {owns : K → Bool} {place : Nat → Nat} {f f' : Flights K W T} {e : Nat}
  {x y : Execution K W T}

/-- Without executions there is nothing to copy. -/
theorem copies_empty (owns : K → Bool) (place : Nat → Nat) :
    Copies owns place (empty : Flights K W T) empty := ⟨nofun, nofun, nofun⟩

/-- The registries do not matter for this. -/
theorem Copies.of_executions {g g' : Flights K W T} (h : Copies owns place f f')
    (hf : g.executions = f.executions) (hf' : g'.executions = f'.executions) :
    Copies owns place g g' := by
  obtain ⟨registry, executions⟩ := g
  obtain ⟨registry', executions'⟩ := g'
  cases hf
  cases hf'
  exact ⟨h.there, h.back, h.apart⟩

/-! ## Replacing an execution -/

/-- An execution of one of the keys is changed in both flights. -/
theorem Copies.set_both (h : Copies owns place f f') (hx : f.executions[e]? = some x)
    (hown : owns x.key = true) (hkey : y.key = x.key) :
    Copies owns place (f.set e y) (f'.set (place e) y) := by
  have hx' := h.there hx hown
  have hold : ∀ {e' : Nat} {z : Execution K W T}, (f.set e y).executions[e']? = some z →
      owns z.key = true → ∃ z', f.executions[e']? = some z' ∧ owns z'.key = true := by
    intro e' z hz hz_own
    rcases executions_set hx hz with ⟨rfl, rfl⟩ | ⟨-, hz⟩
    · exact ⟨x, hx, hown⟩
    · exact ⟨z, hz, hz_own⟩
  refine ⟨?_, ?_, ?_⟩
  · intro e' z hz hz_own
    rcases executions_set hx hz with ⟨rfl, rfl⟩ | ⟨hne, hz⟩
    · exact executions_set_self hx'
    · have hplace : place e' ≠ place e := fun hsame => hne (h.apart hz hz_own hx hown hsame)
      rw [executions_set_of_ne y hplace]
      exact h.there hz hz_own
  · intro e' z hz
    rcases executions_set hx' hz with ⟨rfl, rfl⟩ | ⟨hne, hz⟩
    · exact ⟨hkey ▸ hown, e, rfl, executions_set_self hx⟩
    · obtain ⟨hz_own, e'', rfl, hold_z⟩ := h.back hz
      have he : e'' ≠ e := fun hsame => hne (congrArg place hsame)
      exact ⟨hz_own, e'', rfl, by rwa [executions_set_of_ne y he]⟩
  · intro e₁ e₂ x₁ x₂ h₁ hown₁ h₂ hown₂ hsame
    obtain ⟨y₁, hy₁, hy₁_own⟩ := hold h₁ hown₁
    obtain ⟨y₂, hy₂, hy₂_own⟩ := hold h₂ hown₂
    exact h.apart hy₁ hy₁_own hy₂ hy₂_own hsame

/-- An execution of another key is changed, which has no copy. -/
theorem Copies.set_stranger (h : Copies owns place f f') (hx : f.executions[e]? = some x)
    (hother : owns x.key = false) (hkey : y.key = x.key) : Copies owns place (f.set e y) f' := by
  have hold : ∀ {e' : Nat} {z : Execution K W T}, (f.set e y).executions[e']? = some z →
      owns z.key = true → f.executions[e']? = some z := by
    intro e' z hz hz_own
    rcases executions_set hx hz with ⟨rfl, rfl⟩ | ⟨-, hz⟩
    · rw [hkey, hother] at hz_own
      cases hz_own
    · exact hz
  refine ⟨fun hz hz_own => h.there (hold hz hz_own) hz_own, ?_, ?_⟩
  · intro e' z hz
    obtain ⟨hz_own, e'', rfl, hold_z⟩ := h.back hz
    have he : e'' ≠ e := by
      rintro rfl
      rw [hx] at hold_z
      cases hold_z
      rw [hother] at hz_own
      cases hz_own
    exact ⟨hz_own, e'', rfl, by rwa [executions_set_of_ne y he]⟩
  · intro e₁ e₂ x₁ x₂ h₁ hown₁ h₂ hown₂
    exact h.apart (hold h₁ hown₁) hown₁ (hold h₂ hown₂) hown₂

variable [DecidableEq K]

/-- An execution that stops running is released, here and there. -/
theorem Copies.release_both (h : Copies owns place f f') (hx : f.executions[e]? = some x)
    (hown : owns x.key = true) (hkey : y.key = x.key) (hrel : y.released = false) :
    Copies owns place ((f.set e y).release e).1 ((f'.set (place e) y).release (place e)).1 := by
  have hboth : Copies owns place (f.set e { y with released := true })
      (f'.set (place e) { y with released := true }) := h.set_both hx hown hkey
  refine hboth.of_executions ?_ ?_
  · rw [release_executions (executions_set_self hx) hrel, set_set]
  · rw [release_executions (executions_set_self (h.there hx hown)) hrel, set_set]

/-- An execution of another key is released, which has no copy. -/
theorem Copies.release_stranger (h : Copies owns place f f') (hx : f.executions[e]? = some x)
    (hother : owns x.key = false) (hkey : y.key = x.key) (hrel : y.released = false) :
    Copies owns place ((f.set e y).release e).1 f' := by
  have hset : Copies owns place (f.set e { y with released := true }) f' :=
    h.set_stranger hx hother hkey
  refine hset.of_executions ?_ rfl
  rw [release_executions (executions_set_self hx) hrel, set_set]

/-! ## Calls -/

/-- An execution of one of the keys starts in both flights, and gets its place. -/
theorem Copies.start_both (h : Copies owns place f f') {key : K} (hown : owns key = true)
    (work : W) :
    Copies owns (Function.update place f.executions.length f'.executions.length)
      (f.start key work).2.1 (f'.start key work).2.1 := by
  have hold : ∀ {e : Nat} {x : Execution K W T}, f.executions[e]? = some x →
      Function.update place f.executions.length f'.executions.length e = place e := by
    intro e x hx
    exact Function.update_of_ne (List.getElem?_eq_some_iff.mp hx).1.ne _ _
  have hlt : ∀ {e : Nat} {x : Execution K W T}, f.executions[e]? = some x → owns x.key = true →
      place e < f'.executions.length := by
    intro e x hx hx_own
    exact (List.getElem?_eq_some_iff.mp (h.there hx hx_own)).1
  refine ⟨?_, ?_, ?_⟩
  · intro e x hx hx_own
    rcases executions_start_cases hx with hx | ⟨rfl, rfl⟩
    · rw [hold hx]
      exact executions_start_of_lt f' key work (h.there hx hx_own)
    · rw [Function.update_self]
      exact executions_start_self f' key work
  · intro e' x hx
    rcases executions_start_cases hx with hx | ⟨rfl, rfl⟩
    · obtain ⟨hx_own, e, hplace, hold_x⟩ := h.back hx
      exact ⟨hx_own, e, (hold hold_x).trans hplace, executions_start_of_lt f key work hold_x⟩
    · exact ⟨hown, _, Function.update_self .., executions_start_self f key work⟩
  · intro e₁ e₂ x₁ x₂ h₁ hown₁ h₂ hown₂ hsame
    rcases executions_start_cases h₁ with h₁ | ⟨rfl, rfl⟩ <;>
      rcases executions_start_cases h₂ with h₂ | ⟨rfl, rfl⟩
    · rw [hold h₁, hold h₂] at hsame
      exact h.apart h₁ hown₁ h₂ hown₂ hsame
    · rw [hold h₁, Function.update_self] at hsame
      exact absurd hsame (hlt h₁ hown₁).ne
    · rw [hold h₂, Function.update_self] at hsame
      exact absurd hsame.symm (hlt h₂ hown₂).ne
    · rfl

/-- An execution of another key starts, which has no copy. -/
theorem Copies.start_stranger (h : Copies owns place f f') {key : K} (hother : owns key = false)
    (work : W) : Copies owns place (f.start key work).2.1 f' := by
  have hold : ∀ {e : Nat} {x : Execution K W T}, (f.start key work).2.1.executions[e]? = some x →
      owns x.key = true → f.executions[e]? = some x := by
    intro e x hx hx_own
    rcases executions_start_cases hx with hx | ⟨rfl, rfl⟩
    · exact hx
    · rw [hother] at hx_own
      cases hx_own
  refine ⟨fun hx hx_own => h.there (hold hx hx_own) hx_own, ?_, ?_⟩
  · intro e' x hx
    obtain ⟨hx_own, e, rfl, hold_x⟩ := h.back hx
    exact ⟨hx_own, e, rfl, executions_start_of_lt f key work hold_x⟩
  · intro e₁ e₂ x₁ x₂ h₁ hown₁ h₂ hown₂
    exact h.apart (hold h₁ hown₁) hown₁ (hold h₂ hown₂) hown₂

section Enter

variable {waiting waiting' : Nat → Nat} {key : K}

/-- A call for one of the keys attaches in the copy as well, or starts there as well. -/
theorem Copies.enter_both (h : Copies owns place f f') (ht : f.Tracked waiting)
    (hr : f.Registered) (ht' : f'.Tracked waiting') (hr' : f'.Registered)
    (hown : owns key = true) (work : W) :
    ∃ place', (∀ e < f.executions.length, place' e = place e) ∧
      place' (f.enter key work).1 = (f'.enter key work).1 ∧
      (f'.enter key work).2.2.attached? = (f.enter key work).2.2.attached? ∧
      Copies owns place' (f.enter key work).2.1 (f'.enter key work).2.1 := by
  rcases enter_cases ht hr key work with ⟨e, x, hx, rfl, hrun, henter⟩ | ⟨hfree, henter⟩
  · have hjoin : f'.joinable? x.key = some (place e, x) :=
      (joinable?_eq_some_iff ht' hr').mpr ⟨h.there hx hown, rfl, hrun⟩
    have henter' : f'.enter x.key work = (place e,
        f'.set (place e) { x with callers := x.callers + 1 }, .attached (place e) f'.ongoing) := by
      simp only [enter, hjoin]
    rw [henter, henter']
    exact ⟨place, fun _ _ => rfl, rfl, rfl, h.set_both hx hown rfl⟩
  · have hjoin : f'.joinable? key = none := by
      by_contra hsome
      obtain ⟨⟨e', x⟩, hsome⟩ := Option.ne_none_iff_exists'.mp hsome
      obtain ⟨hx, hkey, hrun⟩ := (joinable?_eq_some_iff ht' hr').mp hsome
      obtain ⟨-, e, -, hold_x⟩ := h.back hx
      exact hfree hold_x hrun hkey
    have henter' : f'.enter key work = f'.start key work := by simp only [enter, hjoin]
    rw [henter, henter']
    refine ⟨_, fun e he => Function.update_of_ne he.ne _ _, Function.update_self .., rfl, ?_⟩
    exact h.start_both hown work

/-- A call for another key comes to an execution without a copy. -/
theorem Copies.enter_stranger (h : Copies owns place f f') (ht : f.Tracked waiting)
    (hr : f.Registered) (hother : owns key = false) (work : W) :
    Copies owns place (f.enter key work).2.1 f' := by
  rcases enter_cases ht hr key work with ⟨e, x, hx, rfl, -, henter⟩ | ⟨-, henter⟩
  · rw [henter]
    exact h.set_stranger hx hother rfl
  · rw [henter]
    exact h.start_stranger hother work

end Enter

/-! ## Polls -/

section Poll

variable {step : W → σ → Progress W (Outcome T) × σ} {waiting : Nat → Nat} {s s₁ s' : σ}
  {answer : Option (Outcome T)} {f₁ : Flights K W T} {ns : List Notice}

/-- A poll of one of the executions answers the same in the copy, if a step of the work does: `R`
links the states that the work changes. -/
theorem Copies.poll_both (h : Copies owns place f f') (ht : f.Tracked waiting)
    (hx : f.executions[e]? = some x) (hown : owns x.key = true) {R : σ → σ → Prop}
    (hstate : R s s')
    (hstep : ∀ work, x.stage = .running work →
      (step work s').1 = (step work s).1 ∧ R (step work s).2 (step work s').2)
    (hpolls : f.Polls step e s (answer, f₁, s₁, ns)) :
    (f'.poll step (place e) s').1 = answer ∧ R s₁ (f'.poll step (place e) s').2.2.1 ∧
      Copies owns place f₁ (f'.poll step (place e) s').2.1 := by
  have hx' := h.there hx hown
  cases hpolls with
  | @waits x₁ work rest s₁ hx₁ hs hw =>
    obtain rfl : x = x₁ := Option.some.inj (hx.symm.trans hx₁)
    obtain ⟨hprogress, hR⟩ := hstep work hs
    rcases hw' : step work s' with ⟨progress, s₁'⟩
    rw [hw, hw'] at hprogress hR
    cases hprogress
    simp only [poll, hx', hs, hw']
    exact ⟨trivial, hR, h.set_both hx hown rfl⟩
  | @settles x₁ work outcome s₁ hx₁ hs hw =>
    obtain rfl : x = x₁ := Option.some.inj (hx.symm.trans hx₁)
    obtain ⟨hprogress, hR⟩ := hstep work hs
    rcases hw' : step work s' with ⟨progress, s₁'⟩
    rw [hw, hw'] at hprogress hR
    cases hprogress
    have hrel := ht.unreleased hx hs
    simp only [poll, hx', hs, hw']
    exact ⟨trivial, hR, h.release_both hx hown rfl hrel⟩
  | @receives x₁ outcome hx₁ hs =>
    obtain rfl : x = x₁ := Option.some.inj (hx.symm.trans hx₁)
    have hreceives := h.set_both (y := { x with callers := x.callers - 1 }) hx hown rfl
    simp only [poll, hx', hs]
    exact ⟨trivial, hstate, hs ▸ hreceives⟩

/-- An execution of another key is polled, which has no copy. -/
theorem Copies.poll_stranger (h : Copies owns place f f') (ht : f.Tracked waiting)
    (hx : f.executions[e]? = some x) (hother : owns x.key = false)
    (hpolls : f.Polls step e s (answer, f₁, s₁, ns)) : Copies owns place f₁ f' := by
  cases hpolls with
  | waits hx₁ hs hw =>
    cases hx.symm.trans hx₁
    exact h.set_stranger hx hother rfl
  | settles hx₁ hs hw =>
    cases hx.symm.trans hx₁
    have hrel := ht.unreleased hx hs
    exact h.release_stranger hx hother rfl hrel
  | receives hx₁ hs =>
    cases hx.symm.trans hx₁
    exact h.set_stranger hx hother rfl

end Poll

/-! ## Departures -/

section Leave

variable {waiting : Nat → Nat} {left : Option W} {f₁ : Flights K W T} {ns : List Notice}

/-- An execution of one of the keys is left in both flights. -/
theorem Copies.leave_both (h : Copies owns place f f') (ht : f.Tracked waiting)
    (hx : f.executions[e]? = some x) (hown : owns x.key = true)
    (hleaves : f.Leaves e (left, f₁, ns)) :
    (f'.leave (place e)).1 = left ∧ Copies owns place f₁ (f'.leave (place e)).2.1 := by
  have hx' := h.there hx hown
  cases hleaves with
  | @parts x₁ hx₁ hs =>
    obtain rfl : x = x₁ := Option.some.inj (hx.symm.trans hx₁)
    have hparts := h.set_both (y := { x with callers := x.callers - 1 }) hx hown rfl
    cases hstage : x.stage with
    | running work =>
      have hmany := hs (Stage.isRunning_of_eq hstage)
      have hn : ¬ x.callers - 1 = 0 := by omega
      simp only [leave, detach, hx', hstage, hn, if_false]
      exact ⟨trivial, hstage ▸ hparts⟩
    | settled | abandoned =>
      simp only [leave, detach, hx', hstage]
      exact ⟨trivial, hstage ▸ hparts⟩
  | @abandons x₁ work hx₁ hs hn =>
    obtain rfl : x = x₁ := Option.some.inj (hx.symm.trans hx₁)
    have hrel := ht.unreleased hx hs
    simp only [leave, detach, hx', hs, hn, Nat.sub_self, if_true]
    exact ⟨trivial, h.release_both hx hown rfl hrel⟩

/-- An execution of another key is left, which has no copy. -/
theorem Copies.leave_stranger (h : Copies owns place f f') (ht : f.Tracked waiting)
    (hx : f.executions[e]? = some x) (hother : owns x.key = false)
    (hleaves : f.Leaves e (left, f₁, ns)) : Copies owns place f₁ f' := by
  cases hleaves with
  | parts hx₁ hs =>
    cases hx.symm.trans hx₁
    exact h.set_stranger hx hother rfl
  | abandons hx₁ hs hn =>
    cases hx.symm.trans hx₁
    have hrel := ht.unreleased hx hs
    exact h.release_stranger hx hother rfl hrel

end Leave

end Flights

end ReadThrough
