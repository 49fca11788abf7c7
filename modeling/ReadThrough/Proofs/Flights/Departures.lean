import ReadThrough.Proofs.Flights.Keeps
/-!
# Proofs: departures in two steps

The last caller of an execution goes away first, and the execution is released from the registry
later. In between the registry names an execution that nobody can attach to: a call for its key
starts another one in its place, so that several dead executions of one key can wait for their
releases at once. Whatever comes in between (`Turn`, `afterTurns`), a release removes at most the
entry of its own execution, as long as no two executions have the same number.
-/

namespace ReadThrough

variable {K W T σ : Type}

/-- The numbers of the executions that were started tell them apart while there are fewer than
the word can count. -/
theorem flightNumber_inj {e e' : Nat} (he : e < 2 ^ 64) (he' : e' < 2 ^ 64)
    (h : flightNumber e = flightNumber e') : e = e' := by
  have hnat := congrArg UInt64.toNat h
  simp only [flightNumber, UInt64.toNat_ofNat'] at hnat
  omega

/-- The count of callers and the flag fit the stage, whether or not a release is still to come. -/
structure Execution.Fits (x : Execution K W T) : Prop where
  running : x.stage.isRunning = true → 0 < x.callers ∧ x.released = false
  settled : ∀ outcome, x.stage = .settled outcome → x.released = true
  abandoned : x.stage = .abandoned → x.callers = 0

namespace Flights

/-- What callers and the releases of executions do, one at a time. -/
inductive Turn (K W σ : Type) where
  | call (key : K) (work : W)
  /-- A caller polls its execution, while the rest of the world is in some state. -/
  | poll (e : Nat) (s : σ)
  /-- A caller goes away; an execution that it abandons is not yet released. -/
  | detach (e : Nat)
  /-- An execution that does not run any more is released. -/
  | release (e : Nat)

variable [DecidableEq K]

def turn (step : W → σ → Progress W (Outcome T) × σ) (f : Flights K W T) :
    Turn K W σ → Flights K W T
  | .call key work => (f.enter key work).2.1
  | .poll e s => (f.poll step e s).2.1
  | .detach e => (f.detach e).2
  | .release e => if f.isOver e then (f.release e).1 else f

def afterTurns (step : W → σ → Progress W (Outcome T) × σ) (f : Flights K W T)
    (turns : List (Turn K W σ)) : Flights K W T := turns.foldl (turn step) f

/-- An execution that nobody waits for any more has lost its place to a later one. -/
def Superseded (f : Flights K W T) (e : Nat) (x : Execution K W T) : Prop :=
  x.stage = .abandoned ∧ ∃ e' x', e < e' ∧ f.executions[e']? = some x' ∧ x'.key = x.key

/-- The registry names executions that are not released, each under its key and with its number; an
execution that is not released is on it, or superseded. -/
structure Orderly (f : Flights K W T) : Prop where
  fits : ∀ {e : Nat} {x : Execution K W T}, f.executions[e]? = some x → x.Fits
  entries : ∀ {k : K} {t : Ticket}, f.registry.get? k = some t →
    t.number = flightNumber t.execution ∧
      ∃ x, f.executions[t.execution]? = some x ∧ x.key = k ∧ x.released = false
  listed : ∀ {e : Nat} {x : Execution K W T}, f.executions[e]? = some x → x.released = false →
    f.registry.get? x.key = some ⟨flightNumber e, e⟩ ∨ f.Superseded e x

section Orderly

variable {f : Flights K W T} {e : Nat} {x x' : Execution K W T}

/-- A running execution is on the registry, under its key and with its number. -/
theorem Orderly.listed_of_running (h : f.Orderly) (hx : f.executions[e]? = some x)
    (hrun : x.stage.isRunning = true) : f.registry.get? x.key = some ⟨flightNumber e, e⟩ := by
  have hrel := ((h.fits hx).running hrun).2
  rcases h.listed hx hrel with hget | ⟨habandoned, -⟩
  · exact hget
  · rw [habandoned] at hrun
    cases hrun

omit [DecidableEq K] in
/-- An execution that lost its place has lost it whatever becomes of another one. -/
theorem superseded_set (hx : f.executions[e]? = some x) (x' : Execution K W T)
    (hkey : x'.key = x.key) {e' : Nat} {y : Execution K W T} (h : f.Superseded e' y) :
    (f.set e x').Superseded e' y := by
  obtain ⟨habandoned, e'', z, hlt, hz, hkey'⟩ := h
  by_cases he : e'' = e
  · subst he
    rw [hx] at hz
    cases hz
    exact ⟨habandoned, e'', x', hlt, executions_set_self hx, hkey.trans hkey'⟩
  · exact ⟨habandoned, e'', z, hlt, by rwa [executions_set_of_ne x' he], hkey'⟩

/-- An execution changes, but neither its key nor its place. -/
theorem Orderly.set (h : f.Orderly) (hx : f.executions[e]? = some x) (hkey : x'.key = x.key)
    (hrel : x'.released = x.released) (hfits : x'.Fits)
    (habandoned : x.stage = .abandoned → x'.stage = .abandoned) : (f.set e x').Orderly := by
  refine ⟨fun {e' y} hy => ?_, fun {k t} hget => ?_, fun {e' y} hy hyrel => ?_⟩
  · rcases executions_set hx hy with ⟨-, rfl⟩ | ⟨-, hy⟩
    · exact hfits
    · exact h.fits hy
  · obtain ⟨hnumber, y, hy, hyk, hyrel⟩ := h.entries hget
    refine ⟨hnumber, ?_⟩
    by_cases he : t.execution = e
    · rw [he, hx] at hy
      cases hy
      exact ⟨x', by rw [he, executions_set_self hx], hkey.trans hyk, hrel.trans hyrel⟩
    · exact ⟨y, by rwa [executions_set_of_ne x' he], hyk, hyrel⟩
  · rcases executions_set hx hy with ⟨rfl, rfl⟩ | ⟨-, hy⟩
    · rcases h.listed hx (hrel.symm.trans hyrel) with hget | hsuper
      · exact .inl (hkey.symm ▸ hget)
      · obtain ⟨-, hlater⟩ := superseded_set hx _ hkey hsuper
        exact .inr ⟨habandoned hsuper.1, by rwa [hkey]⟩
    · exact (h.listed hy hyrel).imp_right (superseded_set hx _ hkey)

/-! ## Releases -/

/-- While no number is used twice, a release looks for the entry of its own execution. -/
theorem Orderly.number_eq_iff (h : f.Orderly) (hbound : f.executions.length < 2 ^ 64)
    (he : e < f.executions.length) {k : K} {t : Ticket} (hget : f.registry.get? k = some t) :
    t.number = flightNumber e ↔ t.execution = e := by
  obtain ⟨hnumber, y, hy, -⟩ := h.entries hget
  have hlt := (List.getElem?_eq_some_iff.mp hy).1
  rw [hnumber]
  constructor
  · exact flightNumber_inj (hlt.trans hbound) (he.trans hbound)
  · exact fun heq => congrArg flightNumber heq

/-- What the first release of an execution does that has become `x'`. -/
theorem Orderly.release_eq (h : f.Orderly) (hbound : f.executions.length < 2 ^ 64)
    (hx : f.executions[e]? = some x) (hkey : x'.key = x.key) (hrel : x'.released = false) :
    ((f.set e x').release e).1.executions = (f.set e { x' with released := true }).executions ∧
      (f.registry.get? x.key = some ⟨flightNumber e, e⟩ ∧
          ((f.set e x').release e).1.registry = f.registry.erase x.key ∨
        f.registry.get? x.key ≠ some ⟨flightNumber e, e⟩ ∧
          ((f.set e x').release e).1.registry = f.registry) := by
  have he := (List.getElem?_eq_some_iff.mp hx).1
  refine ⟨by rw [release_executions (executions_set_self hx) hrel, set_set], ?_⟩
  simp only [release, executions_set_self hx, hrel, Bool.false_eq_true, if_false, hkey]
  cases hget : f.registry.get? x.key with
  | none =>
    have hget' : ((f.set e x').set e { x' with released := true }).registry.get? x.key = none :=
      hget
    simp only [hkey] at hget'
    simp only [hget']
    exact .inr ⟨fun heq => (by cases heq), rfl⟩
  | some t =>
    have hget' : ((f.set e x').set e { x' with released := true }).registry.get? x.key = some t :=
      hget
    simp only [hkey] at hget'
    simp only [hget']
    have hown := h.number_eq_iff hbound he hget
    by_cases hnumber : t.number = flightNumber e
    · have ht : t = ⟨flightNumber e, e⟩ := by
        rw [← hnumber, ← hown.mp hnumber]
      simp only [hnumber, if_true]
      exact .inl ⟨congrArg some ht, rfl⟩
    · simp only [hnumber, if_false]
      refine .inr ⟨fun heq => hnumber ?_, rfl⟩
      rw [Option.some.injEq] at heq
      rw [heq]

/-- An execution that is over may be released: the registry stays orderly, whether or not the entry
of its key is its own. -/
theorem Orderly.release (h : f.Orderly) (hbound : f.executions.length < 2 ^ 64)
    (hx : f.executions[e]? = some x) (hkey : x'.key = x.key) (hrel : x'.released = false)
    (hfits : Execution.Fits { x' with released := true }) :
    ((f.set e x').release e).1.Orderly := by
  obtain ⟨hexec, hreg⟩ := h.release_eq hbound hx hkey hrel
  generalize ((f.set e x').release e).1 = f' at hexec hreg
  have hsuper : ∀ {e' y}, f.Superseded e' y → f'.Superseded e' y := fun {e' y} hy => by
    obtain ⟨habandoned, hlater⟩ :=
      superseded_set hx { x' with released := true } hkey hy
    exact ⟨habandoned, by rwa [hexec]⟩
  -- An entry that stays is another execution's.
  have hstays : ∀ {k t}, f'.registry.get? k = some t →
      f.registry.get? k = some t ∧ t.execution ≠ e := by
    intro k t hget
    rcases hreg with ⟨hown, herase⟩ | ⟨hother, hsame⟩
    · rw [herase] at hget
      by_cases hk : k = x.key
      · rw [hk, Table.get?_erase_self] at hget
        cases hget
      · rw [Table.get?_erase_of_ne _ hk] at hget
        refine ⟨hget, fun heq => hk ?_⟩
        obtain ⟨-, y, hy, hyk, -⟩ := h.entries hget
        rw [heq, hx] at hy
        cases hy
        exact hyk.symm
    · rw [hsame] at hget
      refine ⟨hget, fun heq => hother ?_⟩
      obtain ⟨hnumber, y, hy, hyk, -⟩ := h.entries hget
      rw [heq, hx] at hy
      cases hy
      rw [hyk, hget, ← heq, ← hnumber]
  refine ⟨fun {e' y} hy => ?_, fun {k t} hget => ?_, fun {e' y} hy hyrel => ?_⟩
  · rw [hexec] at hy
    rcases executions_set hx hy with ⟨-, rfl⟩ | ⟨-, hy⟩
    · exact hfits
    · exact h.fits hy
  · obtain ⟨hget, hne⟩ := hstays hget
    obtain ⟨hnumber, y, hy, hy'⟩ := h.entries hget
    exact ⟨hnumber, y, by rw [hexec, executions_set_of_ne _ hne, hy], hy'⟩
  · rw [hexec] at hy
    rcases executions_set hx hy with ⟨-, rfl⟩ | ⟨hne, hy⟩
    · cases hyrel
    · refine (h.listed hy hyrel).imp (fun hget => ?_) hsuper
      rcases hreg with ⟨hown, herase⟩ | ⟨-, hsame⟩
      · have hk : y.key ≠ x.key := by
          intro hk
          rw [hk, hown, Option.some.injEq, Ticket.mk.injEq] at hget
          exact hne hget.2.symm
        rw [herase, Table.get?_erase_of_ne _ hk, hget]
      · rw [hsame, hget]

/-! ## Turns -/

omit [DecidableEq K] in
/-- To replace an execution by itself changes nothing. -/
theorem set_self (hx : f.executions[e]? = some x) : f.set e x = f := by
  obtain ⟨hlt, rfl⟩ := List.getElem?_eq_some_iff.mp hx
  unfold Flights.set
  rw [List.set_getElem_self]

/-- An execution that starts takes the place of a dead one, which is superseded by it. -/
theorem Orderly.start (h : f.Orderly) (key : K) (work : W) (hfree : f.joinable? key = none) :
    (f.start key work).2.1.Orderly := by
  have hreg : (f.start key work).2.1.registry =
      f.registry.insert key ⟨flightNumber f.executions.length, f.executions.length⟩ := rfl
  have hlater : ∀ {e' y}, f.Superseded e' y → (f.start key work).2.1.Superseded e' y := by
    rintro e' y ⟨habandoned, e'', z, hlt, hz, hkey⟩
    exact ⟨habandoned, e'', z, hlt, executions_start_of_lt f key work hz, hkey⟩
  refine ⟨fun {e' y} hy => ?_, fun {k t} hget => ?_, fun {e' y} hy hyrel => ?_⟩
  · rcases executions_start_cases hy with hy | ⟨-, rfl⟩
    · exact h.fits hy
    · exact ⟨fun _ => ⟨Nat.one_pos, rfl⟩, nofun, nofun⟩
  · rw [hreg] at hget
    by_cases hk : k = key
    · subst hk
      rw [Table.get?_insert_self, Option.some.injEq] at hget
      subst hget
      exact ⟨rfl, _, executions_start_self f k work, rfl, rfl⟩
    · rw [Table.get?_insert_of_ne _ _ hk] at hget
      obtain ⟨hnumber, y, hy, hy'⟩ := h.entries hget
      exact ⟨hnumber, y, executions_start_of_lt f key work hy, hy'⟩
  · rw [hreg]
    rcases executions_start_cases hy with hy | ⟨rfl, rfl⟩
    · rcases h.listed hy hyrel with hget | hsuper
      · by_cases hk : y.key = key
        · -- The execution that is replaced can only be a dead one.
          refine .inr ⟨?_, f.executions.length, _, (List.getElem?_eq_some_iff.mp hy).1,
            executions_start_self f key work, hk.symm⟩
          have hcallers : ¬ 0 < y.callers := by
            intro hpos
            simp [joinable?, ← hk, hget, hy, hpos] at hfree
          cases hstage : y.stage with
          | running work' =>
            have hrun := (h.fits hy).running (Stage.isRunning_of_eq hstage)
            exact absurd hrun.1 hcallers
          | settled outcome =>
            rw [(h.fits hy).settled outcome hstage] at hyrel
            cases hyrel
          | abandoned => rfl
        · exact .inl (by rw [Table.get?_insert_of_ne _ _ hk, hget])
      · exact .inr (hlater hsuper)
    · exact .inl (Table.get?_insert_self _ _ _)

/-- Only an execution with callers can be joined. -/
theorem callers_of_joinable? {key : K} (h : f.joinable? key = some (e, x)) : 0 < x.callers := by
  unfold joinable? at h
  split at h
  · cases h
  · split at h
    · cases h
    · simp only [Option.ite_none_right_eq_some, Option.some.injEq, Prod.mk.injEq] at h
      obtain ⟨hpos, -, rfl⟩ := h
      exact hpos

/-- A call keeps the registry orderly. -/
theorem Orderly.call (h : f.Orderly) (key : K) (work : W) : (f.enter key work).2.1.Orderly := by
  unfold enter
  cases hjoin : f.joinable? key with
  | none => exact h.start key work hjoin
  | some found =>
    obtain ⟨e, x⟩ := found
    have hx := executions_of_joinable? hjoin
    have hpos := callers_of_joinable? hjoin
    have hnot : x.stage ≠ .abandoned := fun habandoned => by
      rw [(h.fits hx).abandoned habandoned] at hpos
      cases hpos
    refine h.set hx rfl rfl ⟨fun hrun => ?_, (h.fits hx).settled, fun ha => absurd ha hnot⟩ id
    exact ⟨Nat.succ_pos _, ((h.fits hx).running hrun).2⟩

/-- A poll keeps the registry orderly, also one that settles its execution and releases it at once.
-/
theorem Orderly.poll {step : W → σ → Progress W (Outcome T) × σ} (h : f.Orderly)
    (hbound : f.executions.length < 2 ^ 64) (e : Nat) (s : σ) : (f.poll step e s).2.1.Orderly := by
  rcases poll_cases step f e s with ⟨-, hidle⟩ | hpolls
  · rw [hidle]
    exact h
  · generalize f.poll step e s = polled at hpolls
    cases hpolls with
    | @waits x work rest s' hx hs hw =>
      have hrun := (h.fits hx).running (Stage.isRunning_of_eq hs)
      refine h.set hx rfl rfl ⟨fun _ => hrun, nofun, nofun⟩ fun ha => ?_
      rw [hs] at ha
      cases ha
    | @settles x work outcome s' hx hs hw =>
      have hrun := (h.fits hx).running (Stage.isRunning_of_eq hs)
      exact h.release hbound hx rfl hrun.2 ⟨nofun, fun _ _ => rfl, nofun⟩
    | @receives x outcome hx hs =>
      refine h.set hx rfl rfl ⟨fun hrun => ?_, (h.fits hx).settled, fun ha => ?_⟩ id
      · rw [show x.stage = _ from hs] at hrun
        cases hrun
      · rw [show x.stage = _ from hs] at ha
        cases ha

/-- A caller's going away keeps the registry orderly: the entry of an abandoned execution stays
until it is released or superseded. -/
theorem Orderly.detach (h : f.Orderly) (e : Nat) : (f.detach e).2.Orderly := by
  unfold Flights.detach
  cases hx : f.executions[e]? with
  | none => exact h
  | some x =>
    cases hs : x.stage with
    | running work =>
      have hrun := (h.fits hx).running (Stage.isRunning_of_eq hs)
      simp only [hs]
      split
      · rename_i hzero
        exact h.set hx rfl rfl ⟨nofun, nofun, fun _ => hzero⟩ fun _ => rfl
      · rename_i hpos
        exact h.set hx rfl rfl ⟨fun _ => ⟨Nat.pos_of_ne_zero hpos, hrun.2⟩, nofun, nofun⟩
          fun ha => by rw [hs] at ha; cases ha
    | settled outcome =>
      simp only [hs]
      exact h.set hx rfl rfl ⟨nofun, fun _ _ => (h.fits hx).settled outcome hs, nofun⟩
        fun ha => by rw [hs] at ha; cases ha
    | abandoned =>
      have hzero := (h.fits hx).abandoned hs
      simp only [hs]
      exact h.set hx rfl rfl ⟨nofun, nofun, fun _ => by simp [hzero]⟩ fun _ => rfl

/-- Every turn keeps the registry orderly. -/
theorem Orderly.turn {step : W → σ → Progress W (Outcome T) × σ} (h : f.Orderly)
    (hbound : f.executions.length < 2 ^ 64) (t : Turn K W σ) : (f.turn step t).Orderly := by
  cases t with
  | call key work => exact h.call key work
  | poll e s => exact h.poll hbound e s
  | detach e => exact h.detach e
  | release e =>
    show (if f.isOver e then (f.release e).1 else f).Orderly
    split
    · rename_i hover
      cases hx : f.executions[e]? with
      | none =>
        rw [Flights.isOver, hx] at hover
        cases hover
      | some x =>
        rw [Flights.isOver, hx, Option.any_some, Bool.not_eq_true'] at hover
        cases hrel : x.released with
        | true =>
          have hnothing : (f.release e).1 = f := by simp [Flights.release, hx, hrel]
          rwa [hnothing]
        | false =>
          rw [← set_self hx]
          refine h.release hbound hx rfl hrel ⟨fun hrun => ?_, fun _ _ => rfl, fun ha => ?_⟩
          · rw [show x.stage.isRunning = true from hrun] at hover
            cases hover
          · exact (h.fits hx).abandoned ha
    · exact h

end Orderly

/-! ## What every turn keeps, in any state -/

/-- No turn moves an execution, changes its key or takes its release back. -/
theorem keeps_turn (step : W → σ → Progress W (Outcome T) × σ) (f : Flights K W T)
    (t : Turn K W σ) : f.Keeps (f.turn step t) := by
  cases t with
  | call key work => exact f.keeps_enter key work
  | poll e s => exact f.keeps_poll step e s
  | detach e => exact f.keeps_detach e
  | release e =>
    show f.Keeps (if f.isOver e then (f.release e).1 else f)
    split
    · exact f.keeps_release e
    · exact .refl f

/-- No sequence of turns moves an execution, changes its key or takes its release back. -/
theorem keeps_afterTurns (step : W → σ → Progress W (Outcome T) × σ) (f : Flights K W T)
    (turns : List (Turn K W σ)) : f.Keeps (f.afterTurns step turns) := by
  induction turns generalizing f with
  | nil => exact .refl f
  | cons t turns ih => exact (keeps_turn step f t).trans (ih (f.turn step t))

/-- A caller's departure is its going away with the release right after it. -/
theorem Orderly.leave_eq {f : Flights K W T} (h : f.Orderly) {e : Nat} {x : Execution K W T}
    (hx : f.executions[e]? = some x) (hattached : 0 < x.callers)
    (step : W → σ → Progress W (Outcome T) × σ) :
    (f.leave e).2.1 = f.afterTurns step [.detach e, .release e] := by
  show (f.leave e).2.1 = if (f.detach e).2.isOver e then ((f.detach e).2.release e).1
    else (f.detach e).2
  unfold leave
  cases hs : x.stage with
  | running work =>
    by_cases hlast : x.callers - 1 = 0
    · simp [Flights.detach, hx, hs, hlast, isOver, executions_set_self hx, Stage.isRunning]
    · simp [Flights.detach, hx, hs, hlast, isOver, executions_set_self hx, Stage.isRunning]
  | settled outcome =>
    have hrel := (h.fits hx).settled outcome hs
    simp [Flights.detach, hx, hs, release_of_released (executions_set_self hx), hrel]
  | abandoned =>
    rw [(h.fits hx).abandoned hs] at hattached
    cases hattached

/-! ## Whole runs -/

variable {step : W → σ → Progress W (Outcome T) × σ}

/-- Before the first turn there is nothing on the registry. -/
theorem orderly_empty : (empty : Flights K W T).Orderly := by
  refine ⟨fun hx => ?_, fun hget => ?_, fun hx => ?_⟩
  · cases hx
  · cases hget
  · cases hx

/-- The registry is orderly after any turns, as long as the numbers of the executions do not wrap
around. -/
theorem Orderly.afterTurns {f : Flights K W T} (h : f.Orderly) {turns : List (Turn K W σ)}
    (hbound : (f.afterTurns step turns).executions.length < 2 ^ 64) :
    (f.afterTurns step turns).Orderly := by
  induction turns generalizing f with
  | nil => exact h
  | cons t turns ih =>
    -- No fewer executions are known at the end than before the first turn.
    have hfirst : f.executions.length < 2 ^ 64 :=
      (keeps_afterTurns step f (t :: turns)).length_le.trans_lt hbound
    exact ih (h.turn hfirst t) hbound

/-- What the registry owes to the numbers of the executions and to their flags. -/
structure SparesSuccessors (step : W → σ → Progress W (Outcome T) × σ) (f : Flights K W T) :
    Prop where
  /-- A release removes nothing, or the entry with the number of its own execution. -/
  removes_own : ∀ e, (f.release e).1.registry = f.registry ∨
    ∃ k, f.registry.get? k = some ⟨flightNumber e, e⟩ ∧
      (f.release e).1.registry = f.registry.erase k
  /-- A call that finds the entry of an execution without callers starts another execution in its
  place. That one keeps its entry, whatever happens, until it is released itself or, dead in turn,
  has been replaced in the same way. -/
  replaces_dead : ∀ key work t x, f.registry.get? key = some t →
    f.executions[t.execution]? = some x → x.callers = 0 →
    let n := f.executions.length
    let called := (f.enter key work).2.1
    (f.enter key work).1 = n ∧
      called.executions = f.executions ++ [⟨key, 1, .running work, false⟩] ∧
      called.registry = f.registry.insert key ⟨flightNumber n, n⟩ ∧
      ∀ more, (called.afterTurns step more).executions.length < 2 ^ 64 →
        ∃ y, (called.afterTurns step more).executions[n]? = some y ∧ y.key = key ∧
          (y.released = false →
            (called.afterTurns step more).registry.get? key = some ⟨flightNumber n, n⟩ ∨
              (called.afterTurns step more).Superseded n y)
  /-- An execution that was released once, or has settled, is released again without effect. -/
  releases_once : ∀ e < f.executions.length, ∀ more,
    ((f.release e).1.afterTurns step more).release e = ((f.release e).1.afterTurns step more, [])
  released_settled : ∀ e outcome, f.stage? e = some (.settled outcome) → f.release e = (f, [])
  /-- With no release outstanding, the registry holds the running executions, which have callers
  and different keys. -/
  holds_running :
    (∀ (e : Nat) (x : Execution K W T), f.executions[e]? = some x → x.stage.isRunning = false →
      x.released = true) →
    (∀ k (t : Ticket), f.registry.get? k = some t ↔ t.number = flightNumber t.execution ∧
      ∃ x, f.executions[t.execution]? = some x ∧ x.key = k ∧ x.stage.isRunning = true ∧
        0 < x.callers) ∧
    ∀ (e e' : Nat) (x x' : Execution K W T),
      f.executions[e]? = some x → f.executions[e']? = some x' →
      x.stage.isRunning = true → x'.stage.isRunning = true → x.key = x'.key → e = e'

/-- A release removes no entry but the one with the number of its own execution. -/
theorem Orderly.removes_own {f : Flights K W T} (h : f.Orderly)
    (hbound : f.executions.length < 2 ^ 64) (e : Nat) :
    (f.release e).1.registry = f.registry ∨
      ∃ k, f.registry.get? k = some ⟨flightNumber e, e⟩ ∧
        (f.release e).1.registry = f.registry.erase k := by
  cases hx : f.executions[e]? with
  | none =>
    have hnothing : (f.release e).1 = f := by simp only [Flights.release, hx]
    exact .inl (congrArg registry hnothing)
  | some x =>
    cases hrel : x.released with
    | true => exact .inl (congrArg (fun r => r.1.registry) (release_of_released hx hrel))
    | false =>
      have hrelease := (h.release_eq hbound hx rfl hrel).2
      rw [set_self hx] at hrelease
      rcases hrelease with ⟨hown, herase⟩ | ⟨-, hsame⟩
      · exact .inr ⟨x.key, hown, herase⟩
      · exact .inl hsame

/-- A call that finds the entry of an execution without callers starts another one in its place. -/
theorem enter_of_dead {f : Flights K W T} {key : K} {t : Ticket}
    {x : Execution K W T} (work : W) (hget : f.registry.get? key = some t)
    (hx : f.executions[t.execution]? = some x) (hdead : x.callers = 0) :
    f.enter key work = f.start key work := by
  have hnone : f.joinable? key = none := by
    simp only [joinable?, hget, hx, hdead, lt_irrefl, if_false]
  simp only [enter, hnone]

/-- An execution that a call has started is on the registry until it is released, unless a later one
has taken its place. -/
theorem Orderly.listed_of_started {f : Flights K W T} (h : f.Orderly) {key : K} {work : W}
    (hstart : f.enter key work = f.start key work) {turns : List (Turn K W σ)}
    (hbound : ((f.enter key work).2.1.afterTurns step turns).executions.length < 2 ^ 64) :
    ∃ y, ((f.enter key work).2.1.afterTurns step turns).executions[f.executions.length]? = some y ∧
      y.key = key ∧
      (y.released = false →
        ((f.enter key work).2.1.afterTurns step turns).registry.get? key =
          some ⟨flightNumber f.executions.length, f.executions.length⟩ ∨
        ((f.enter key work).2.1.afterTurns step turns).Superseded f.executions.length y) := by
  have horderly := (h.call key work).afterTurns hbound
  have hnew : (f.enter key work).2.1.executions[f.executions.length]? =
      some { key, callers := 1, stage := .running work, released := false } := by
    rw [hstart]
    exact executions_start_self f key work
  obtain ⟨y, hy, hkey, -⟩ := keeps_afterTurns step _ turns hnew
  have hkey : y.key = key := hkey
  refine ⟨y, hy, hkey, fun hrel => ?_⟩
  have hlisted := horderly.listed hy hrel
  rwa [hkey] at hlisted

/-- The second release of an execution does nothing, whatever has happened since the first. -/
theorem releases_once (f : Flights K W T) {e : Nat} (he : e < f.executions.length)
    (turns : List (Turn K W σ)) :
    ((f.release e).1.afterTurns step turns).release e =
      ((f.release e).1.afterTurns step turns, []) := by
  have hx := List.getElem?_eq_getElem he
  obtain ⟨y, hy, hrel⟩ : ∃ y, (f.release e).1.executions[e]? = some y ∧ y.released = true := by
    cases hrel : f.executions[e].released with
    | true => exact ⟨_, by rw [release_of_released hx hrel, hx], hrel⟩
    | false => exact ⟨_, by rw [release_executions hx hrel, executions_set_self hx], rfl⟩
  obtain ⟨z, hz, -, hkept⟩ := keeps_afterTurns step _ turns hy
  exact release_of_released hz (hkept hrel)

/-- When all that does not run has been released, the entries of the registry are exactly the
running executions, each of which has callers. -/
theorem Orderly.holds_running {f : Flights K W T} (h : f.Orderly)
    (hdone : ∀ (e : Nat) (x : Execution K W T), f.executions[e]? = some x →
      x.stage.isRunning = false → x.released = true)
    (k : K) (t : Ticket) : f.registry.get? k = some t ↔ t.number = flightNumber t.execution ∧
      ∃ x, f.executions[t.execution]? = some x ∧ x.key = k ∧ x.stage.isRunning = true ∧
        0 < x.callers := by
  constructor
  · intro hget
    obtain ⟨hnumber, x, hx, hkey, hrel⟩ := h.entries hget
    have hrun : x.stage.isRunning = true := by
      by_contra hstop
      rw [hdone _ x hx (Bool.not_eq_true _ ▸ hstop)] at hrel
      cases hrel
    exact ⟨hnumber, x, hx, hkey, hrun, ((h.fits hx).running hrun).1⟩
  · rintro ⟨hnumber, x, hx, rfl, hrun, -⟩
    rw [h.listed_of_running hx hrun, ← hnumber]

/-- Releases that come late, after any calls, polls and departures, leave the executions alone that
took the place of the released ones. -/
theorem late_releases_spare_successors (step : W → σ → Progress W (Outcome T) × σ)
    (turns : List (Turn K W σ))
    (hbound : ((empty : Flights K W T).afterTurns step turns).executions.length < 2 ^ 64) :
    SparesSuccessors step ((empty : Flights K W T).afterTurns step turns) := by
  have h : ((empty : Flights K W T).afterTurns step turns).Orderly :=
    orderly_empty.afterTurns hbound
  generalize (empty : Flights K W T).afterTurns step turns = f at h hbound
  refine ⟨h.removes_own hbound, ?_, fun e he more => releases_once f he more, ?_, fun hdone => ?_⟩
  · intro key work t x hget hx hdead
    have hstart := enter_of_dead work hget hx hdead
    refine ⟨by rw [hstart]; rfl, by rw [hstart]; rfl, by rw [hstart]; rfl, fun more hmore => ?_⟩
    exact h.listed_of_started hstart hmore
  · intro e outcome hs
    obtain ⟨x, hx, hstage⟩ := exists_of_stage? hs
    exact release_of_released hx ((h.fits hx).settled outcome hstage)
  · refine ⟨h.holds_running hdone, fun e e' x x' hx hx' hrun hrun' hkey => ?_⟩
    have hget := h.listed_of_running hx hrun
    rw [hkey, h.listed_of_running hx' hrun', Option.some.injEq, Ticket.mk.injEq] at hget
    exact hget.2.symm

/-- Work that waits as often as it says, and then ends. -/
def countdown : Nat → Unit → Progress Nat (Outcome Nat) × Unit
  | 0, s => (.finished (.value 0), s)
  | n + 1, s => (.waiting n, s)

/-- Two executions of one key die one after the other, and a third one takes their place before
either is released. -/
def deadPredecessors : List (Turn Nat Nat Unit) :=
  [.call 7 3, .poll 0 (), .detach 0, .call 7 3, .detach 1, .call 7 3, .call 8 0, .release 0,
    .release 1, .poll 3 ()]

/-- In this run the first two executions are released only after the third has taken their place. -/
theorem late_releases_spare_successors_deadPredecessors :
    (empty.afterTurns countdown deadPredecessors).executions.length < 2 ^ 64 ∧
      (empty.afterTurns countdown deadPredecessors).registry.get? 7 = some ⟨2, 2⟩ ∧
      SparesSuccessors countdown (empty.afterTurns countdown deadPredecessors) :=
  ⟨by decide, by decide, late_releases_spare_successors countdown deadPredecessors (by decide)⟩

/-- An execution that has taken the place of a dead one need not keep its entry until it is released
itself. Here a call finds the entry of the dead execution 0 and starts execution 1 in its place.
When that one dies too, the next call replaces it in the same way, and it has not been released yet.
-/
theorem successor_replaced_before_release :
    let dead := (empty : Flights Nat Nat Nat).afterTurns countdown
      [.call 7 3, .poll 0 (), .detach 0]
    let called := (dead.enter 7 3).2.1
    let later := called.afterTurns countdown [.detach 1, .call 7 3]
    dead.registry.get? 7 = some ⟨0, 0⟩ ∧ dead.executions[0]?.map (·.callers) = some 0 ∧
      (dead.enter 7 3).1 = 1 ∧ called.registry.get? 7 = some ⟨1, 1⟩ ∧
      later.executions[1]?.map (·.released) = some false ∧
      later.registry.get? 7 = some ⟨2, 2⟩ := by
  decide

end Flights

end ReadThrough
