import ReadThrough.Load
import ReadThrough.Proofs.Load.Work
/-!
# Proofs: what becomes of a call of the source

The work of a load ends as its call of the source does. A failure of the source is what the load
comes to, whether the call panics at once or fails in its course; it is published only in the second
case.
-/

namespace ReadThrough

variable {P A V E : Type}

/-- The failure with which a call in progress ends. -/
def Ending.failure? : Ending V E → Option (Failure E)
  | .value _ => none
  | .error cause => some (.source cause)
  | .panic message => some (.panicked message)

/-- The failure of a call of the source. -/
def Behaviour.failure? : Behaviour V E → Option (Failure E)
  | .refuses message => some (.panicked message)
  | .replies reply => reply.ending.failure?

/-- The failure of a call of the source that was in progress before it failed. -/
def Behaviour.lateFailure? : Behaviour V E → Option (Failure E)
  | .refuses _ => none
  | .replies reply => reply.ending.failure?

namespace Work

/-- The outcome of work is that of its call of the source: the failures that are published are those
of calls that were in progress, and each failure of a call is the result. -/
structure Fits (behaviour : Behaviour V E) (outcome : Outcome (Result V E)) : Prop where
  published : outcome.failure? = behaviour.lateFailure?
  failed : ∀ {failure}, behaviour.failure? = some failure →
    Load.resultOf outcome = .error failure

/-- The call of the source that the work has made will end, or has ended, as the source says. -/
def Honest (source : Source P V E) : Work P A V E → Prop
  | .fresh _ => True
  | .calling key number reply =>
    ∃ begun, source number key.params = .replies begun ∧ begun.ending = reply.ending
  | .storing key number value _ =>
    ∃ begun, source number key.params = .replies begun ∧ begun.ending = .value value

/-- What a poll makes of work for a key that has called the source: the work goes on and stays
honest, or its outcome is that of the call. -/
def Comes (source : Source P V E) (key : Key P A) (number : Nat) :
    Progress (Work P A V E) (Outcome (Result V E)) → Prop
  | .waiting rest => rest.key = key ∧ rest.number? = some number ∧ rest.Honest source
  | .finished outcome => Fits (source number key.params) outcome

variable {source : Source P V E} {key : Key P A} {number : Nat} {begun : Reply V E}

/-- Nothing is published of a call that returns a value. -/
theorem fits_of_value (h : source number key.params = .replies begun) {value : V}
    (hending : begun.ending = .value value) {outcome : Outcome (Result V E)}
    (hquiet : outcome.failure? = none) : Fits (source number key.params) outcome := by
  have hnone : begun.ending.failure? = none := by rw [hending]; rfl
  rw [h]
  exact ⟨hquiet.trans hnone.symm, fun hfailure => absurd (hnone.symm.trans hfailure) nofun⟩

/-- A failure that was in progress fits as the outcome of work. -/
theorem fits_of_failure (h : source number key.params = .replies begun) {failure : Failure E}
    (hending : begun.ending.failure? = some failure) :
    Fits (source number key.params) (.value (.error failure)) := by
  rw [h]
  refine ⟨hending.symm, fun {failure'} hfailure => ?_⟩
  have heq : some failure = some failure' := hending.symm.trans hfailure
  rw [Option.some.inj heq]
  rfl

variable [DecidableEq P] [DecidableEq A]

/-- Work that has stored the value of its call ends with it. -/
theorem comes_finishStoring (h : source number key.params = .replies begun) {value : V}
    (hending : begun.ending = .value value) (now : Stamp) (env : Environment P A V E) :
    Comes source key number (finishStoring key number value now env).1 := by
  unfold finishStoring
  split
  · exact fits_of_value h hending rfl
  · exact ⟨rfl, rfl, begun, h, hending⟩

/-- Work that stores the value of its call ends with it, or waits for the store. -/
theorem comes_store (h : source number key.params = .replies begun) {value : V}
    (hending : begun.ending = .value value) (env : Environment P A V E) :
    Comes source key number (store key number value env).1 := by
  unfold store
  rcases env.readClock with ⟨now, env'⟩
  simp only
  split
  · exact fits_of_value h hending rfl
  · exact comes_finishStoring h hending now env'

/-- Work whose call has ended comes to what the call has ended with. -/
theorem comes_conclude (h : source number key.params = .replies begun) {ending : Ending V E}
    (hending : begun.ending = ending) (env : Environment P A V E) :
    Comes source key number (conclude key number ending env).1 := by
  cases ending with
  | value value => exact comes_store h hending env
  | error error => exact fits_of_failure h (by rw [hending]; rfl)
  | panic message => exact fits_of_failure h (by rw [hending]; rfl)

/-- Work whose call is in progress stays honest, or comes to what the call ends with. -/
theorem comes_proceed (h : source number key.params = .replies begun) {reply : Reply V E}
    (hending : begun.ending = reply.ending) (env : Environment P A V E) :
    Comes source key number (proceed key number reply env).1 := by
  unfold proceed
  split
  · exact ⟨rfl, rfl, begun, h, hending⟩
  · exact comes_conclude h hending _

/-- Work that calls the source comes to what the source says for this call. -/
theorem comes_begin (key : Key P A) (env : Environment P A V E) :
    Comes env.source key (env.called.length + 1) (begin key env).1 := by
  have hsource : (env.callSource key).1 = env.source (env.called.length + 1) key.params := rfl
  have hcalled : (env.callSource key).2.called.length = env.called.length + 1 := by
    simp [Environment.callSource, Environment.note]
  unfold begin
  rcases hcall : env.callSource key with ⟨message | reply, env'⟩ <;> rw [hcall] at hsource hcalled
  · -- A call that panics at once leaves nothing to publish.
    have hrefuses : env.source (env.called.length + 1) key.params = .refuses message :=
      hsource.symm
    have hfits : Fits (env.source (env.called.length + 1) key.params)
        (.panicked message : Outcome (Result V E)) := by
      rw [hrefuses]
      exact ⟨rfl, fun hfailure => by cases hfailure; rfl⟩
    exact hfits
  · simp only
    rw [show env'.called.length = _ from hcalled]
    exact comes_proceed hsource.symm rfl env'

/-- Honest work stays honest in every poll, and ends as its call does. -/
theorem comes_poll {work : Work P A V E} {env : Environment P A V E}
    (h : work.Honest env.source) :
    Comes env.source work.key (work.callNumber env) (work.poll env).1 := by
  cases work with
  | fresh key => exact comes_begin key env
  | calling key number reply =>
    obtain ⟨begun, hsource, hending⟩ := h
    exact comes_proceed hsource hending env
  | storing key number value now =>
    obtain ⟨begun, hsource, hending⟩ := h
    exact comes_finishStoring hsource hending now env

/-- There is a source that says what the work has begun. -/
theorem exists_comes (work : Work P A V E) (env : Environment P A V E) :
    ∃ source : Source P V E, Comes source work.key (work.callNumber env) (work.poll env).1 := by
  cases work with
  | fresh key => exact ⟨env.source, comes_begin key env⟩
  | calling key number reply => exact ⟨fun _ _ => .replies reply, comes_proceed rfl rfl env⟩
  | storing key number value now =>
    let reply : Reply V E := { wait := {}, took := none, ending := .value value }
    exact ⟨fun _ _ => .replies reply, comes_finishStoring rfl rfl now env⟩

/-- Work that waits has called the source, whatever the source says. -/
theorem number?_poll {work left : Work P A V E} {env : Environment P A V E}
    (h : (work.poll env).1 = .waiting left) : left.number? = some (work.callNumber env) := by
  obtain ⟨source, hcomes⟩ := exists_comes work env
  rw [h] at hcomes
  exact hcomes.2.1

end Work

end ReadThrough
