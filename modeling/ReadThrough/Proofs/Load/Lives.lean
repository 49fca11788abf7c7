import ReadThrough.Load
import ReadThrough.Proofs.Load.Deliveries
/-!
# Proofs: all or nothing

The life of an execution is a sequence of polls of its work, until the work ends or is dropped
(`Lives`). Between two polls anything may happen to the environment, so a life says nothing about
how one poll leaves it and the next one finds it. Unless the life ends with a result, no poll of it
touches the store or the channel of results; if it does, exactly the last one writes the value and
publishes it.
-/

namespace ReadThrough

variable {P A V E : Type}

/-- Neither the store nor the channel of results is touched. -/
structure Untouched (env env' : Environment P A V E) : Prop where
  store : env'.store = env.store
  updates : env'.updates = env.updates
  events : ∃ events, env'.trace = env.trace ++ events ∧
    (∀ event ∈ events, event.touches = false)

theorem Untouched.refl (env : Environment P A V E) : Untouched env env :=
  ⟨rfl, rfl, [], (List.append_nil _).symm, List.forall_mem_nil _⟩

namespace Work

/-- Work that waits is for the same key. -/
def KeepsKey (key : Key P A) (progress : Progress (Work P A V E) (Outcome (Result V E))) : Prop :=
  ∀ left, progress = .waiting left → left.key = key

variable [DecidableEq P] [DecidableEq A]

/-- Work that has stored its value keeps to its key. -/
theorem keepsKey_finishStoring (key : Key P A) (number : Nat) (value : V) (now : Stamp)
    (env : Environment P A V E) : KeepsKey key (finishStoring key number value now env).1 := by
  intro left hleft
  unfold finishStoring at hleft
  split at hleft
  · cases hleft
  · cases hleft
    rfl

/-- Work that stores its value keeps to its key. -/
theorem keepsKey_store (key : Key P A) (number : Nat) (value : V) (env : Environment P A V E) :
    KeepsKey key (store key number value env).1 := by
  intro left hleft
  unfold store at hleft
  simp only at hleft
  split at hleft
  · cases hleft
  · exact keepsKey_finishStoring key number value _ _ left hleft

/-- Work whose call is in progress keeps to its key. -/
theorem keepsKey_proceed (key : Key P A) (number : Nat) (reply : Reply V E)
    (env : Environment P A V E) : KeepsKey key (proceed key number reply env).1 := by
  intro left hleft
  unfold proceed at hleft
  split at hleft
  · cases hleft
    rfl
  · unfold conclude at hleft
    cases hending : reply.ending with
    | value value =>
      rw [hending] at hleft
      exact keepsKey_store key number value _ left hleft
    | error error =>
      rw [hending] at hleft
      cases hleft
    | panic message =>
      rw [hending] at hleft
      cases hleft

/-- Work that calls the source keeps to its key. -/
theorem keepsKey_begin (key : Key P A) (env : Environment P A V E) :
    KeepsKey key (begin key env).1 := by
  unfold begin
  rcases env.callSource key with ⟨message | reply, env'⟩
  · exact fun left hleft => by cases hleft
  · exact keepsKey_proceed key env'.called.length reply env'

/-- Work keeps to its key in every poll. -/
theorem keepsKey_poll (work : Work P A V E) (env : Environment P A V E) :
    KeepsKey work.key (work.poll env).1 := by
  cases work with
  | calling key number reply => exact keepsKey_proceed key number reply env
  | storing key number value now => exact keepsKey_finishStoring key number value now env
  | fresh key => exact keepsKey_begin key env

/-! ## Lives -/

/-- A delivery is written for its key, and published. -/
structure Hands (key : Key P A) (delivery : Delivery V) (env env' : Environment P A V E) :
    Prop where
  store : env'.store = (env.store.put key delivery.entry).1
  updates : env'.updates = (env.updates.publish (key.params, delivery)).2
  events : ∃ events, env'.trace = env.trace ++ events ∧
    writes events = [(key, delivery.entry)] ∧ ReadThrough.updates events = [(key.params, delivery)]

section Poll

variable {execution : Option Nat} {work : Work P A V E} {env env' : Environment P A V E}
  {progress : Progress (Work P A V E) (Outcome (Result V E))}

/-- A poll that does not end with a result touches nothing. -/
theorem untouched_pollAs (hpoll : work.pollAs execution env = (progress, env'))
    (hnone : ∀ delivery, progress ≠ .finished (.value (.ok delivery))) : Untouched env env' := by
  have hclosing := closing_untouched execution work env
  obtain ⟨events, hdeals⟩ := deals_poll work env
  rw [pollAs_eq] at hpoll
  obtain ⟨hprogress, rfl⟩ := Prod.mk.inj hpoll
  rcases hwork : work.poll env with ⟨progress', env₁⟩
  rw [hwork] at hdeals hprogress
  cases hdeals with
  | withholds hushed _ _ _ =>
    refine ⟨hushed.store, hushed.updates, events ++ work.closing execution env, ?_, ?_⟩
    · show env₁.trace ++ _ = _
      rw [hushed.trace, List.append_assoc]
    · exact List.forall_mem_append.mpr ⟨hushed.untouched, fun event he => (hclosing event he).1⟩
  | delivers => exact absurd hprogress.symm (hnone _)

/-- A poll that ends with a result writes and publishes it. -/
theorem hands_pollAs {delivery : Delivery V}
    (hpoll : work.pollAs execution env = (.finished (.value (.ok delivery)), env')) :
    Hands work.key delivery env env' := by
  obtain ⟨told, hyields⟩ := yields_pollAs execution work env
  rw [hpoll] at hyields
  have hevents : ∃ events, env'.trace = env.trace ++ events ∧
      writes events = [(work.key, delivery.entry)] ∧
      ReadThrough.updates events = [(work.key.params, delivery)] :=
    ⟨told, hyields.trace, hyields.writes, hyields.updates⟩
  obtain ⟨events, hdeals⟩ := deals_poll work env
  rw [pollAs_eq] at hpoll
  obtain ⟨hprogress, henv⟩ := Prod.mk.inj hpoll
  rcases hwork : work.poll env with ⟨progress', env₁⟩
  rw [hwork] at hdeals hprogress henv
  cases hdeals with
  | withholds _ hnone _ _ => exact absurd hprogress (hnone _)
  | @delivers env₂ value now hushed _ =>
    cases hprogress
    have hstore := store_delivered work.key value now env₂
    have hupdates := updates_delivered work.key value now env₂
    rw [hushed.store] at hstore
    rw [hushed.updates] at hupdates
    rw [← henv] at hevents ⊢
    exact ⟨hstore, hupdates, hevents⟩

end Poll

/-- The polls of some work by an execution, each with the environment that it finds and the one that
it leaves, and the outcome, unless the work is dropped. -/
inductive Lives (execution : Option Nat) : Work P A V E →
    List (Environment P A V E × Environment P A V E) → Option (Outcome (Result V E)) → Prop where
  | drops (work : Work P A V E) : Lives execution work [] none
  | ends {work : Work P A V E} {env env' : Environment P A V E} {outcome : Outcome (Result V E)}
      (hpoll : work.pollAs execution env = (.finished outcome, env')) :
      Lives execution work [(env, env')] (some outcome)
  | waits {work left : Work P A V E} {env env' : Environment P A V E}
      {polls : List (Environment P A V E × Environment P A V E)}
      {ended : Option (Outcome (Result V E))}
      (hpoll : work.pollAs execution env = (.waiting left, env'))
      (hrest : Lives execution left polls ended) :
      Lives execution work ((env, env') :: polls) ended

variable {execution : Option Nat} {work : Work P A V E}
  {polls : List (Environment P A V E × Environment P A V E)}

/-- A life that does not end with a result touches nothing. -/
theorem Lives.nothing {ended : Option (Outcome (Result V E))}
    (h : Lives execution work polls ended)
    (hnone : ∀ delivery, ended ≠ some (.value (.ok delivery))) :
    ∀ p ∈ polls, Untouched p.1 p.2 := by
  induction h with
  | drops work => exact List.forall_mem_nil _
  | ends hpoll =>
    refine List.forall_mem_singleton.mpr (untouched_pollAs hpoll fun delivery hdelivery => ?_)
    exact hnone delivery (congrArg some (Progress.finished.inj hdelivery))
  | waits hpoll hrest ih =>
    exact List.forall_mem_cons.mpr ⟨untouched_pollAs hpoll (fun _ => nofun), ih hnone⟩

/-- A life that ends with a result writes and publishes it, in the end. -/
theorem Lives.all {delivery : Delivery V}
    (h : Lives execution work polls (some (.value (.ok delivery)))) :
    ∃ earlier env env', polls = earlier ++ [(env, env')] ∧
      (∀ p ∈ earlier, Untouched p.1 p.2) ∧ Hands work.key delivery env env' := by
  generalize hended : (some (.value (.ok delivery)) : Option (Outcome (Result V E))) = ended at h
  induction h with
  | drops work => cases hended
  | @ends work env env' outcome hpoll =>
    cases hended
    exact ⟨[], env, env', rfl, List.forall_mem_nil _, hands_pollAs hpoll⟩
  | @waits work left env₀ env₁ polls ended hpoll hrest ih =>
    obtain ⟨earlier, env, env', rfl, hearlier, hhands⟩ := ih hended
    -- What is left of the work is still for its key, to which the end belongs.
    have hkey : left.key = work.key := by
      refine keepsKey_poll work env₀ left ?_
      rw [pollAs_eq] at hpoll
      exact congrArg Prod.fst hpoll
    rw [hkey] at hhands
    refine ⟨(env₀, env₁) :: earlier, env, env', rfl, ?_, hhands⟩
    exact List.forall_mem_cons.mpr ⟨untouched_pollAs hpoll (fun _ => nofun), hearlier⟩

end Work

/-- Dropping a load touches nothing, wherever its work stands. -/
theorem Load.untouched_drop [DecidableEq P] [DecidableEq A] (load : Load P A V E)
    (c : Cache P A V E) : Untouched c.env (load.drop c).env := by
  have habandoned : ∀ (key : Key P A) (notices : List Notice),
      ∀ event ∈ (.abandoned key :: notices.map .registry : List (Event P A V E)),
        event.touches = false := by
    intro key notices
    refine List.forall_mem_cons.mpr ⟨rfl, fun event he => ?_⟩
    obtain ⟨notice, -, rfl⟩ := List.mem_map.mp he
    rfl
  unfold drop
  cases load with
  | unstarted key share => exact .refl c.env
  | alone work => exact ⟨rfl, rfl, _, rfl, habandoned work.key []⟩
  | attached e =>
    simp only
    rcases c.flights.leave e with ⟨_ | work, f', ns⟩
    · refine ⟨rfl, rfl, ns.map .registry, rfl, fun event he => ?_⟩
      obtain ⟨notice, -, rfl⟩ := List.mem_map.mp he
      rfl
    · exact ⟨rfl, rfl, _, List.append_assoc _ [_] _, habandoned work.key ns⟩

end ReadThrough
