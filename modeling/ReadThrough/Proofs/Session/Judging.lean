import ReadThrough.Proofs.Call.Collecting
import ReadThrough.Proofs.Call.Judging
import ReadThrough.Proofs.Session.Sparing
/-!
# Proofs: requests with an acceptance test, against policies

A request with a test and one by a policy, of which the second is read to its last result, are
polled side by side (`Judged.Level`). From wherever they are level they answer the same and are
left level (`Judged.level_poll`). With a test that accepts nothing, the first has a lookup to make
before it is level with a request that makes none (`Judged.ahead_poll`).
-/

namespace ReadThrough

open Cache (InStep)
open Environment (Lockstep Accord)

variable {P A V E : Type} [DecidableEq P] [DecidableEq A]

namespace Judged

/-- Where two requests can be side by side. -/
inductive Underway : Policy → CallStage P A V E → Prop where
  | looking : Underway .ifHave .looking
  | loading {policy : Policy} (load : Load P A V E) : Underway policy (.loading load)

variable (key : Key P A) (terms : Terms) (test : V → Verdict) (policy : Policy)

/-- A request with a test and one by a policy answer the same, and are left side by side. -/
inductive Tallies (Q : Environment P A V E → Environment P A V E → Prop) :
    Call.Polled P A V E → Call.Polled P A V E → Prop where
  | waits {stage : CallStage P A V E} {c c' : Cache P A V E} (hstage : Underway policy stage)
      (h : InStep Q c c') :
      Tallies Q (.pending, ⟨key, terms, .judged test, stage⟩, c)
        (.pending, ⟨key, terms, .policy policy, stage⟩, c')
  | yields (result : Result V E) {c c' : Cache P A V E} (h : InStep Q c c') :
      Tallies Q (.item result, ⟨key, terms, .judged test, .spent⟩, c)
        (.item result, ⟨key, terms, .policy policy, .spent⟩, c')

variable {key terms test policy} {Q : Environment P A V E → Environment P A V E → Prop}
  {c c' : Cache P A V E}

/-- The two requests poll their load alike, and settle alike with what it comes to. -/
theorem tallies_pollLoad (hQ : Lockstep Q) (hpolicy : policy ≠ .ifFailed) (h : InStep Q c c')
    (stage stage' : CallStage P A V E) (load : Load P A V E) :
    Tallies key terms test policy Q
      (Call.pollLoad ⟨key, terms, .judged test, stage⟩ load c)
      (Call.pollLoad ⟨key, terms, .policy policy, stage'⟩ load c') := by
  obtain ⟨progress, c₁, c₁', hpoll, hpoll', h₁⟩ := (load.alike_poll hQ.toWorking h).split
  unfold Call.pollLoad
  rw [hpoll, hpoll']
  cases progress with
  | waiting load => exact .waits (.loading load) h₁
  | finished result =>
    cases policy with
    | ifFailed => exact absurd rfl hpolicy
    | never | ifHave | cachedThenLoad | only => exact .yields result h₁

/-- With a test that accepts everything, a request goes as one that calls the source only if nothing
usable is stored. -/
theorem tallies_look (hQ : Lockstep Q) (htest : ∀ value, test value = .accept)
    (hasked : ∀ {env env' : Environment P A V E}, Q env env' →
      Q { env with asked := env.asked + 1 } env') (h : InStep Q c c') :
    Tallies key terms test .ifHave Q
      (Call.look ⟨key, terms, .judged test, .looking⟩ c)
      (Call.look ⟨key, terms, .policy .ifHave, .looking⟩ c') := by
  have hlook := h.lookup hQ key terms.maxAge
  unfold Call.look
  dsimp only
  generalize c.lookup key terms.maxAge = found at hlook ⊢
  generalize c'.lookup key terms.maxAge = found' at hlook ⊢
  cases hlook with
  | none => exact .waits .looking h
  | some hfound =>
    obtain ⟨entry, c₁, c₁', rfl, rfl, h₁⟩ := hfound.split
    cases entry with
    | none =>
      have hload : Tallies key terms test .ifHave Q
          (Call.beginLoad ⟨key, terms, .judged test, .looking⟩ c₁)
          (Call.beginLoad ⟨key, terms, .policy .ifHave, .looking⟩ c₁') :=
        tallies_pollLoad hQ (by decide) h₁ _ _ _
      exact hload
    | some delivery =>
      dsimp only
      unfold Call.useStored
      dsimp only
      rw [htest]
      exact .yields (.ok delivery) ⟨hasked h₁.env, h₁.flights⟩

/-! ## Tasks -/

/-- The task of a request with a test, and that of one by a policy. -/
abbrev judging (key : Key P A) (terms : Terms) (test : V → Verdict) (stage : CallStage P A V E) :
    Task P A V E := .call false ⟨key, terms, .judged test, stage⟩

abbrev fetching (key : Key P A) (terms : Terms) (policy : Policy) (stage : CallStage P A V E) :
    Task P A V E := .fetch ⟨⟨key, terms, .policy policy, stage⟩, none, false⟩

variable (key terms test policy) in
/-- The tasks of the two requests, from where they are side by side. -/
inductive Level : Option (Task P A V E) → Option (Task P A V E) → Prop where
  | underway {stage : CallStage P A V E} (hstage : Underway policy stage) :
      Level (some (judging key terms test stage)) (some (fetching key terms policy stage))
  | spent (latest : Option (Result V E)) :
      Level (some (judging key terms test .spent))
        (some (.fetch ⟨⟨key, terms, .policy policy, .spent⟩, latest, true⟩))
  | ended : Level (some .ended) (some .ended)
  | gone : Level none none

variable (key terms test) in
/-- The tasks of the two requests, as long as the first has not looked and the second, which does
not look, has not been polled. -/
inductive Ahead : Option (Task P A V E) → Option (Task P A V E) → Prop where
  | looking : Ahead (some (judging key terms test .looking))
      (some (fetching key terms .never (.loading (.unstarted key terms.share))))
  | gone : Ahead none none

omit [DecidableEq P] [DecidableEq A] in
/-- Both tasks that are level are there, or none is. -/
theorem Level.isSome {o o' : Option (Task P A V E)} (h : Level key terms test policy o o') :
    o'.isSome = o.isSome := by
  cases h <;> rfl

omit [DecidableEq P] [DecidableEq A] in
/-- Both tasks of which one is ahead are there, or none is. -/
theorem Ahead.isSome {o o' : Option (Task P A V E)} (h : Ahead key terms test o o') :
    o'.isSome = o.isSome := by
  cases h <;> rfl

omit [DecidableEq P] [DecidableEq A] in
/-- Tasks that are level are waited for equally long. -/
theorem Level.patience {o o' : Option (Task P A V E)} (h : Level key terms test policy o o')
    (c c' : Cache P A V E) :
    (o'.map (Task.patience c')).getD 0 = (o.map (Task.patience c)).getD 0 := by
  cases h <;> rfl

omit [DecidableEq P] [DecidableEq A] in
/-- Tasks of which one is ahead are waited for equally long. -/
theorem Ahead.patience {o o' : Option (Task P A V E)} (h : Ahead key terms test o o')
    (c c' : Cache P A V E) :
    (o'.map (Task.patience c')).getD 0 = (o.map (Task.patience c)).getD 0 := by
  cases h <;> rfl

/-- Tasks that are level can be dropped together. -/
theorem taskPair_level (hQ : Accord Q) : Session.TaskPair Q (Level key terms test policy) where
  accord := hQ
  drop h hcaches := by
    cases h with
    | underway hstage =>
      cases hstage with
      | looking => exact hcaches
      | loading load => exact load.alike_drop hQ.toQuiet hcaches
    | spent | ended | gone => exact hcaches
  gone _ := .gone
  needs h := by cases h <;> exact .inl rfl

/-- Tasks of which one is ahead can be dropped together. -/
theorem taskPair_ahead (hQ : Accord Q) : Session.TaskPair Q (Ahead key terms test) where
  accord := hQ
  drop h hcaches := by cases h <;> exact hcaches
  gone _ := .gone
  needs h := by cases h <;> exact .inl rfl

/-- What two polls leave. -/
abbrev Leaves (Q : Environment P A V E → Environment P A V E → Prop)
    (T : Option (Task P A V E) → Option (Task P A V E) → Prop)
    (polled polled' : TaskAnswer (Item P V E) × Task P A V E × Cache P A V E) : Prop :=
  Agree (fun x x' => T (some x.1) (some x'.1) ∧ InStep Q x.2 x'.2) polled polled'

section Polls

variable [DecidableEq V]

/-- Two polls that answer the same. -/
theorem Tallies.leaves {stage stage' : CallStage P A V E}
    (h : Tallies key terms test policy Q (Call.poll ⟨key, terms, .judged test, stage⟩ c)
      (Call.poll ⟨key, terms, .policy policy, stage'⟩ c')) :
    Leaves Q (Level key terms test policy) ((judging key terms test stage).poll c)
      ((fetching key terms policy stage').poll c') := by
  unfold Task.poll
  dsimp only
  generalize hpoll : Call.poll ⟨key, terms, .judged test, stage⟩ c = polled at h
  generalize hpoll' : Call.poll ⟨key, terms, .policy policy, stage'⟩ c' = polled' at h
  cases h with
  | waits hstage hcaches =>
    rw [Fetch.poll_of_pending rfl hpoll']
    exact ⟨rfl, .underway hstage, hcaches⟩
  | yields result hcaches =>
    rw [Fetch.poll_of_last rfl hpoll' rfl]
    exact ⟨rfl, .spent _, hcaches⟩

/-- Two requests that are level answer the same, and stay level. -/
theorem level_poll (hQ : Accord Q) (hpolicy : policy ≠ .ifFailed)
    (hlook : ∀ {c c' : Cache P A V E}, policy = .ifHave → InStep Q c c' →
      Tallies key terms test .ifHave Q (Call.look ⟨key, terms, .judged test, .looking⟩ c)
        (Call.look ⟨key, terms, .policy .ifHave, .looking⟩ c')) {task task' : Task P A V E}
    (h : Level key terms test policy (some task) (some task')) (hcaches : InStep Q c c') :
    Leaves Q (Level key terms test policy) (task.poll c) (task'.poll c') := by
  cases h with
  | underway hstage =>
    apply Tallies.leaves
    cases hstage with
    | looking => exact hlook rfl hcaches
    | loading load => exact tallies_pollLoad hQ.toLockstep hpolicy hcaches _ _ load
  | spent latest => exact ⟨rfl, .ended, hcaches⟩
  | ended => exact ⟨rfl, .ended, hcaches⟩

end Polls

/-- What a lookup of the key may have told, and its being in vain, before the load begins. -/
inductive Extra (key : Key P A) (terms : Terms) : List (Event P A V E) → Prop where
  | missed {ks : List (Event P A V E)} (hlook : Looks key terms.maxAge ks none) : Extra key terms ks
  | rejected {ks : List (Event P A V E)} {delivery : Delivery V}
      (hlook : Looks key terms.maxAge ks (some delivery)) :
      Extra key terms (ks ++ [.rejected key])

/-! ## A lookup in vain -/

variable (P A V E) in
/-- Nothing is different between the environments but how often the test was made; reads of the
store and the clock have no effects. -/
abbrev Quiescent : Environment P A V E → Environment P A V E → Prop :=
  Environment.Spares (fun s s' => s' = s ∧ s.Prompt) Clock.Still []

/-- The store was read once more in the first environment, where `mid` was told. -/
abbrev ReadOnce (key : Key P A) (mid : List (Event P A V E)) :
    Environment P A V E → Environment P A V E → Prop :=
  Environment.Spares (Store.Spares key) (fun _ => True) mid

/-- Environments that differ in the number of tests stay so whatever a session does to both. -/
theorem accord_quiescent : Accord (Quiescent P A V E) :=
  Environment.accord_spares Store.lockstep_eq.prompt Clock.kept_still

/-- Environments of which one has read once more stay so whatever a session does to both. -/
theorem accord_readOnce (mid : List (Event P A V E)) : Accord (ReadOnce key mid) :=
  Environment.accord_spares (Store.lockstep_spares key) Clock.kept_any

/-- A lookup changes what the store keeps of its use and what was told, if a reading of the clock
has no effects. -/
theorem lookup_still {env : Environment P A V E} (h : env.clock.Still) (key : Key P A)
    (maxAge : Option Duration) :
    ∃ trace, (env.lookup key maxAge).2 =
      { env with store := (env.store.get key).2, trace := trace } := by
  have hread : ∀ env : Environment P A V E, env.clock.Still →
      env.readClock.2 = env.note (.clockRead env.readClock.1) := fun env h => by
    unfold Clock.Still at h
    unfold Environment.readClock
    dsimp only
    rw [h]
  unfold Environment.lookup
  rcases hfound : env.readStore key with ⟨_ | entry, env₁⟩
  · obtain rfl : (env.readStore key).2 = env₁ := congrArg Prod.snd hfound
    exact ⟨_, rfl⟩
  · obtain rfl : (env.readStore key).2 = env₁ := congrArg Prod.snd hfound
    have hclock := hread (env.readStore key).2 h
    dsimp only
    rw [hclock]
    split
    · exact ⟨_, rfl⟩
    · exact ⟨_, rfl⟩

/-- Where reads have no effects, a lookup leaves nothing but what it tells, and a test behind it
leaves that it rejects. -/
theorem spares_lookup {env env' : Environment P A V E} (h : Quiescent P A V E env env')
    (key : Key P A) (maxAge : Option Duration) :
    let looked := (env.lookup key maxAge).2
    ∃ ks, Looks key maxAge ks (env.lookup key maxAge).1 ∧ ReadOnce key ks looked env' ∧
      ReadOnce key (ks ++ [.rejected key])
        ({ looked with asked := looked.asked + 1 }.note (.rejected key)) env' := by
  obtain ⟨asked, store, trace, rfl, ⟨rfl, -⟩, hclock, htrace⟩ := h
  obtain rfl := inserted_nil.mp htrace
  obtain ⟨ks, htold, hlooks⟩ := env.looks_lookup key maxAge
  obtain ⟨told, hlooked⟩ := lookup_still hclock key maxAge
  obtain rfl : told = env.trace ++ ks := by rw [← htold, hlooked]
  dsimp only
  rw [hlooked]
  have hspares := Store.spares_get env.store key
  refine ⟨ks, hlooks, ?_, ?_⟩
  · refine ⟨asked, env.store, env.trace, rfl, hspares, trivial, env.trace, [], ?_, ?_⟩
    · rw [List.append_nil]
    · rw [List.append_nil]
  · refine ⟨asked, env.store, env.trace, rfl, hspares, trivial, env.trace, [], ?_, ?_⟩
    · rw [List.append_nil, ← List.append_assoc]
      rfl
    · rw [List.append_nil]

/-- With a test that accepts nothing, the first poll looks in vain, and then does what the request
does that does not look. -/
theorem ahead_poll [DecidableEq V] (htest : ∀ value, test value = .reject)
    (h : InStep (Quiescent P A V E) c c') :
    ∃ mid, Extra key terms mid ∧ Leaves (ReadOnce key mid) (Level key terms test .never)
      ((judging key terms test .looking).poll c)
      ((fetching key terms .never (.loading (.unstarted key terms.share))).poll c') := by
  obtain ⟨ks, hlooks, hspares, hrejected⟩ := spares_lookup h.env key terms.maxAge
  have hreadable : c.env.store.readable c.env.gates = true := by
    obtain ⟨_, _, _, -, ⟨-, hprompt⟩, -⟩ := h.env
    exact hprompt _
  have hlookup : c.lookup key terms.maxAge = some ((c.env.lookup key terms.maxAge).1,
      { c with env := (c.env.lookup key terms.maxAge).2 }) := by
    unfold Cache.lookup
    rw [if_pos hreadable]
  -- Behind the lookup, the one request begins the load that the other has ahead.
  have hload : ∀ {mid : List (Event P A V E)} {env : Environment P A V E},
      ReadOnce key mid env c'.env →
      Tallies key terms test .never (ReadOnce key mid)
        (Call.beginLoad ⟨key, terms, .judged test, .looking⟩ { c with env })
        (Call.poll ⟨key, terms, .policy .never, .loading (.unstarted key terms.share)⟩ c') :=
    fun {mid env} henv => by
      have hcaches : InStep (ReadOnce key mid) { c with env } c' := ⟨henv, h.flights⟩
      have hnever : Policy.never ≠ .ifFailed := nofun
      exact tallies_pollLoad (accord_readOnce mid).toLockstep hnever hcaches _ _ _
  cases hfound : (c.env.lookup key terms.maxAge).1 with
  | none =>
    rw [hfound] at hlooks hlookup
    refine ⟨ks, .missed hlooks, Tallies.leaves ?_⟩
    have hpoll : Call.poll ⟨key, terms, .judged test, .looking⟩ c = Call.beginLoad
        ⟨key, terms, .judged test, .looking⟩
        { c with env := (c.env.lookup key terms.maxAge).2 } := by
      unfold Call.poll Call.look
      dsimp only
      rw [hlookup]
      rfl
    rw [hpoll]
    exact hload hspares
  | some delivery =>
    rw [hfound] at hlooks hlookup
    refine ⟨_, .rejected hlooks, Tallies.leaves ?_⟩
    have hpoll : Call.poll ⟨key, terms, .judged test, .looking⟩ c = Call.beginLoad
        ⟨key, terms, .judged test, .looking⟩ { c with env :=
          { (c.env.lookup key terms.maxAge).2 with
            asked := (c.env.lookup key terms.maxAge).2.asked + 1 }.note (.rejected key) } := by
      unfold Call.poll Call.look
      dsimp only
      rw [hlookup]
      dsimp only
      unfold Call.useStored
      dsimp only
      rw [htest]
      rfl
    rw [hpoll]
    exact hload hrejected

end Judged

end ReadThrough
