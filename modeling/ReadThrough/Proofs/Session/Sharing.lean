import ReadThrough.Proofs.Session.Topics
/-!
# Proofs: tasks in two runs

A task that does not listen is the same in two runs. One that listens may stand at another position
of its channel, and is the same otherwise (`Task.Alike`). As long as it has the same to read there,
it answers the same, and goes on alike (`Task.alike_poll`).
-/

namespace ReadThrough

variable {P A V E : Type}

/-! ## Channels that are left -/

/-- A subscriber leaves. -/
def Topic.part (topic : Topic) (v : Outputs P A V E) : Outputs P A V E :=
  match topic with
  | .updates => { v with updates := v.updates.unsubscribe }
  | .errors => { v with errors := v.errors.unsubscribe }

namespace Cache.InStep

variable {R R' : Outputs P A V E → Outputs P A V E → Prop} {c c' : Cache P A V E}

/-- A subscriber leaves both caches, if the relation allows it. -/
theorem leave (h : Cache.Alike R c c') (topic : Topic)
    (hleaves : ∀ {v v'}, R v v' → R' (topic.part v) (topic.part v')) :
    Cache.Alike R' (topic.leave c) (topic.leave c') := by
  obtain ⟨⟨v, henv, hv⟩, hflights⟩ := h
  unfold Topic.leave
  rw [henv]
  refine ⟨⟨topic.part v, ?_, ?_⟩, ?_⟩
  · cases topic <;> rfl
  · have hparts := hleaves hv
    cases topic <;> exact hparts
  · cases topic <;> exact hflights

/-- What holds between the outputs besides. -/
theorem of_outputs (h : Cache.Alike R c c') (hR' : R' c.env.outputs c'.env.outputs) :
    Cache.Alike R' c c' := ⟨h.env.of_outputs hR', h.flights⟩

end Cache.InStep

/-! ## Relations between outputs -/

namespace Outputs

/-- Relations between outputs for polls: `R` for tasks that do not listen, and `Q` for those that
listen to a channel, at one position in the ones and at another in the others. -/
structure Shared (R : Outputs P A V E → Outputs P A V E → Prop)
    (Q : Topic → Nat → Nat → Outputs P A V E → Outputs P A V E → Prop) : Prop where
  kept : Kept R
  listening : ∀ topic p p', Kept (Q topic p p')
  heard : ∀ topic : Topic, Heard topic.channel (Q topic)

/-- As `Shared`, for tasks that are dropped. -/
structure Parting (R : Outputs P A V E → Outputs P A V E → Prop)
    (Q : Topic → Nat → Nat → Outputs P A V E → Outputs P A V E → Prop) : Prop where
  noting : Noting R
  leaves : ∀ (topic : Topic) {p p' v v'}, Q topic p p' v v' → R (topic.part v) (topic.part v')

end Outputs

namespace Environment

variable [DecidableEq P] [DecidableEq A]

/-- Relations between environments for tasks that listen to a channel, at one position in the one
environment and at another in the other. -/
structure Listening (L : Topic → Nat → Nat → Environment P A V E → Environment P A V E → Prop) :
    Prop where
  listening : ∀ topic p p', Working (L topic p p')
  heard : ∀ topic : Topic, Heard (fun env => topic.channel env.outputs) (L topic)

/-- Relations between environments for polls: `Q` for tasks that do not listen, and `L` for those
that do. -/
structure Shared (Q : Environment P A V E → Environment P A V E → Prop)
    (L : Topic → Nat → Nat → Environment P A V E → Environment P A V E → Prop) : Prop extends
    Listening L where
  kept : Lockstep Q

/-- As `Shared`, for tasks that are dropped. -/
structure Parting (Q : Environment P A V E → Environment P A V E → Prop)
    (L : Topic → Nat → Nat → Environment P A V E → Environment P A V E → Prop) : Prop where
  quiet : Quiet Q
  leaves : ∀ (topic : Topic) {p p'} {c c' : Cache P A V E}, Cache.InStep (L topic p p') c c' →
    Cache.InStep Q (topic.leave c) (topic.leave c')

omit [DecidableEq P] [DecidableEq A] in
/-- The messages of the channel of results are read as the items that they are for subscribers. -/
theorem Heard.updates {L : Nat → Nat → Environment P A V E → Environment P A V E → Prop}
    (h : Heard (fun env => Topic.channel .updates env.outputs) L) :
    Heard Environment.updates L where
  missed henv := by simpa [Topic.channel, outputs] using h.missed henv
  unread henv := by
    have hread := h.unread henv
    simp only [Topic.channel, Channel.unread_map] at hread
    refine List.map_injective_iff.mpr ?_ hread
    rintro ⟨params, delivery⟩ ⟨params', delivery'⟩ heq
    cases heq
    rfl
  closed henv := h.closed henv
  goes henv k hk := by
    have hgoes := h.goes henv k (by simpa [Topic.channel, outputs] using hk)
    simpa [Topic.channel, outputs] using hgoes

end Environment

namespace Outputs

variable [DecidableEq P] [DecidableEq A] {R : Outputs P A V E → Outputs P A V E → Prop}
  {Q : Topic → Nat → Nat → Outputs P A V E → Outputs P A V E → Prop}

/-- Relations between outputs for polls are relations between environments for polls. -/
theorem Shared.environments (h : Shared R Q) :
    Environment.Shared (Environment.Alike R)
      fun topic p p' => Environment.Alike (Q topic p p') where
  kept := h.kept.lockstep
  listening topic p p' := (h.listening topic p p').working
  heard topic := (h.heard topic).environments

/-- Relations between outputs for tasks that are dropped are such relations between environments. -/
theorem Parting.environments (h : Parting R Q) :
    Environment.Parting (Environment.Alike R)
      fun topic p p' => Environment.Alike (Q topic p p') where
  quiet := h.noting.quiet
  leaves topic _ _ _ _ hcaches := Cache.InStep.leave hcaches topic (h.leaves topic)

end Outputs

/-! ## Tasks -/

namespace Task

open Cache (InStep)

/-- Two tasks differ in their positions at most. `D` holds if they do not listen, and `K` holds of
the positions if they do. -/
inductive Alike (D : Prop) (K : Topic → Nat → Nat → Prop) :
    Task P A V E → Task P A V E → Prop where
  | deaf {task : Task P A V E} (hdeaf : ∀ topic : Topic, topic.listening task = 0) (h : D) :
      Alike D K task task
  | watch (w : Watch P A V E) {p' : Nat} (h : K .updates w.position p') :
      Alike D K (.watch w) (.watch { w with position := p' })
  | listens (topic : Topic) {task task' : Task P A V E} {p p' : Nat} (htask : task = topic.task p)
      (htask' : task' = topic.task p') (h : K topic p p') : Alike D K task task'

variable {D D' : Prop} {K K' : Topic → Nat → Nat → Prop} {task task' : Task P A V E}

/-- A task goes on after every answer but its last one. -/
theorem after_of_not_last {I : Type} {answer : Answer I} (h : answer.isLast = false) :
    after answer task = task := by
  cases answer with
  | pending | item => rfl
  | done | panicked => cases h

/-- A subscriber listens to its own channel. -/
theorem listening_task (topic told : Topic) (p : Nat) :
    topic.listening (told.task p : Task P A V E) = if topic = told then 1 else 0 := by
  cases topic <;> cases told <;> rfl

/-- A watch listens to the updates. -/
theorem listening_watch (topic : Topic) (w : Watch P A V E) :
    topic.listening (.watch w : Task P A V E) = if topic = .updates then 1 else 0 := by
  cases topic <;> rfl

namespace Alike

/-- Tasks that are alike hold as many subscriptions. -/
theorem listening (h : Alike D K task task') (topic : Topic) :
    topic.listening task' = topic.listening task := by
  cases h with
  | deaf => rfl
  | watch w => cases topic <;> rfl
  | listens told htask htask' => rw [htask, htask', listening_task, listening_task]

/-- Tasks that are alike need the cache alike. -/
theorem needsCache (h : Alike D K task task') : task'.needsCache = task.needsCache := by
  cases h with
  | deaf | watch => rfl
  | listens topic htask htask' =>
    rw [htask, htask']
    cases topic <;> rfl

/-- Tasks stay alike under whatever the relation of their positions implies. -/
theorem mono (h : Alike D K task task') (hD : D → D')
    (hK : ∀ topic p p', 0 < topic.listening task → K topic p p' → K' topic p p') :
    Alike D' K' task task' := by
  cases h with
  | deaf hdeaf h => exact .deaf hdeaf (hD h)
  | watch w h => exact .watch w (hK _ _ _ Nat.one_pos h)
  | listens topic htask htask' h =>
    refine .listens topic htask htask' (hK _ _ _ ?_ h)
    rw [htask, listening_task, if_pos rfl]
    exact Nat.one_pos

end Alike

section Sharing

variable [DecidableEq P] [DecidableEq A] {Q Q' : Environment P A V E → Environment P A V E → Prop}
  {L L' : Topic → Nat → Nat → Environment P A V E → Environment P A V E → Prop}
  {c c' : Cache P A V E}

/-- Two tasks in caches that are in step, where `Q` or `L` holds. -/
abbrev Shares (Q : Environment P A V E → Environment P A V E → Prop)
    (L : Topic → Nat → Nat → Environment P A V E → Environment P A V E → Prop)
    (s s' : Task P A V E × Cache P A V E) : Prop :=
  Alike (InStep Q s.2 s'.2) (fun topic p p' => InStep (L topic p p') s.2 s'.2) s.1 s'.1

/-- Tasks that are alike are dropped alike. -/
theorem alike_drop (hparting : Environment.Parting Q L) (h : Shares Q L (task, c) (task', c')) :
    InStep Q (task.drop c) (task'.drop c') := by
  cases h with
  | deaf hdeaf h =>
    cases task with
    | call whole call => exact call.alike_drop hparting.quiet h
    | fetch f => exact f.call.alike_drop hparting.quiet h
    | ended => exact h
    | watch w => exact absurd (hdeaf .updates) Nat.one_ne_zero
    | updates p => exact absurd (hdeaf .updates) Nat.one_ne_zero
    | errors p => exact absurd (hdeaf .errors) Nat.one_ne_zero
  | watch w h =>
    have hleft := hparting.leaves .updates h
    show InStep Q (w.drop c) (Watch.drop _ c')
    unfold Watch.drop
    cases w.inquiry with
    | answered => exact hleft
    | loading remaining load => exact load.alike_drop hparting.quiet hleft
  | listens topic htask htask' h =>
    have hleft := hparting.leaves topic h
    subst htask htask'
    cases topic <;> exact hleft

variable [DecidableEq V]

/-- A task that listens has the same to read. -/
theorem alike_poll_listening (hlistening : Environment.Listening L)
    (hparting : Environment.Parting Q' L')
    (hL : ∀ {topic p p' env env'}, L topic p p' env env' → L' topic p p' env env')
    {topic : Topic} (htopic : 0 < topic.listening task) (h : Shares Q L (task, c) (task', c')) :
    Agree (Shares Q' L') (task.poll c) (task'.poll c') := by
  cases h with
  | deaf hdeaf => exact absurd (hdeaf topic) htopic.ne'
  | @watch w p' h =>
    let w' : Watch P A V E := { w with position := p' }
    have hstarts : Watch.Alike (L .updates) (w, c) (w', c') := ⟨rfl, h⟩
    obtain ⟨hanswer, hwatch, hcache⟩ :=
      Watch.alike_poll (hlistening.listening .updates) (hlistening.heard .updates).updates hstarts
    have hlast := w.isLast_poll c
    have hlast' := w'.isLast_poll c'
    unfold poll
    dsimp only
    generalize w.poll c = polled, w'.poll c' = polled' at hanswer hwatch hcache hlast hlast' ⊢
    obtain ⟨answer, w₁, c₁⟩ := polled
    obtain ⟨_, w₁', c₁'⟩ := polled'
    obtain rfl := hanswer
    rw [after_of_not_last hlast, after_of_not_last hlast]
    obtain ⟨p₁, rfl⟩ : ∃ p₁, w₁' = { w₁ with position := p₁ } := ⟨_, hwatch⟩
    exact ⟨rfl, .watch w₁ (hcache.mono hL)⟩
  | @listens told _ _ p p' htask htask' h =>
    have hstarts : InStep (L told p p') c c' := h
    clear h
    subst htask htask'
    obtain ⟨hmissed, hreceived⟩ := (hlistening.heard told).receive hstarts.env (fun _ => true)
    have hnoted : ∀ {q q'}, L told q q' c.env c'.env → ∀ missed,
        InStep (L told q q') (c.noteMissed told.name missed)
          (c'.noteMissed told.name missed) := fun {q q'} hq missed =>
      have hstands : InStep (L told q q') c c' := ⟨hq, hstarts.flights⟩
      hstands.noteMissed (hlistening.listening told _ _).toQuiet told.name missed
    rw [poll_task, poll_task]
    rcases hfound : (told.channel c.env.outputs).receive (fun _ => true) p with ⟨missed, received⟩
    rcases hfound' : (told.channel c'.env.outputs).receive (fun _ => true) p' with
      ⟨missed', received'⟩
    rw [hfound, hfound'] at hmissed hreceived
    obtain rfl : missed' = missed := hmissed
    cases hreceived with
    | message item hq => exact ⟨rfl, .listens told rfl rfl ((hnoted hq _).mono hL)⟩
    | nothing hq => exact ⟨rfl, .listens told rfl rfl ((hnoted hq _).mono hL)⟩
    | ended =>
      have hleft := hparting.leaves told ((hnoted hstarts.env missed').mono hL)
      exact ⟨rfl, .deaf (fun topic => topic.listening_ended) hleft⟩

/-- Tasks that are alike answer the same, and stay alike as the caches stay in step. -/
theorem alike_poll (hshared : Environment.Shared Q L) (hparting : Environment.Parting Q' L')
    (hQ : ∀ {env env'}, Q env env' → Q' env env')
    (hL : ∀ {topic p p' env env'}, L topic p p' env env' → L' topic p p' env env')
    (h : Shares Q L (task, c) (task', c')) :
    Agree (Shares Q' L') (task.poll c) (task'.poll c') := by
  have hlistening := fun {topic : Topic} (htopic : 0 < topic.listening task) =>
    alike_poll_listening hshared.toListening hparting hL htopic h
  cases h with
  | deaf hdeaf h =>
    cases task with
    | ended => exact ⟨rfl, .deaf hdeaf (h.mono hQ)⟩
    | watch w => exact absurd (hdeaf .updates) Nat.one_ne_zero
    | updates p => exact absurd (hdeaf .updates) Nat.one_ne_zero
    | errors p => exact absurd (hdeaf .errors) Nat.one_ne_zero
    | call whole call =>
      have hstarts : InStep Q c c' := h
      obtain ⟨answer, ⟨_, c₁⟩, ⟨call₁, c₁'⟩, hpoll, hpoll', rfl, h₁⟩ :=
        (call.alike_poll hshared.kept hstarts).split
      unfold poll
      dsimp only
      rw [hpoll, hpoll']
      refine ⟨rfl, .deaf (fun topic => ?_) (h₁.mono hQ)⟩
      rw [weight_after topic.listening_ended _ fun _ => by cases topic <;> rfl]
      cases topic <;> rfl
    | fetch f =>
      have hstarts : InStep Q c c' := h
      obtain ⟨answer, ⟨_, c₁⟩, ⟨f₁, c₁'⟩, hpoll, hpoll', rfl, h₁⟩ :=
        (f.alike_poll hshared.kept hstarts).split
      unfold poll
      dsimp only
      rw [hpoll, hpoll']
      refine ⟨rfl, .deaf (fun topic => ?_) (h₁.mono hQ)⟩
      rw [weight_after topic.listening_ended _ fun _ => by cases topic <;> rfl]
      cases topic <;> rfl
  | watch w => exact @hlistening .updates Nat.one_pos
  | @listens topic _ _ p p' htask =>
    have hlistens : topic.listening task = 1 := by
      rw [show task = topic.task p from htask, listening_task, if_pos rfl]
    exact hlistening (hlistens ▸ Nat.one_pos)

end Sharing

end Task

/-! ## The same channels -/

/-- Environments that are related have the same channels, and stay related when these change. -/
structure Environment.Tuned [DecidableEq P] [DecidableEq A]
    (Q : Environment P A V E → Environment P A V E → Prop) : Prop extends Working Q where
  updates : ∀ {env env'}, Q env env' → env'.updates = env.updates
  errors : ∀ {env env'}, Q env env' → env'.errors = env.errors
  withUpdates : ∀ {env env'} (channel : Channel (P × Delivery V)), Q env env' →
    Q { env with updates := channel } { env' with updates := channel }
  withErrors : ∀ {env env'} (channel : Channel (P × Failure E)), Q env env' →
    Q { env with errors := channel } { env' with errors := channel }

section Tuned

variable [DecidableEq P] [DecidableEq A] {Q : Environment P A V E → Environment P A V E → Prop}
  {c c' : Cache P A V E}

namespace Environment.Tuned

/-- Both channels are the same in environments that are related. -/
theorem channel (hQ : Tuned Q) {env env' : Environment P A V E} (h : Q env env') (topic : Topic) :
    topic.channel env'.outputs = topic.channel env.outputs := by
  unfold Topic.channel outputs
  dsimp only
  rw [hQ.updates h, hQ.errors h]

/-- Subscribers stand at the same positions. -/
theorem listening (hQ : Tuned Q) : Listening fun _ p p' env env' => p' = p ∧ Q env env' where
  listening _ _ _ := hQ.toWorking.const _
  heard topic := by
    constructor
    · rintro p _ env env' ⟨rfl, h⟩
      rw [hQ.channel h]
    · rintro p _ env env' ⟨rfl, h⟩
      rw [hQ.channel h]
    · rintro p _ env env' ⟨rfl, h⟩
      rw [hQ.channel h]
    · rintro p _ env env' ⟨rfl, h⟩ k -
      exact ⟨by rw [hQ.channel h], h⟩

/-- Environments that are related allow polls of tasks at the same position. -/
theorem shared (hQ : Tuned Q) (hkept : Lockstep Q) :
    Shared Q fun _ p p' env env' => p' = p ∧ Q env env' where
  toListening := hQ.listening
  kept := hkept

/-- Environments that are related allow tasks at the same position to be dropped. -/
theorem parting (hQ : Tuned Q) : Parting Q fun _ p p' env env' => p' = p ∧ Q env env' where
  quiet := hQ.toQuiet
  leaves topic := by
    rintro p p' c c' ⟨⟨rfl, henv⟩, hflights⟩
    cases topic with
    | updates =>
      have hleft := hQ.withUpdates c.env.updates.unsubscribe henv
      refine ⟨?_, hflights⟩
      unfold Topic.leave
      dsimp only
      rwa [hQ.updates henv]
    | errors =>
      have hleft := hQ.withErrors c.env.errors.unsubscribe henv
      refine ⟨?_, hflights⟩
      unfold Topic.leave
      dsimp only
      rwa [hQ.errors henv]

end Environment.Tuned

namespace Task

open Cache (InStep)
open Environment (Tuned Lockstep)

omit [DecidableEq P] [DecidableEq A] in
/-- Tasks that are alike at the same position are the same. -/
theorem Shares.tuned {task task' : Task P A V E}
    (h : Shares Q (fun _ p p' env env' => p' = p ∧ Q env env') (task, c) (task', c')) :
    task' = task ∧ InStep Q c c' := by
  cases h with
  | deaf hdeaf h => exact ⟨rfl, h⟩
  | watch w h =>
    obtain ⟨rfl, henv⟩ := h.env
    exact ⟨rfl, henv, h.flights⟩
  | listens topic htask htask' h =>
    obtain ⟨rfl, henv⟩ := h.env
    exact ⟨htask'.trans htask.symm, henv, h.flights⟩

omit [DecidableEq P] [DecidableEq A] in
/-- A task is alike itself at its own position. -/
theorem shares_tuned (h : InStep Q c c') (task : Task P A V E) :
    Shares Q (fun _ p p' env env' => p' = p ∧ Q env env') (task, c) (task, c') := by
  have hat : ∀ {p : Nat}, InStep (fun env env' => p = p ∧ Q env env') c c' :=
    ⟨⟨rfl, h.env⟩, h.flights⟩
  cases task with
  | call | fetch => exact .deaf (fun topic => by cases topic <;> rfl) h
  | ended => exact .deaf (fun topic => topic.listening_ended) h
  | watch w => exact .watch w hat
  | updates p => exact .listens .updates rfl rfl hat
  | errors p => exact .listens .errors rfl rfl hat

/-- A task is dropped alike from environments that are related. -/
theorem tuned_drop (hQ : Tuned Q) (h : InStep Q c c') (task : Task P A V E) :
    InStep Q (task.drop c) (task.drop c') :=
  alike_drop hQ.parting (shares_tuned h task)

/-- The same task answers the same in both environments, and is the same afterwards. -/
theorem tuned_poll [DecidableEq V] (hQ : Tuned Q) (hkept : Lockstep Q) (h : InStep Q c c')
    (task : Task P A V E) : Agree (Agree (InStep Q)) (task.poll c) (task.poll c') := by
  obtain ⟨hanswer, hshares⟩ := alike_poll (hQ.shared hkept) hQ.parting id id (shares_tuned h task)
  exact ⟨hanswer, Shares.tuned hshares⟩

end Task

end Tuned

end ReadThrough
