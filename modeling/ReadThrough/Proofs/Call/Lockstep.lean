import ReadThrough.Fetch
import ReadThrough.Watch
import ReadThrough.Proofs.Load.Outputs
/-!
# Proofs: requests and watches in lockstep

A request is the same in environments that go in lockstep: it answers the same, and leaves caches
that are in step as before (`Call.alike_poll`, `Fetch.alike_poll`). A watch listens to a channel
besides. If two positions have the same to read there (`Environment.Heard`), two watches that differ
only in these positions answer the same, and the positions that they go on to have the same to read
(`Watch.alike_poll`). It is enough that the outputs of the two environments have it
(`Outputs.Heard`), since the channels are part of them.
-/

namespace ReadThrough

open Cache (InStep)
open Environment (Quiet Working Lockstep)

variable {P A V E : Type} [DecidableEq P] [DecidableEq A]
  {Q : Environment P A V E → Environment P A V E → Prop} {c c' : Cache P A V E}

/-! ## Requests -/

namespace Call

omit [DecidableEq P] [DecidableEq A] in
/-- A request yields its last result in both caches. -/
theorem alike_yieldLast (h : InStep Q c c') (call : Call P A V E) (result : Result V E) :
    Agree (Agree (InStep Q)) (call.yieldLast result c) (call.yieldLast result c') :=
  ⟨rfl, rfl, h⟩

/-- The lookup that rescues a failed load answers the same in both caches. -/
theorem alike_rescue (hQ : Lockstep Q) (h : InStep Q c c') (call : Call P A V E)
    (failure : Failure E) :
    Agree (Agree (InStep Q)) (call.rescue failure c) (call.rescue failure c') := by
  have hlook := h.lookup hQ call.key call.terms.maxAge
  unfold rescue
  generalize c.lookup call.key call.terms.maxAge = found at hlook ⊢
  generalize c'.lookup call.key call.terms.maxAge = found' at hlook ⊢
  cases hlook with
  | none => exact ⟨rfl, rfl, h⟩
  | some hfound =>
    obtain ⟨entry, c₁, c₁', rfl, rfl, h₁⟩ := hfound.split
    cases entry with
    | none => exact alike_yieldLast h₁ call _
    | some delivery => exact alike_yieldLast (h₁.note hQ.toQuiet rfl) call _

variable (hQ : Lockstep Q)
include hQ

/-- A request makes the same of the result of its load in both caches. -/
theorem alike_settle (h : InStep Q c c') (call : Call P A V E) (result : Result V E) :
    Agree (Agree (InStep Q)) (call.settle result c) (call.settle result c') := by
  unfold settle
  split
  · exact alike_rescue hQ h call _
  · exact alike_yieldLast h call _

/-- The load of a request is polled alike in both caches. -/
theorem alike_pollLoad (h : InStep Q c c') (call : Call P A V E) (load : Load P A V E) :
    Agree (Agree (InStep Q)) (call.pollLoad load c) (call.pollLoad load c') := by
  obtain ⟨progress, c₁, c₁', hpoll, hpoll', h₁⟩ := (load.alike_poll hQ.toWorking h).split
  unfold pollLoad
  rw [hpoll, hpoll']
  cases progress with
  | waiting load => exact ⟨rfl, rfl, h₁⟩
  | finished result => exact alike_settle hQ h₁ call result

/-- A request begins its load alike in both caches. -/
theorem alike_beginLoad (h : InStep Q c c') (call : Call P A V E) :
    Agree (Agree (InStep Q)) (call.beginLoad c) (call.beginLoad c') :=
  alike_pollLoad hQ h call _

/-- A usable entry is used alike in both caches. -/
theorem alike_useStored (h : InStep Q c c') (call : Call P A V E) (delivery : Delivery V) :
    Agree (Agree (InStep Q)) (call.useStored delivery c) (call.useStored delivery c') := by
  have hasked : InStep Q { c with env.asked := c.env.asked + 1 }
      { c' with env.asked := c'.env.asked + 1 } := by
    exact ⟨hQ.judge h.env, h.flights⟩
  unfold useStored
  split
  · exact ⟨rfl, rfl, h⟩
  · exact alike_yieldLast h call _
  · dsimp only
    split
    · exact alike_yieldLast hasked call _
    · exact alike_beginLoad hQ (hasked.note hQ.toQuiet rfl) call
    · exact ⟨rfl, rfl, hasked⟩

/-- Without a usable entry a request goes on alike in both caches. -/
theorem alike_goWithout (h : InStep Q c c') (call : Call P A V E) :
    Agree (Agree (InStep Q)) (call.goWithout c) (call.goWithout c') := by
  unfold goWithout
  split
  · exact alike_yieldLast (h.note hQ.toQuiet rfl) call _
  · exact alike_beginLoad hQ h call

/-- A lookup finds the same in both caches. -/
theorem alike_look (h : InStep Q c c') (call : Call P A V E) :
    Agree (Agree (InStep Q)) (call.look c) (call.look c') := by
  have hlook := h.lookup hQ call.key call.terms.maxAge
  unfold look
  generalize c.lookup call.key call.terms.maxAge = found at hlook ⊢
  generalize c'.lookup call.key call.terms.maxAge = found' at hlook ⊢
  cases hlook with
  | none => exact ⟨rfl, rfl, h⟩
  | some hfound =>
    obtain ⟨entry, c₁, c₁', rfl, rfl, h₁⟩ := hfound.split
    cases entry with
    | none => exact alike_goWithout hQ h₁ call
    | some delivery => exact alike_useStored hQ h₁ call delivery

/-- A poll of a request answers the same in both caches, and leaves the caches in step. -/
theorem alike_poll (h : InStep Q c c') (call : Call P A V E) :
    Agree (Agree (InStep Q)) (call.poll c) (call.poll c') := by
  unfold poll
  cases call.stage with
  | looking => exact alike_look hQ h call
  | loading load => exact alike_pollLoad hQ h call load
  | rescuing failure => exact alike_rescue hQ h call failure
  | spent => exact ⟨rfl, rfl, h⟩

omit hQ in
/-- Dropping a request leaves the caches in step. -/
theorem alike_drop (hQ : Quiet Q) (h : InStep Q c c') (call : Call P A V E) :
    InStep Q (call.drop c) (call.drop c') := by
  unfold drop
  cases call.stage with
  | loading load => exact load.alike_drop hQ h
  | looking | rescuing | spent => exact h

end Call

namespace Fetch

variable (hQ : Lockstep Q)
include hQ

/-- A fetch collects the same from both caches. -/
theorem alike_collect (polls : Nat) (h : InStep Q c c') (f : Fetch P A V E) :
    Agree (Agree (InStep Q)) (f.collect polls c) (f.collect polls c') := by
  induction polls generalizing f c c' with
  | zero => exact ⟨rfl, rfl, h⟩
  | succ polls ih =>
    obtain ⟨answer, _, _, hpoll, hpoll', hrest⟩ := (f.call.alike_poll hQ h).split
    obtain ⟨call, c₁, c₁', rfl, rfl, h₁⟩ := hrest.split
    unfold collect
    rw [hpoll, hpoll']
    cases answer with
    | pending => exact ⟨rfl, rfl, h₁⟩
    | item result => exact ih h₁ _
    | done => exact ⟨rfl, rfl, h₁⟩
    | panicked message => exact ⟨rfl, rfl, h₁⟩

/-- A poll of a fetch answers the same in both caches, and leaves the caches in step. -/
theorem alike_poll (h : InStep Q c c') (f : Fetch P A V E) :
    Agree (Agree (InStep Q)) (f.poll c) (f.poll c') := by
  unfold poll
  split
  · exact ⟨rfl, rfl, h⟩
  · exact alike_collect hQ 3 h f

end Fetch

/-- The load of a listening call is polled alike in both caches, with the same attempts left. -/
theorem Load.alike_pollRetrying (hQ : Working Q) (key : Key P A) (retries remaining : Nat)
    (h : InStep Q c c') (load : Load P A V E) :
    Agree (InStep Q) (load.pollRetrying key retries remaining c)
      (load.pollRetrying key retries remaining c') := by
  induction remaining generalizing load c c' with
  | zero =>
    obtain ⟨progress, c₁, c₁', hpoll, hpoll', h₁⟩ := (load.alike_poll hQ h).split
    unfold pollRetrying
    rw [hpoll, hpoll']
    rcases progress with rest | (failure | delivery)
    · exact ⟨rfl, h₁⟩
    · exact ⟨rfl, h₁⟩
    · exact ⟨rfl, h₁⟩
  | succ remaining ih =>
    obtain ⟨progress, c₁, c₁', hpoll, hpoll', h₁⟩ := (load.alike_poll hQ h).split
    unfold pollRetrying
    rw [hpoll, hpoll']
    rcases progress with rest | (failure | delivery)
    · exact ⟨rfl, h₁⟩
    · exact ih (h₁.note hQ.toQuiet rfl) _
    · exact ⟨rfl, h₁⟩

/-! ## What a subscriber hears -/

namespace Channel

variable {M : Type} {d d' : Channel M}

/-- Two subscribers find the same, and go on to positions that are related. -/
inductive Received.Alike (Q : Nat → Nat → Prop) : Received M → Received M → Prop where
  | message (m : M) {position position' : Nat} (hgoes : Q position position') :
      Alike Q (.message m position) (.message m position')
  | nothing {position position' : Nat} (hgoes : Q position position') :
      Alike Q (.nothing position) (.nothing position')
  | ended : Alike Q .ended .ended

/-- A scan from related positions finds the same message and goes on to related positions. -/
theorem alike_scan {Q : Nat → Nat → Prop} (hclosed : d'.closed = d.closed) (wanted : M → Bool)
    (unread : List M) {position position' : Nat}
    (hgoes : ∀ k ≤ unread.length, Q (position + k) (position' + k)) :
    Received.Alike Q (receive.scan d wanted position unread)
      (receive.scan d' wanted position' unread) := by
  induction unread generalizing position position' with
  | nil =>
    unfold receive.scan
    rw [hclosed]
    split
    · exact .ended
    · exact .nothing (hgoes 0 (Nat.zero_le _))
  | cons m rest ih =>
    unfold receive.scan
    split
    · exact .message m (hgoes 1 (Nat.succ_le_succ (Nat.zero_le _)))
    · refine ih fun k hk => ?_
      have hnext := hgoes (k + 1) (Nat.succ_le_succ hk)
      rwa [Nat.add_comm k 1, ← Nat.add_assoc, ← Nat.add_assoc] at hnext

end Channel

/-- As long as the relation holds for two positions, they have the same to read in a channel of the
environments, and so have those that are read up to. -/
structure Environment.Heard {M : Type} (channel : Environment P A V E → Channel M)
    (Q : Nat → Nat → Environment P A V E → Environment P A V E → Prop) : Prop where
  missed : ∀ {p p' env env'}, Q p p' env env' →
    (channel env').missed p' = (channel env).missed p
  unread : ∀ {p p' env env'}, Q p p' env env' →
    (channel env').unread p' = (channel env).unread p
  closed : ∀ {p p' env env'}, Q p p' env env' → (channel env').closed = (channel env).closed
  goes : ∀ {p p' env env'}, Q p p' env env' → ∀ k ≤ ((channel env).unread p).length,
    Q (max p (channel env).oldest + k) (max p' (channel env').oldest + k) env env'

omit [DecidableEq P] [DecidableEq A] in
/-- A subscriber finds the same message in a channel of both environments, from positions that are
related. -/
theorem Environment.Heard.receive {M : Type} {channel : Environment P A V E → Channel M}
    {Q : Nat → Nat → Environment P A V E → Environment P A V E → Prop}
    (h : Environment.Heard channel Q)
    {p p' : Nat} {env env' : Environment P A V E} (henv : Q p p' env env') (wanted : M → Bool) :
    ((channel env').receive wanted p').1 = ((channel env).receive wanted p).1 ∧
      Channel.Received.Alike (Q · · env env') ((channel env).receive wanted p).2
        ((channel env').receive wanted p').2 := by
  unfold Channel.receive
  rw [h.missed henv, h.unread henv]
  exact ⟨rfl, Channel.alike_scan (h.closed henv) wanted _ (h.goes henv)⟩

/-- As long as the relation holds for two positions, they have the same to read in a channel of the
outputs, and so have those that are read up to. -/
structure Outputs.Heard {M : Type} (channel : Outputs P A V E → Channel M)
    (Q : Nat → Nat → Outputs P A V E → Outputs P A V E → Prop) : Prop where
  missed : ∀ {p p' v v'}, Q p p' v v' → (channel v').missed p' = (channel v).missed p
  unread : ∀ {p p' v v'}, Q p p' v v' → (channel v').unread p' = (channel v).unread p
  closed : ∀ {p p' v v'}, Q p p' v v' → (channel v').closed = (channel v).closed
  goes : ∀ {p p' v v'}, Q p p' v v' → ∀ k ≤ ((channel v).unread p).length,
    Q (max p (channel v).oldest + k) (max p' (channel v').oldest + k) v v'

omit [DecidableEq P] [DecidableEq A] in
/-- Positions that have the same to read in two outputs have it in the environments. -/
theorem Outputs.Heard.environments {M : Type} {channel : Outputs P A V E → Channel M}
    {Q : Nat → Nat → Outputs P A V E → Outputs P A V E → Prop} (h : Outputs.Heard channel Q) :
    Environment.Heard (fun env => channel env.outputs) fun p p' => Environment.Alike (Q p p') where
  missed henv := h.missed henv.outputs
  unread henv := h.unread henv.outputs
  closed henv := h.closed henv.outputs
  goes henv k hk := henv.of_outputs (h.goes henv.outputs k hk)

/-! ## Watches -/

namespace Watch

/-- Two watches differ in their positions at most, and the relation of their positions holds between
the environments. -/
def Alike (Q : Nat → Nat → Environment P A V E → Environment P A V E → Prop)
    (s s' : Watch P A V E × Cache P A V E) : Prop :=
  s'.1 = { s.1 with position := s'.1.position } ∧
    InStep (Q s.1.position s'.1.position) s.2 s'.2

variable {Q : Nat → Nat → Environment P A V E → Environment P A V E → Prop} {w w' : Watch P A V E}
  (hkept : ∀ p p', Working (Q p p')) (hheard : Environment.Heard Environment.updates Q)

include hkept in
/-- A watch asks its call for the next answer alike in both caches. -/
theorem alike_nextAnswer (h : Alike Q (w, c) (w', c')) :
    Agree (Alike Q) (w.nextAnswer c) (w'.nextAnswer c') := by
  obtain ⟨position', rfl⟩ : ∃ position', w' = { w with position := position' } := ⟨_, h.1⟩
  obtain ⟨params, retries, position, turn, inquiry, last⟩ := w
  cases inquiry with
  | answered => exact ⟨rfl, h⟩
  | loading remaining load =>
    obtain ⟨progress, c₁, c₁', hpoll, hpoll', h₁⟩ :=
      (load.alike_pollRetrying (hkept _ _) (Key.ofParams params) retries remaining h.2).split
    unfold nextAnswer
    dsimp only
    rw [hpoll, hpoll']
    rcases progress with ⟨remaining, load⟩ | result
    · exact ⟨rfl, rfl, h₁⟩
    · exact ⟨rfl, rfl, h₁⟩

include hkept hheard

/-- A watch reads the next update alike in both caches. -/
theorem alike_nextUpdate (h : Alike Q (w, c) (w', c')) :
    Agree (Alike Q) (w.nextUpdate c) (w'.nextUpdate c') := by
  obtain ⟨position', rfl⟩ : ∃ position', w' = { w with position := position' } := ⟨_, h.1⟩
  obtain ⟨hmissed, hreceived⟩ := hheard.receive h.2.env (fun m => m.1 = w.params)
  have hgoes : ∀ q q', Q q q' c.env c'.env → ∀ missed,
      InStep (Q q q') (c.noteMissed "updates" missed) (c'.noteMissed "updates" missed) := by
    intro q q' hq missed
    have hstands : InStep (Q q q') c c' := ⟨hq, h.2.flights⟩
    exact hstands.noteMissed (hkept q q').toQuiet "updates" missed
  unfold nextUpdate
  dsimp only at hmissed hreceived ⊢
  rcases hfound : c.env.updates.receive (fun m => m.1 = w.params) w.position with ⟨missed, received⟩
  rcases hfound' : c'.env.updates.receive (fun m => m.1 = w.params) position' with
    ⟨missed', received'⟩
  rw [hfound, hfound'] at hmissed hreceived
  obtain rfl : missed' = missed := hmissed
  cases hreceived with
  | message m hq => exact ⟨rfl, rfl, hgoes _ _ hq _⟩
  | nothing hq => exact ⟨rfl, rfl, hgoes _ _ hq _⟩
  | ended => exact ⟨rfl, rfl, hgoes _ _ h.2.env _⟩

/-- A watch takes the next item alike in both caches, whichever side is first. -/
theorem alike_next (h : Alike Q (w, c) (w', c')) :
    Agree (Alike Q) (w.next c) (w'.next c') := by
  obtain ⟨position', rfl⟩ : ∃ position', w' = { w with position := position' } := ⟨_, h.1⟩
  have hturned : Alike Q ({ w with turn := w.turn.other }, c)
      ({ w with position := position', turn := w.turn.other }, c') := ⟨rfl, h.2⟩
  unfold next
  dsimp only
  split
  · obtain ⟨found, ⟨w₁, c₁⟩, ⟨w₁', c₁'⟩, hfirst, hfirst', h₁⟩ :=
      (alike_nextUpdate hkept hheard hturned).split
    rw [hfirst, hfirst']
    cases found with
    | none => exact alike_nextAnswer hkept h₁
    | some item => exact ⟨rfl, h₁⟩
  · obtain ⟨found, ⟨w₁, c₁⟩, ⟨w₁', c₁'⟩, hfirst, hfirst', h₁⟩ :=
      (alike_nextAnswer hkept hturned).split
    rw [hfirst, hfirst']
    cases found with
    | none => exact alike_nextUpdate hkept hheard h₁
    | some item => exact ⟨rfl, h₁⟩

variable [DecidableEq V]

/-- A watch that shows the next item that it has not shown does so alike in both caches. -/
theorem alike_showNext (asks : Nat) (h : Alike Q (w, c) (w', c')) :
    Agree (Alike Q) (w.showNext asks c) (w'.showNext asks c') := by
  induction asks generalizing w w' c c' with
  | zero => exact ⟨rfl, h⟩
  | succ asks ih =>
    obtain ⟨found, ⟨w₁, c₁⟩, ⟨w₁', c₁'⟩, hnext, hnext', h₁⟩ := (alike_next hkept hheard h).split
    obtain ⟨position', rfl⟩ : ∃ position', w₁' = { w₁ with position := position' } := ⟨_, h₁.1⟩
    unfold showNext
    rw [hnext, hnext']
    rcases found with _ | failure | value
    · exact ⟨rfl, h₁⟩
    · exact ⟨rfl, h₁⟩
    · dsimp only
      split
      · exact ih h₁
      · exact ⟨rfl, rfl, h₁.2⟩

/-- A poll of a watch answers the same in both caches, and leaves the caches in step. -/
theorem alike_poll (h : Alike Q (w, c) (w', c')) :
    Agree (Alike Q) (w.poll c) (w'.poll c') := by
  have hunread : c'.env.updates.unread w'.position = c.env.updates.unread w.position :=
    hheard.unread h.2.env
  unfold poll
  rw [hunread]
  exact alike_showNext hkept hheard _ h

end Watch

end ReadThrough
