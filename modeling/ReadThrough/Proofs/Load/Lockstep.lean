import ReadThrough.Load
/-!
# Proofs: loads in lockstep

Two environments may differ in what a load does not look at. As long as the same happens to both of
them they go on to differ in nothing else, if the relation between them is one that is kept
(`Environment.Working`): a load comes to the same result in both, poll by poll, and leaves
environments that are related as before (`Load.alike_poll`). A load does not read the store; whoever
does finds the same only if the relation says so besides (`Environment.Lockstep`).
-/

namespace ReadThrough

variable {P A V E : Type}

/-- Whether an event belongs to a publication. -/
def Event.publishes : Event P A V E → Bool
  | .updatePublished _ _ | .failurePublished _ _ | .updateUnheard | .failureUnheard => true
  | _ => false

/-- Two polls give the same, and leave states that are related. -/
def Agree {α S S' : Type} (R : S → S' → Prop) (polled : α × S) (polled' : α × S') : Prop :=
  polled'.1 = polled.1 ∧ R polled.2 polled'.2

/-- Two polls that agree have one answer. -/
theorem Agree.split {α S S' : Type} {R : S → S' → Prop} {polled : α × S} {polled' : α × S'}
    (h : Agree R polled polled') : ∃ a s s', polled = (a, s) ∧ polled' = (a, s') ∧ R s s' :=
  ⟨polled.1, polled.2, polled'.2, rfl, Prod.ext h.1 rfl, h.2⟩

variable [DecidableEq P] [DecidableEq A]
  {Q : Environment P A V E → Environment P A V E → Prop} {env env' : Environment P A V E}

/-! ## Environments -/

namespace Environment

/-- Environments that are related let through the same, and they stay related when the same happens
to both of them, publications aside. -/
structure Quiet (Q : Environment P A V E → Environment P A V E → Prop) : Prop where
  gates : ∀ {env env'}, Q env env' → env'.gates = env.gates
  called : ∀ {env env'}, Q env env' → env'.called = env.called
  readable : ∀ {env env'}, Q env env' →
    env'.store.readable env'.gates = env.store.readable env.gates
  writable : ∀ {env env'}, Q env env' →
    env'.store.writable env'.gates = env.store.writable env.gates
  refusal : ∀ {env env'}, Q env env' → env'.store.refusal? = env.store.refusal?
  note : ∀ {env env'} (event : Event P A V E), event.publishes = false → Q env env' →
    Q (env.note event) (env'.note event)
  advance : ∀ {env env'} (d : Duration), Q env env' → Q (env.advance d) (env'.advance d)
  cancel : ∀ {env env'}, Q env env' →
    Q { env with cancelled := env.cancelled + 1 } { env' with cancelled := env'.cancelled + 1 }
  judge : ∀ {env env'}, Q env env' →
    Q { env with asked := env.asked + 1 } { env' with asked := env'.asked + 1 }
  callSource : ∀ {env env'} (key : Key P A), Q env env' →
    Agree Q (env.callSource key) (env'.callSource key)
  readClock : ∀ {env env'}, Q env env' → Agree Q env.readClock env'.readClock
  writeStore : ∀ {env env'} (key : Key P A) (entry : Entry V), Q env env' →
    Q (env.writeStore key entry) (env'.writeStore key entry)
  clearStore : ∀ {env env'}, Q env env' → Q env.clearStore env'.clearStore

/-- They stay related whatever happens to both of them. -/
structure Working (Q : Environment P A V E → Environment P A V E → Prop) : Prop extends
    Quiet Q where
  publishUpdate : ∀ {env env'} (params : P) (delivery : Delivery V), Q env env' →
    Q (env.publishUpdate params delivery) (env'.publishUpdate params delivery)
  publishFailure : ∀ {env env'} (params : P) (failure : Failure E), Q env env' →
    Q (env.publishFailure params failure) (env'.publishFailure params failure)

/-- The same is found in their stores besides. -/
structure Lockstep (Q : Environment P A V E → Environment P A V E → Prop) : Prop extends
    Working Q where
  readStore : ∀ {env env'} (key : Key P A), Q env env' →
    Agree Q (env.readStore key) (env'.readStore key)

omit [DecidableEq P] [DecidableEq A] in
theorem noteAll_cons (env : Environment P A V E) (event : Event P A V E)
    (rest : List (Event P A V E)) :
    env.noteAll (event :: rest) = (env.note event).noteAll rest := by
  unfold noteAll note
  rw [List.append_assoc, List.singleton_append]

section Notes

variable (hnote : ∀ {env env' : Environment P A V E} (event : Event P A V E),
  event.publishes = false → Q env env' → Q (env.note event) (env'.note event))
include hnote

omit [DecidableEq P] [DecidableEq A] in
/-- A relation that is kept by one event is kept by several. -/
theorem related_noteAll (h : Q env env') {events : List (Event P A V E)}
    (hevents : ∀ event ∈ events, event.publishes = false) :
    Q (env.noteAll events) (env'.noteAll events) := by
  induction events generalizing env env' with
  | nil =>
    unfold Environment.noteAll
    rwa [List.append_nil, List.append_nil]
  | cons event rest ih =>
    obtain ⟨hfirst, hrest⟩ := List.forall_mem_cons.mp hevents
    rw [noteAll_cons, noteAll_cons]
    exact ih (hnote event hfirst h) hrest

/-- Stores that displace the same are written alike. -/
theorem related_writeStore {key : Key P A} {entry : Entry V}
    (hgone : (env'.store.put key entry).2 = (env.store.put key entry).2)
    (hput : Q { env with store := (env.store.put key entry).1 }
      { env' with store := (env'.store.put key entry).1 }) :
    Q (env.writeStore key entry) (env'.writeStore key entry) := by
  unfold Environment.writeStore
  dsimp only
  rw [hgone]
  refine related_noteAll hnote (hnote _ rfl hput) fun event hevent => ?_
  obtain ⟨p, -, rfl⟩ := List.mem_map.mp hevent
  rfl

end Notes

namespace Quiet

/-- As `Quiet.note`, for several events. -/
theorem noteAll (hQ : Quiet Q) (h : Q env env') {events : List (Event P A V E)}
    (hevents : ∀ event ∈ events, event.publishes = false) :
    Q (env.noteAll events) (env'.noteAll events) := related_noteAll hQ.note h hevents

/-- Notices of the registry are told in both environments. -/
theorem noteRegistry (hQ : Quiet Q) (h : Q env env') (notices : List Notice) :
    Q (env.noteRegistry notices) (env'.noteRegistry notices) := by
  refine hQ.noteAll h fun event hevent => ?_
  obtain ⟨notice, -, rfl⟩ := List.mem_map.mp hevent
  rfl

/-- What holds besides. -/
theorem const (hQ : Quiet Q) (fact : Prop) : Quiet fun env env' => fact ∧ Q env env' where
  gates h := hQ.gates h.2
  called h := hQ.called h.2
  readable h := hQ.readable h.2
  writable h := hQ.writable h.2
  refusal h := hQ.refusal h.2
  note event hevent h := ⟨h.1, hQ.note event hevent h.2⟩
  advance d h := ⟨h.1, hQ.advance d h.2⟩
  cancel h := ⟨h.1, hQ.cancel h.2⟩
  judge h := ⟨h.1, hQ.judge h.2⟩
  callSource key h := (hQ.callSource key h.2).imp id fun hcalled => ⟨h.1, hcalled⟩
  readClock h := (hQ.readClock h.2).imp id fun hread => ⟨h.1, hread⟩
  writeStore key entry h := ⟨h.1, hQ.writeStore key entry h.2⟩
  clearStore h := ⟨h.1, hQ.clearStore h.2⟩

end Quiet

/-- Lookups in environments that go in lockstep find the same. -/
theorem Lockstep.lookup (hQ : Lockstep Q) (h : Q env env') (key : Key P A)
    (maxAge : Option Duration) :
    Agree Q (env.lookup key maxAge) (env'.lookup key maxAge) := by
  obtain ⟨found, env₁, env₁', hread, hread', h₁⟩ := (hQ.readStore key h).split
  unfold Environment.lookup
  rw [hread, hread']
  cases found with
  | none => exact ⟨rfl, hQ.note _ rfl h₁⟩
  | some entry =>
    obtain ⟨now, env₂, env₂', hclock, hclock', h₂⟩ := (hQ.readClock h₁).split
    dsimp only
    rw [hclock, hclock']
    dsimp only
    split
    · exact ⟨rfl, hQ.note _ rfl h₂⟩
    · exact ⟨rfl, hQ.note _ rfl h₂⟩

/-- A fact that does not change may be kept besides. -/
theorem Working.const (hQ : Working Q) (fact : Prop) :
    Working fun env env' => fact ∧ Q env env' where
  toQuiet := hQ.toQuiet.const fact
  publishUpdate params delivery h := ⟨h.1, hQ.publishUpdate params delivery h.2⟩
  publishFailure params failure h := ⟨h.1, hQ.publishFailure params failure h.2⟩

end Environment

open Environment (Quiet Working Lockstep)

/-! ## Work -/

namespace Work

variable (hQ : Working Q)
include hQ

/-- Work fails alike. -/
theorem alike_fail (h : Q env env') (key : Key P A) (failure : Failure E) :
    Agree Q (fail key failure env) (fail key failure env') :=
  ⟨rfl, hQ.publishFailure key.params failure (hQ.note _ rfl h)⟩

/-- Work that has stored its value ends alike. -/
theorem alike_finishStoring (h : Q env env') (key : Key P A) (number : Nat) (value : V)
    (now : Stamp) :
    Agree Q (finishStoring key number value now env) (finishStoring key number value now env') := by
  unfold finishStoring
  rw [hQ.writable h]
  split
  · have hstored := hQ.writeStore key (Entry.stamped value now) h
    exact ⟨rfl, hQ.publishUpdate key.params _ (hQ.note _ rfl hstored)⟩
  · exact ⟨rfl, h⟩

/-- Work stores its value alike, or waits for the store alike. -/
theorem alike_store (h : Q env env') (key : Key P A) (number : Nat) (value : V) :
    Agree Q (store key number value env) (store key number value env') := by
  obtain ⟨now, env₁, env₁', hclock, hclock', h₁⟩ := (hQ.readClock h).split
  unfold store
  rw [hclock, hclock']
  dsimp only
  rw [hQ.refusal h₁]
  split
  · exact ⟨rfl, h₁⟩
  · exact alike_finishStoring hQ h₁ key number value _

/-- Work goes on with its call alike. -/
theorem alike_proceed (h : Q env env') (key : Key P A) (number : Nat) (reply : Reply V E) :
    Agree Q (proceed key number reply env) (proceed key number reply env') := by
  have hlater : Q (reply.took.elim env env.advance) (reply.took.elim env' env'.advance) := by
    cases reply.took with
    | none => exact h
    | some d => exact hQ.advance d h
  unfold proceed
  rw [hQ.gates h]
  split
  · exact ⟨rfl, h⟩
  · unfold conclude
    split
    · exact alike_store hQ hlater key number _
    · exact alike_fail hQ hlater key _
    · exact alike_fail hQ hlater key _

/-- Work calls the source alike. -/
theorem alike_begin (h : Q env env') (key : Key P A) :
    Agree Q (begin key env) (begin key env') := by
  obtain ⟨behaviour, env₁, env₁', hcalls, hcalls', h₁⟩ := (hQ.callSource key h).split
  unfold begin
  rw [hcalls, hcalls']
  cases behaviour with
  | refuses message => exact ⟨rfl, h₁⟩
  | replies reply =>
    dsimp only
    rw [hQ.called h₁]
    exact alike_proceed hQ h₁ key _ reply

/-- Work is polled alike. -/
theorem alike_poll (h : Q env env') (work : Work P A V E) :
    Agree Q (work.poll env) (work.poll env') := by
  cases work with
  | fresh key => exact alike_begin hQ h key
  | calling key number reply => exact alike_proceed hQ h key number reply
  | storing key number value now => exact alike_finishStoring hQ h key number value now

/-- Work is polled alike on behalf of an execution. -/
theorem alike_pollAs (h : Q env env') (execution : Option Nat) (work : Work P A V E) :
    Agree Q (work.pollAs execution env) (work.pollAs execution env') := by
  obtain ⟨progress, env₁, env₁', hpoll, hpoll', h₁⟩ := (alike_poll hQ h work).split
  unfold pollAs
  rw [hpoll, hpoll', hQ.called h]
  cases progress with
  | waiting rest => exact ⟨rfl, h₁⟩
  | finished outcome => exact ⟨rfl, hQ.note _ rfl h₁⟩

end Work

/-! ## Executions -/

/-- A poll of an execution, on states that the steps of the work keep related. -/
theorem Flights.alike_poll {K W T S : Type} [DecidableEq K] {Q : S → S → Prop}
    {step : W → S → Progress W (Outcome T) × S}
    (hstep : ∀ work {s s'}, Q s s' → Agree Q (step work s) (step work s'))
    (f : Flights K W T) (execution : Nat) {s s' : S} (h : Q s s') :
    ∃ outcome flights s₁ s₁' notices, f.poll step execution s = (outcome, flights, s₁, notices) ∧
      f.poll step execution s' = (outcome, flights, s₁', notices) ∧ Q s₁ s₁' := by
  unfold poll
  cases f.executions[execution]? with
  | none => exact ⟨_, _, _, _, _, rfl, rfl, h⟩
  | some x =>
    dsimp only
    cases x.stage with
    | settled outcome => exact ⟨_, _, _, _, _, rfl, rfl, h⟩
    | abandoned => exact ⟨_, _, _, _, _, rfl, rfl, h⟩
    | running work =>
      obtain ⟨progress, s₁, s₁', hpoll, hpoll', h₁⟩ := (hstep work h).split
      dsimp only
      rw [hpoll, hpoll']
      cases progress with
      | waiting rest => exact ⟨_, _, _, _, _, rfl, rfl, h₁⟩
      | finished outcome => exact ⟨_, _, _, _, _, rfl, rfl, h₁⟩

/-! ## Loads -/

/-- Two caches have the same executions, and environments that are related. -/
structure Cache.InStep (Q : Environment P A V E → Environment P A V E → Prop)
    (c c' : Cache P A V E) : Prop where
  env : Q c.env c'.env
  flights : c'.flights = c.flights

namespace Cache.InStep

variable {c c' : Cache P A V E}

omit [DecidableEq P] [DecidableEq A] in
theorem mono {Q' : Environment P A V E → Environment P A V E → Prop} (h : InStep Q c c')
    (hQ : ∀ {env env'}, Q env env' → Q' env env') : InStep Q' c c' :=
  ⟨hQ h.env, h.flights⟩

variable (hQ : Quiet Q)
include hQ

theorem note (h : InStep Q c c') {event : Event P A V E} (hevent : event.publishes = false) :
    InStep Q (c.note event) (c'.note event) := ⟨hQ.note event hevent h.env, h.flights⟩

/-- Notices of the registry are told in both caches. -/
theorem noteRegistry (h : InStep Q c c') (notices : List Notice) :
    InStep Q (c.noteRegistry notices) (c'.noteRegistry notices) :=
  ⟨hQ.noteRegistry h.env notices, h.flights⟩

/-- A subscriber is told alike what it has missed. -/
theorem noteMissed (h : InStep Q c c') (channel : String) (missed : Nat) :
    InStep Q (c.noteMissed channel missed) (c'.noteMissed channel missed) := by
  unfold Cache.noteMissed
  split
  · exact h
  · exact h.note hQ rfl

/-- Work is discarded alike. -/
theorem discard (h : InStep Q c c') (work : Work P A V E) :
    InStep Q (c.discard work) (c'.discard work) := by
  have hcancelled : Q { c.env with cancelled := if work.callsSource then c.env.cancelled + 1
        else c.env.cancelled }
      { c'.env with cancelled := if work.callsSource then c'.env.cancelled + 1
        else c'.env.cancelled } := by
    cases work.callsSource with
    | true => exact hQ.cancel h.env
    | false => exact h.env
  exact ⟨hQ.note (.abandoned work.key) rfl hcancelled, h.flights⟩

omit hQ in
/-- Lookups in caches in step find the same, or wait alike. -/
theorem lookup (hQ : Lockstep Q) (h : InStep Q c c') (key : Key P A) (maxAge : Option Duration) :
    Option.Rel (Agree (InStep Q)) (c.lookup key maxAge) (c'.lookup key maxAge) := by
  have hlook := hQ.lookup h.env key maxAge
  unfold Cache.lookup
  rw [hQ.readable h.env]
  split
  · exact .some ⟨hlook.1, hlook.2, h.flights⟩
  · exact .none

end Cache.InStep

namespace Load

variable {c c' : Cache P A V E} (hQ : Working Q)

open Cache (InStep)

include hQ

/-- A caller receives an outcome alike. -/
theorem alike_receive (h : InStep Q c c') (execution : Option Nat)
    (outcome : Outcome (Result V E)) :
    Agree (InStep Q) (receive execution outcome c) (receive execution outcome c') :=
  ⟨rfl, h.note hQ.toQuiet rfl⟩

/-- A caller of a shared execution polls it alike. -/
theorem alike_pollAttached (h : InStep Q c c') (execution : Nat) :
    Agree (InStep Q) (pollAttached execution c) (pollAttached execution c') := by
  obtain ⟨answer, flights, env, env', notices, hpoll, hpoll', henv⟩ := Flights.alike_poll
    (fun work {_ _} henv => Work.alike_pollAs hQ henv (some execution) work) c.flights execution
    h.env
  have hnoted : InStep Q ⟨env.noteRegistry notices, flights⟩
      ⟨env'.noteRegistry notices, flights⟩ := ⟨hQ.noteRegistry henv notices, rfl⟩
  unfold pollAttached
  rw [h.flights, hpoll, hpoll']
  cases answer with
  | none => exact ⟨rfl, hnoted⟩
  | some outcome => exact alike_receive hQ hnoted _ outcome

/-- A load that does its work alone is polled alike. -/
theorem alike_pollAlone (h : InStep Q c c') (work : Work P A V E) :
    Agree (InStep Q) (pollAlone work c) (pollAlone work c') := by
  obtain ⟨progress, env, env', hpoll, hpoll', henv⟩ := (Work.alike_pollAs hQ h.env none work).split
  have hpolled : InStep Q { c with env } { c' with env := env' } := ⟨henv, h.flights⟩
  unfold pollAlone
  rw [hpoll, hpoll']
  cases progress with
  | waiting rest => exact ⟨rfl, hpolled⟩
  | finished outcome => exact alike_receive hQ hpolled none outcome

/-- A load is polled alike. -/
theorem alike_poll (h : InStep Q c c') (load : Load P A V E) :
    Agree (InStep Q) (load.poll c) (load.poll c') := by
  cases load with
  | attached execution => exact alike_pollAttached hQ h execution
  | alone work => exact alike_pollAlone hQ h work
  | unstarted key share =>
    cases share with
    | false => exact alike_pollAlone hQ h (.fresh key)
    | true =>
      have henters : ∀ notice flights, InStep Q ⟨c.env.noteRegistry [notice], flights⟩
          ⟨c'.env.noteRegistry [notice], flights⟩ :=
        fun notice _ => ⟨hQ.noteRegistry h.env [notice], rfl⟩
      unfold poll
      dsimp only
      rw [h.flights]
      exact alike_pollAttached hQ (henters _ _) _

omit hQ in
/-- A load is dropped alike. -/
theorem alike_drop (hQ : Quiet Q) (h : InStep Q c c') (load : Load P A V E) :
    InStep Q (load.drop c) (load.drop c') := by
  cases load with
  | unstarted key share => exact h
  | alone work => exact h.discard hQ work
  | attached execution =>
    unfold drop
    dsimp only
    rw [h.flights]
    rcases c.flights.leave execution with ⟨_ | work, flights, notices⟩
    · have hleft : InStep Q { c with flights } { c' with flights } := ⟨h.env, rfl⟩
      exact hleft.noteRegistry hQ notices
    · have hleft : InStep Q { c with flights } { c' with flights } := ⟨h.env, rfl⟩
      exact (hleft.discard hQ work).noteRegistry hQ notices

end Load

end ReadThrough
