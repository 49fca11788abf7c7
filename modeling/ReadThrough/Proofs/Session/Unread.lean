import Mathlib.Data.List.TakeWhile
import ReadThrough.Proofs.Session.Addresses
import ReadThrough.Proofs.Session.Sharing
/-!
# Proofs: polls up to a read of the store

Stores of one kind make their callers wait for the same (`Store.SameKind`), whatever they have
stored. So as long as nobody reads the store, two caches whose stores are of one kind differ in
nothing else, the displaced entries aside (`Environment.AlikeButStore`). A poll that reads the store
parts them: it may find something in the one and nothing in the other. But until then it does the
same in both, and what was told until then is the same (`Parted`).
-/

namespace ReadThrough

variable {P A V E : Type}

/-! ## Stores of one kind -/

namespace Store

variable {K : Type}

/-- Stores of one kind, where reads and writes wait for the same gates and writes panic or not. -/
inductive SameKind : Store K V → Store K V → Prop where
  | bounded (s s' : Bounded K V) : SameKind (.bounded s) (.bounded s')
  | recorded (s s' : Recorded K V) : SameKind (.recorded s) (.recorded s')
  | gated {s s' : Gated K V} (hread : s'.readGate = s.readGate)
      (hwrite : s'.writeGate = s.writeGate) (hrefusing : s'.refusing = s.refusing) :
      SameKind (.gated s) (.gated s')

variable {s s' : Store K V}

/-- Stores of one kind can be read at the same time. -/
theorem SameKind.readable (h : SameKind s s') (gates : Gates) :
    s'.readable gates = s.readable gates := by
  cases h with
  | bounded | recorded => rfl
  | gated hread =>
    unfold Store.readable
    dsimp only
    rw [hread]

/-- Stores of one kind can be written at the same time. -/
theorem SameKind.writable (h : SameKind s s') (gates : Gates) :
    s'.writable gates = s.writable gates := by
  cases h with
  | bounded | recorded => rfl
  | gated _ hwrite =>
    unfold Store.writable
    dsimp only
    rw [hwrite]

/-- Stores of one kind refuse writes alike. -/
theorem SameKind.refusal (h : SameKind s s') : s'.refusal? = s.refusal? := by
  cases h with
  | bounded | recorded => rfl
  | gated _ _ hrefusing =>
    unfold Store.refusal?
    dsimp only
    rw [hrefusing]

/-- Stores of one kind stay of one kind when they are cleared. -/
theorem SameKind.clear (h : SameKind s s') : SameKind s.clear s'.clear := by
  cases h with
  | bounded | recorded => constructor
  | gated hread hwrite hrefusing => exact .gated hread hwrite hrefusing

/-- To be cleared does not change the kind. -/
theorem sameKind_clear (s : Store K V) : SameKind s s.clear := by
  cases s with
  | bounded | recorded => constructor
  | gated s => exact .gated rfl rfl rfl

variable [DecidableEq K]

/-- Stores of one kind stay of one kind when the same entry is written. -/
theorem SameKind.put (h : SameKind s s') (key : K) (entry : Entry V) :
    SameKind (s.put key entry).1 (s'.put key entry).1 := by
  cases h with
  | bounded | recorded => constructor
  | gated hread hwrite hrefusing => exact .gated hread hwrite hrefusing

/-- Stores of one kind stay of one kind when they are asked the same. -/
theorem SameKind.ask (h : SameKind s s') (query : Query K) :
    SameKind (s.ask query).2 (s'.ask query).2 := by
  cases h with
  | bounded | recorded => cases query <;> constructor
  | gated hread hwrite hrefusing =>
    cases query with
    | refuse refusing => exact .gated hread hwrite rfl
    | _ => exact .gated hread hwrite hrefusing

end Store

/-! ## What is told before the store is read -/

/-- Whether an event is a read of the store. -/
def Event.reads : Event P A V E → Bool
  | .storeRead _ _ => true
  | _ => false

/-- Whether an event is the displacement of an entry. -/
def Event.evicts : Event P A V E → Bool
  | .evicted _ _ => true
  | _ => false

/-- Events without the displaced entries. -/
def plain (events : List (Event P A V E)) : List (Event P A V E) := events.filter (!·.evicts)

/-- What was told before the store was read, without the displaced entries. -/
def unread (events : List (Event P A V E)) : List (Event P A V E) :=
  (plain events).takeWhile (!·.reads)

section Events

variable {told events more : List (Event P A V E)}

/-- The displaced entries are left out event by event. -/
theorem plain_append (events more : List (Event P A V E)) :
    plain (events ++ more) = plain events ++ plain more := List.filter_append ..

/-- A displaced entry is no read of the store. -/
theorem any_reads_plain (events : List (Event P A V E)) :
    (plain events).any Event.reads = events.any Event.reads := by
  induction events with
  | nil => rfl
  | cons event rest ih =>
    cases event with
    | evicted key capacity => exact ih
    | _ => exact congrArg (_ || ·) ih

/-- After the first read of the store nothing is added to what was told before it. -/
theorem takeWhile_append_of_any (h : told.any Event.reads = true) :
    (told ++ more).takeWhile (!·.reads) = told.takeWhile (!·.reads) := by
  induction told with
  | nil => cases h
  | cons event rest ih =>
    rw [List.any_cons] at h
    cases hreads : event.reads with
    | true => simp [hreads]
    | false =>
      rw [hreads, Bool.false_or] at h
      simp [hreads, ih h]

/-- The store was read, and until then was told what is said. -/
structure Opened (told events : List (Event P A V E)) : Prop where
  read : events.any Event.reads = true
  unread : unread events = told

/-- The store stays read whatever is told afterwards. -/
theorem Opened.append (h : Opened told events) (more : List (Event P A V E)) :
    Opened told (events ++ more) := by
  refine ⟨by rw [List.any_append, h.read, Bool.true_or], ?_⟩
  rw [← h.unread]
  unfold ReadThrough.unread
  rw [plain_append]
  exact takeWhile_append_of_any (by rw [any_reads_plain, h.read])

/-- The store stays read in every longer record. -/
theorem Opened.grow (h : Opened told events) (hmore : events <+: more) : Opened told more := by
  obtain ⟨later, rfl⟩ := hmore
  exact h.append later

/-- The store is read now, if it was not before. -/
theorem opened_read (events : List (Event P A V E)) (key : Key P A) (found : Option (Entry V))
    (more : List (Event P A V E)) :
    Opened (unread events) (events ++ .storeRead key found :: more) := by
  refine ⟨by simp [Event.reads], ?_⟩
  unfold unread
  rw [plain_append]
  show (plain events ++ .storeRead key found :: plain more).takeWhile (!·.reads) = _
  cases hread : (plain events).any Event.reads with
  | true => exact takeWhile_append_of_any hread
  | false =>
    have hall : ∀ event ∈ plain events, (!event.reads) = true := fun event he => by
      simpa using List.any_eq_false.mp hread event he
    rw [List.takeWhile_append_of_pos hall, List.takeWhile_eq_self_iff.mpr hall]
    exact List.append_nil _

/-- Nothing was read before the event. -/
theorem unread_append_cons {event : Event P A V E} (hevicts : event.evicts = false)
    (hreads : event.reads = false) {before : List (Event P A V E)}
    (hbefore : (plain before).any Event.reads = false) (after : List (Event P A V E)) :
    unread (before ++ event :: after) = plain before ++ event :: unread after := by
  have hall : ∀ event ∈ plain before, (!event.reads) = true := fun event he => by
    simpa using List.any_eq_false.mp hbefore event he
  unfold unread
  rw [plain_append, List.takeWhile_append_of_pos hall]
  simp [plain, hevicts, hreads]

/-- What is told before the store is read was told. -/
theorem exists_of_unread {event : Event P A V E} (h : unread events = told ++ event :: more) :
    ∃ before after, events = before ++ event :: after ∧ plain before = told := by
  have htold : told ++ event :: more <+: plain events := h ▸ List.takeWhile_prefix _
  obtain ⟨later, hlater⟩ := htold
  rw [List.append_assoc, List.cons_append] at hlater
  obtain ⟨first, rest, rfl, hfirst, hrest⟩ := List.filter_eq_append_iff.mp hlater.symm
  obtain ⟨gone, after, rfl, hgone, -, -⟩ := List.filter_eq_cons_iff.mp hrest
  refine ⟨first ++ gone, after, by rw [List.append_assoc], ?_⟩
  rw [plain_append, show plain gone = [] from List.filter_eq_nil_iff.mpr hgone, List.append_nil]
  exact hfirst

end Events

/-! ## Environments with stores of one kind -/

namespace Environment

/-- The environments differ in the store, which is of the same kind, and in what was displaced. -/
def AlikeButStore (env env' : Environment P A V E) : Prop :=
  ∃ store trace, env' = { env with store := store, trace := trace } ∧
    Store.SameKind env.store store ∧ plain trace = plain env.trace

namespace AlikeButStore

variable {env env' : Environment P A V E}

/-- Caches that differ in their stores tell the same, the displaced entries aside. -/
theorem plain_eq (h : AlikeButStore env env') : plain env'.trace = plain env.trace := by
  obtain ⟨store, trace, rfl, -, htrace⟩ := h
  exact htrace

/-- The same event may be noted in both environments. -/
theorem note (event : Event P A V E) (h : AlikeButStore env env') :
    AlikeButStore (env.note event) (env'.note event) := by
  obtain ⟨store, trace, rfl, hstore, htrace⟩ := h
  refine ⟨store, trace ++ [event], rfl, hstore, ?_⟩
  show plain (trace ++ [event]) = plain (env.trace ++ [event])
  rw [plain_append, plain_append, htrace]

/-- What was told before is forgotten. -/
theorem fresh (h : AlikeButStore env env') :
    AlikeButStore { env with trace := [] } { env' with trace := [] } := by
  obtain ⟨store, trace, rfl, hstore, -⟩ := h
  exact ⟨store, [], rfl, hstore, rfl⟩

/-- The gates of both environments may be set alike. -/
theorem withGates (gates : Gates) (h : AlikeButStore env env') :
    AlikeButStore { env with gates := gates } { env' with gates := gates } := by
  obtain ⟨store, trace, rfl, hstore, htrace⟩ := h
  exact ⟨store, trace, rfl, hstore, htrace⟩

/-- The clocks of both environments may be set alike. -/
theorem setTime (now : Stamp) (h : AlikeButStore env env') :
    AlikeButStore { env with clock := env.clock.set now }
      { env' with clock := env'.clock.set now } := by
  obtain ⟨store, trace, rfl, hstore, htrace⟩ := h
  exact ⟨store, trace, rfl, hstore, htrace⟩

variable [DecidableEq P] [DecidableEq A]

/-- The stores of both environments may be asked the same. -/
theorem ask (query : Query (Key P A)) (h : AlikeButStore env env') :
    AlikeButStore { env with store := (env.store.ask query).2 }
      { env' with store := (env'.store.ask query).2 } := by
  obtain ⟨store, trace, rfl, hstore, htrace⟩ := h
  exact ⟨_, trace, rfl, hstore.ask query, htrace⟩

omit [DecidableEq P] [DecidableEq A] in
/-- To displace entries tells nothing else. -/
theorem plain_evicted (gone : List (Key P A × Nat)) :
    plain (gone.map fun (k, capacity) => (.evicted k capacity : Event P A V E)) = [] := by
  refine List.filter_eq_nil_iff.mpr fun event he => ?_
  obtain ⟨p, -, rfl⟩ := List.mem_map.mp he
  exact nofun

/-- The same entry may be written in both environments, whatever it displaces there. -/
theorem writeStore (key : Key P A) (entry : Entry V) (h : AlikeButStore env env') :
    AlikeButStore (env.writeStore key entry) (env'.writeStore key entry) := by
  obtain ⟨store, trace, rfl, hstore, htrace⟩ := h
  refine ⟨_, _, rfl, hstore.put key entry, ?_⟩
  show plain (trace ++ [.storeWritten key entry] ++ _) =
    plain (env.trace ++ [.storeWritten key entry] ++ _)
  rw [plain_append, plain_append, plain_evicted, plain_append, plain_append, plain_evicted, htrace]

/-- All that is done to an environment besides reading its store may be done to both. -/
theorem tuned : Tuned (AlikeButStore : Environment P A V E → Environment P A V E → Prop) where
  gates := by
    rintro env _ ⟨store, trace, rfl, -⟩
    rfl
  called := by
    rintro env _ ⟨store, trace, rfl, -⟩
    rfl
  readable := by
    rintro env _ ⟨store, trace, rfl, hstore, -⟩
    exact hstore.readable env.gates
  writable := by
    rintro env _ ⟨store, trace, rfl, hstore, -⟩
    exact hstore.writable env.gates
  refusal := by
    rintro env _ ⟨store, trace, rfl, hstore, -⟩
    exact hstore.refusal
  note event _ h := h.note event
  advance := by
    rintro env _ d ⟨store, trace, rfl, hstore, htrace⟩
    exact ⟨store, trace, rfl, hstore, htrace⟩
  cancel := by
    rintro env _ ⟨store, trace, rfl, hstore, htrace⟩
    exact ⟨store, trace, rfl, hstore, htrace⟩
  judge := by
    rintro env _ ⟨store, trace, rfl, hstore, htrace⟩
    exact ⟨store, trace, rfl, hstore, htrace⟩
  callSource := by
    rintro env _ key ⟨store, trace, rfl, hstore, htrace⟩
    have hcalled : AlikeButStore { env with called := env.called ++ [key.params] }
        { env with store := store, trace := trace, called := env.called ++ [key.params] } :=
      ⟨store, trace, rfl, hstore, htrace⟩
    exact ⟨rfl, hcalled.note _⟩
  readClock := by
    rintro env _ ⟨store, trace, rfl, hstore, htrace⟩
    have hread : AlikeButStore { env with clock := env.clock.read.2 }
        { env with store := store, trace := trace, clock := env.clock.read.2 } :=
      ⟨store, trace, rfl, hstore, htrace⟩
    exact ⟨rfl, hread.note _⟩
  writeStore := writeStore
  clearStore := by
    rintro env _ ⟨store, trace, rfl, hstore, htrace⟩
    have hcleared : AlikeButStore { env with store := env.store.clear }
        { env with store := store.clear, trace := trace } := ⟨_, trace, rfl, hstore.clear, htrace⟩
    exact hcleared.note .cleared
  publishUpdate := by
    rintro env _ params delivery ⟨store, trace, rfl, hstore, htrace⟩
    have hpublished : AlikeButStore
        { env with updates := (env.updates.publish (params, delivery)).2 }
        { env with
          store := store, trace := trace
          updates := (env.updates.publish (params, delivery)).2 } :=
      ⟨store, trace, rfl, hstore, htrace⟩
    unfold publishUpdate
    dsimp only
    split
    · exact hpublished.note _
    · exact (hpublished.note _).note _
  publishFailure := by
    rintro env _ params failure ⟨store, trace, rfl, hstore, htrace⟩
    have hpublished : AlikeButStore { env with errors := (env.errors.publish (params, failure)).2 }
        { env with
          store := store, trace := trace
          errors := (env.errors.publish (params, failure)).2 } :=
      ⟨store, trace, rfl, hstore, htrace⟩
    unfold publishFailure
    dsimp only
    split
    · exact hpublished.note _
    · exact (hpublished.note _).note _
  updates := by
    rintro env _ ⟨store, trace, rfl, -⟩
    rfl
  errors := by
    rintro env _ ⟨store, trace, rfl, -⟩
    rfl
  withUpdates := by
    rintro env _ channel ⟨store, trace, rfl, hstore, htrace⟩
    exact ⟨store, trace, rfl, hstore, htrace⟩
  withErrors := by
    rintro env _ channel ⟨store, trace, rfl, hstore, htrace⟩
    exact ⟨store, trace, rfl, hstore, htrace⟩

end AlikeButStore

end Environment

/-! ## Polls of caches with stores of one kind -/

section Polls

variable [DecidableEq P] [DecidableEq A] {c c' c₁ c₁' : Cache P A V E}

open Cache (InStep)
open Environment (AlikeButStore)

/-- The stores of two caches were read, and until then the same was told. -/
def Parted (c c' : Cache P A V E) : Prop :=
  ∃ told, Opened told c.env.trace ∧ Opened told c'.env.trace

/-- Two polls are the same until they read the store. -/
def UntilRead {α β : Type} (polled polled' : α × β × Cache P A V E) : Prop :=
  Parted polled.2.2 polled'.2.2 ∨ Agree (Agree (InStep AlikeButStore)) polled polled'

omit [DecidableEq P] [DecidableEq A] in
/-- More is told. -/
theorem Parted.grow (h : Parted c c') (hgrows : c.env.trace <+: c₁.env.trace)
    (hgrows' : c'.env.trace <+: c₁'.env.trace) : Parted c₁ c₁' := by
  obtain ⟨told, hopened, hopened'⟩ := h
  exact ⟨told, hopened.grow hgrows, hopened'.grow hgrows'⟩

/-- Moves only add to what was told. -/
theorem Moves.grows {w w' : World P A V E} (h : Moves w w') :
    w.cache.env.trace <+: w'.cache.env.trace := by
  obtain ⟨events, htrace⟩ := h.trace
  exact ⟨events, htrace.symm⟩

namespace Cache

/-- A lookup reads the store. -/
theorem opened_lookup {key : Key P A} {maxAge : Option Duration} {found : Option (Delivery V)}
    (hlook : c.lookup key maxAge = some (found, c₁)) :
    Opened (unread c.env.trace) c₁.env.trace := by
  obtain ⟨events, htrace, hlooks⟩ := looks_lookup hlook
  rw [htrace]
  cases hlooks with
  | miss | hit | stale => exact opened_read _ _ _ _

/-- A lookup is answered exactly if the store can be read. -/
theorem isSome_lookup (c : Cache P A V E) (key : Key P A) (maxAge : Option Duration) :
    (c.lookup key maxAge).isSome = c.env.store.readable c.env.gates := by
  unfold Cache.lookup
  cases c.env.store.readable c.env.gates <;> rfl

/-- A lookup has to wait in both caches, or reads the store of both. -/
theorem InStep.lookup_kindred (h : InStep AlikeButStore c c') (key : Key P A)
    (maxAge : Option Duration) :
    c.lookup key maxAge = none ∧ c'.lookup key maxAge = none ∨
      ∃ found found' c₁ c₁', c.lookup key maxAge = some (found, c₁) ∧
        c'.lookup key maxAge = some (found', c₁') ∧ Parted c₁ c₁' := by
  have hboth : (c'.lookup key maxAge).isSome = (c.lookup key maxAge).isSome := by
    rw [isSome_lookup, isSome_lookup, AlikeButStore.tuned.readable h.env]
  have htold : unread c'.env.trace = unread c.env.trace := by
    unfold unread
    rw [h.env.plain_eq]
  rcases hlook : c.lookup key maxAge with _ | ⟨found, c₁⟩ <;>
    rcases hlook' : c'.lookup key maxAge with _ | ⟨found', c₁'⟩ <;>
    rw [hlook, hlook'] at hboth
  · exact .inl ⟨rfl, rfl⟩
  · cases hboth
  · cases hboth
  · exact .inr ⟨found, found', c₁, c₁', rfl, rfl, unread c.env.trace, opened_lookup hlook,
      htold ▸ opened_lookup hlook'⟩

end Cache

/-! ### Requests -/

namespace Call

/-- The lookup that rescues a failed load parts the caches, or waits in both. -/
theorem untilRead_rescue (h : InStep AlikeButStore c c') (call : Call P A V E)
    (failure : Failure E) :
    UntilRead (call.rescue failure c) (call.rescue failure c') := by
  have hgrows : ∀ {c c₁ : Cache P A V E} {found : Option (Delivery V)},
      c.lookup call.key call.terms.maxAge = some (found, c₁) →
        c₁.env.trace <+: (call.rescue failure c).2.2.env.trace := by
    intro c c₁ found hlook
    unfold rescue
    rw [hlook]
    cases found with
    | none => exact List.prefix_rfl
    | some delivery => exact List.prefix_append _ _
  rcases h.lookup_kindred call.key call.terms.maxAge with
    ⟨hlook, hlook'⟩ | ⟨found, found', c₁, c₁', hlook, hlook', hparted⟩
  · unfold rescue
    rw [hlook, hlook']
    exact .inr ⟨rfl, rfl, h⟩
  · exact .inl (hparted.grow (hgrows hlook) (hgrows hlook'))

/-- What a request makes of the result of its load is the same until it reads the store. -/
theorem untilRead_settle (h : InStep AlikeButStore c c') (call : Call P A V E)
    (result : Result V E) :
    UntilRead (call.settle result c) (call.settle result c') := by
  unfold settle
  split
  · exact untilRead_rescue h call _
  · exact .inr (alike_yieldLast h call _)

/-- A poll of the load of a request is the same until the request reads the store. -/
theorem untilRead_pollLoad (h : InStep AlikeButStore c c') (call : Call P A V E)
    (load : Load P A V E) :
    UntilRead (call.pollLoad load c) (call.pollLoad load c') := by
  obtain ⟨progress, c₁, c₁', hpoll, hpoll', h₁⟩ :=
    (load.alike_poll AlikeButStore.tuned.toWorking h).split
  unfold pollLoad
  rw [hpoll, hpoll']
  cases progress with
  | waiting load => exact .inr ⟨rfl, rfl, h₁⟩
  | finished result => exact untilRead_settle h₁ call result

/-- A lookup parts the caches, or waits in both. -/
theorem untilRead_look (h : InStep AlikeButStore c c') (call : Call P A V E) :
    UntilRead (call.look c) (call.look c') := by
  have hallowed : call.Allowed fun _ _ => True := trivial
  have hgrows : ∀ {c c₁ : Cache P A V E} {found : Option (Delivery V)},
      c.lookup call.key call.terms.maxAge = some (found, c₁) →
        c₁.env.trace <+: (call.look c).2.2.env.trace := by
    intro c c₁ found hlook
    unfold look
    rw [hlook]
    cases found with
    | none =>
      have hpursued : Pursued _ 0 _ call _ := pursued_goWithout hallowed c₁
      exact (hpursued.reaches.ownActs.sessionActs.moves SessionActs.moves).grows
    | some delivery =>
      have hpursued : Pursued _ 0 _ call _ := pursued_useStored hallowed delivery c₁
      exact (hpursued.reaches.ownActs.sessionActs.moves SessionActs.moves).grows
  rcases h.lookup_kindred call.key call.terms.maxAge with
    ⟨hlook, hlook'⟩ | ⟨found, found', c₁, c₁', hlook, hlook', hparted⟩
  · unfold look
    rw [hlook, hlook']
    exact .inr ⟨rfl, rfl, h⟩
  · exact .inl (hparted.grow (hgrows hlook) (hgrows hlook'))

/-- A poll of a request is the same until it reads the store. -/
theorem untilRead_poll (h : InStep AlikeButStore c c') (call : Call P A V E) :
    UntilRead (call.poll c) (call.poll c') := by
  unfold poll
  cases call.stage with
  | looking => exact untilRead_look h call
  | loading load => exact untilRead_pollLoad h call load
  | rescuing failure => exact untilRead_rescue h call failure
  | spent => exact .inr ⟨rfl, rfl, h⟩

end Call

namespace Fetch

/-- A collection only adds to what was told. -/
theorem grows_collect (polls : Nat) (f : Fetch P A V E) (c : Cache P A V E) :
    c.env.trace <+: (f.collect polls c).2.2.env.trace := by
  induction polls generalizing f c with
  | zero => exact List.prefix_rfl
  | succ polls ih =>
    have hgrows : c.env.trace <+: (f.call.poll c).2.2.env.trace := (f.call.moves_poll c 0).grows
    unfold collect
    rcases hpoll : f.call.poll c with ⟨_ | result | _ | message, call, c₁⟩ <;> rw [hpoll] at hgrows
    · exact hgrows
    · exact hgrows.trans (ih _ c₁)
    · exact hgrows
    · exact hgrows

/-- Once the request was polled, more can only be told. -/
theorem grows_collect_succ (polls : Nat) (f : Fetch P A V E) (c : Cache P A V E) :
    (f.call.poll c).2.2.env.trace <+: (f.collect (polls + 1) c).2.2.env.trace := by
  unfold collect
  rcases f.call.poll c with ⟨_ | result | _ | message, call, c₁⟩
  · exact List.prefix_rfl
  · exact grows_collect polls _ c₁
  · exact List.prefix_rfl
  · exact List.prefix_rfl

/-- A collection is the same until it reads the store. -/
theorem untilRead_collect (polls : Nat) (h : InStep AlikeButStore c c') (f : Fetch P A V E) :
    UntilRead (f.collect polls c) (f.collect polls c') := by
  induction polls generalizing f c c' with
  | zero => exact .inr ⟨rfl, rfl, h⟩
  | succ polls ih =>
    rcases f.call.untilRead_poll h with hparted | hagree
    · exact .inl (hparted.grow (grows_collect_succ polls f c) (grows_collect_succ polls f c'))
    · obtain ⟨answer, _, _, hpoll, hpoll', hrest⟩ := hagree.split
      obtain ⟨call, c₁, c₁', rfl, rfl, h₁⟩ := hrest.split
      unfold collect
      rw [hpoll, hpoll']
      cases answer with
      | pending => exact .inr ⟨rfl, rfl, h₁⟩
      | item result => exact ih h₁ _
      | done => exact .inr ⟨rfl, rfl, h₁⟩
      | panicked message => exact .inr ⟨rfl, rfl, h₁⟩

/-- A poll of a fetch is the same until it reads the store. -/
theorem untilRead_poll (h : InStep AlikeButStore c c') (f : Fetch P A V E) :
    UntilRead (f.poll c) (f.poll c') := by
  unfold poll
  split
  · exact .inr ⟨rfl, rfl, h⟩
  · exact untilRead_collect 3 h f

end Fetch

/-! ### Tasks -/

/-- To drop a task only adds to what was told. -/
theorem Task.grows_drop (task : Task P A V E) (c : Cache P A V E) :
    c.env.trace <+: (task.drop c).env.trace := by
  have hmoves : Moves ⟨c, held task.load? 0⟩ ⟨task.drop c, 0⟩ := task.moves_drop c
  exact hmoves.grows

variable [DecidableEq V]

/-- A poll of a sound task only adds to what was told, and leaves the task sound. -/
theorem Task.grows_poll {task : Task P A V E} (hsound : task.Sound) (c : Cache P A V E) :
    c.env.trace <+: (task.poll c).2.2.env.trace ∧ (task.poll c).2.1.Sound :=
  (moves_poll hsound c 0).imp Moves.grows id

/-- A task that listens does not read the store. -/
theorem Task.alikeButStore_poll_listening (h : InStep AlikeButStore c c') {task : Task P A V E}
    (topic : Topic) (htopic : 0 < topic.listening task) :
    Agree (Agree (InStep AlikeButStore)) (task.poll c) (task.poll c') := by
  obtain ⟨hanswer, hshares⟩ := alike_poll_listening AlikeButStore.tuned.listening
    AlikeButStore.tuned.parting id htopic (shares_tuned h task)
  exact ⟨hanswer, hshares.tuned⟩

/-- A poll of any task is the same until it reads the store. -/
theorem Task.untilRead_poll (h : InStep AlikeButStore c c') (task : Task P A V E) :
    UntilRead (task.poll c) (task.poll c') := by
  cases task with
  | ended => exact .inr ⟨rfl, rfl, h⟩
  | watch w => exact .inr (alikeButStore_poll_listening h .updates Nat.one_pos)
  | updates p => exact .inr (alikeButStore_poll_listening h .updates Nat.one_pos)
  | errors p => exact .inr (alikeButStore_poll_listening h .errors Nat.one_pos)
  | call whole call =>
    rcases call.untilRead_poll h with hparted | hagree
    · exact .inl hparted
    · obtain ⟨answer, _, _, hpoll, hpoll', hrest⟩ := hagree.split
      obtain ⟨call₁, c₁, c₁', rfl, rfl, h₁⟩ := hrest.split
      unfold poll
      dsimp only
      rw [hpoll, hpoll']
      exact .inr ⟨rfl, rfl, h₁⟩
  | fetch f =>
    rcases f.untilRead_poll h with hparted | hagree
    · exact .inl hparted
    · obtain ⟨answer, _, _, hpoll, hpoll', hrest⟩ := hagree.split
      obtain ⟨f₁, c₁, c₁', rfl, rfl, h₁⟩ := hrest.split
      unfold poll
      dsimp only
      rw [hpoll, hpoll']
      exact .inr ⟨rfl, rfl, h₁⟩

end Polls

end ReadThrough
