import ReadThrough.Proofs.Load.Lives
import ReadThrough.Proofs.Session.Runs
import ReadThrough.Proofs.Store.Recording
/-!
# Proofs: the record of a store behind a cache

Whatever a session does to a recording store is told in the trace, in order: a read with what it has
found, a write, and that the store is cleared (`Itemizes`). So what the report of a step tells is
what was done to the store (`Session.did_step`), unless the step makes it forget.
-/

namespace ReadThrough

variable {P A V E : Type}

/-! ## What events tell of -/

/-- The operation of the store that an event tells of, with what a read has found. -/
def Event.done? : Event P A V E → Option (Done (Key P A) V)
  | .storeRead key found => some (.get key, found)
  | .storeWritten key entry => some (.put key entry, none)
  | .cleared => some (.clear, none)
  | _ => none

/-- The operations of the store that events tell of, in order. -/
def doneIn (events : List (Event P A V E)) : List (Done (Key P A) V) :=
  events.filterMap Event.done?

section Events

variable {events : List (Event P A V E)}

/-- The operations of two lists of events are those of the first and then those of the second. -/
theorem doneIn_append (events events' : List (Event P A V E)) :
    doneIn (events ++ events') = doneIn events ++ doneIn events' :=
  List.filterMap_append

/-- Events that tell of no operation tell of none together. -/
theorem doneIn_of_forall (h : ∀ event ∈ events, event.done? = none) : doneIn events = [] :=
  List.filterMap_eq_nil_iff.mpr h

/-- A remark tells of no operation of the store. -/
theorem Event.done?_of_isRemark {event : Event P A V E} (h : event.isRemark = true) :
    event.done? = none := by
  cases event with
  | storeRead | storeWritten | cleared => cases h
  | _ => rfl

/-- The notices of the registry tell of no operation of the store. -/
theorem done?_registry (notices : List Notice) :
    ∀ event ∈ (notices.map .registry : List (Event P A V E)), event.done? = none := by
  intro event he
  obtain ⟨notice, -, rfl⟩ := List.mem_map.mp he
  rfl

/-- A load does nothing but writes to the store. -/
theorem doneIn_of_isLoading (h : ∀ event ∈ events, event.isLoading = true) :
    doneIn events = (writes events).map fun p => (.put p.1 p.2, none) := by
  unfold doneIn writes
  rw [List.map_filterMap]
  refine List.filterMap_congr fun event he => ?_
  have hloading := h event he
  cases event with
  | storeRead | cleared => cases hloading
  | _ => rfl

end Events

namespace Environment

variable [DecidableEq P] [DecidableEq A]

/-- Whatever is done to a recording store is told. -/
def Itemizes (env env' : Environment P A V E) : Prop :=
  ∃ events, env'.trace = env.trace ++ events ∧
    ∀ r, env.store = .recorded r →
      ∃ r', env'.store = .recorded r' ∧ r.Did (doneIn events) r'

namespace Itemizes

variable {env env' env'' : Environment P A V E}

/-- Nothing is done to the store. -/
theorem of_quiet {events : List (Event P A V E)} (htrace : env'.trace = env.trace ++ events)
    (hquiet : ∀ event ∈ events, event.done? = none) (hstore : env'.store = env.store) :
    Itemizes env env' := by
  refine ⟨events, htrace, fun r hr => ⟨r, hstore.trans hr, ?_⟩⟩
  rw [doneIn_of_forall hquiet]
  exact .nil

/-- Where the store and the trace stay, nothing needs to be told. -/
theorem of_eq (htrace : env'.trace = env.trace) (hstore : env'.store = env.store) :
    Itemizes env env' :=
  of_quiet (htrace.trans (List.append_nil _).symm) (List.forall_mem_nil _) hstore

/-- Nothing needs to be told where nothing is done. -/
theorem refl (env : Environment P A V E) : Itemizes env env := of_eq rfl rfl

/-- What is told in two parts is told. -/
theorem trans (h : Itemizes env env') (h' : Itemizes env' env'') : Itemizes env env'' := by
  obtain ⟨events, htrace, hdid⟩ := h
  obtain ⟨events', htrace', hdid'⟩ := h'
  refine ⟨events ++ events', by rw [htrace', htrace, List.append_assoc], fun r hr => ?_⟩
  obtain ⟨r', hr', hfirst⟩ := hdid r hr
  obtain ⟨r'', hr'', hthen⟩ := hdid' r' hr'
  rw [doneIn_append]
  exact ⟨r'', hr'', hfirst.trans hthen⟩

end Itemizes

variable (env : Environment P A V E)

/-- To note an event that tells of no operation does nothing to the store. -/
theorem itemizes_note {event : Event P A V E} (hquiet : event.done? = none) :
    Itemizes env (env.note event) :=
  .of_quiet rfl (List.forall_mem_singleton.mpr hquiet) rfl

/-- The notices of the registry do nothing to the store. -/
theorem itemizes_noteRegistry (notices : List Notice) :
    Itemizes env (env.noteRegistry notices) :=
  .of_quiet rfl (done?_registry notices) rfl

/-- A read of the store is told with what it has found. -/
theorem itemizes_readStore (key : Key P A) : Itemizes env (env.readStore key).2 := by
  refine ⟨[.storeRead key (env.readStore key).1], rfl, fun r hr => ⟨(r.get key).2, ?_, ?_⟩⟩
  · show (env.store.get key).2 = _
    rw [hr]
    rfl
  · have hfound : (env.readStore key).1 = (r.get key).1 := by simp only [readStore, hr, Store.get]
    rw [hfound]
    exact .single r (.get key)

/-- A write to the store is told with its entry. -/
theorem itemizes_writeStore (key : Key P A) (entry : Entry V) :
    Itemizes env (env.writeStore key entry) := by
  have hloading : ∀ event ∈ env.writeEvents key entry, event.isLoading = true :=
    forall_writeEvents rfl fun _ _ => rfl
  refine ⟨_, env.trace_writeStore key entry, fun r hr => ⟨r.put key entry, ?_, ?_⟩⟩
  · show (env.store.put key entry).1 = _
    rw [hr]
    rfl
  · rw [doneIn_of_isLoading hloading, writes_writeEvents]
    exact .single r (.put key entry)

/-- To clear the store is told. -/
theorem itemizes_clearStore : Itemizes env env.clearStore := by
  refine ⟨[.cleared], rfl, fun r hr => ⟨r.clear, ?_, .single r .clear⟩⟩
  show env.store.clear = _
  rw [hr]
  rfl

/-- A lookup tells of its read. -/
theorem itemizes_lookup (key : Key P A) (maxAge : Option Duration) :
    Itemizes env (env.lookup key maxAge).2 := by
  have hread := env.itemizes_readStore key
  unfold lookup
  rcases hfound : env.readStore key with ⟨_ | entry, env'⟩ <;> rw [hfound] at hread
  · exact hread.trans (env'.itemizes_note rfl)
  · have hclock : Itemizes env env'.readClock.2 :=
      hread.trans (.of_quiet rfl (List.forall_mem_singleton.mpr rfl) rfl)
    simp only
    split
    · exact hclock.trans (itemizes_note _ rfl)
    · exact hclock.trans (itemizes_note _ rfl)

end Environment

open Environment (Itemizes)

section Loads

variable [DecidableEq P] [DecidableEq A]

/-! ## Loads -/

/-- A poll of work writes the value with which it ends, and does nothing else to the store. -/
theorem Work.itemizes_pollAs (execution : Option Nat) (work : Work P A V E)
    (env : Environment P A V E) : Itemizes env (work.pollAs execution env).2 := by
  obtain ⟨events, htrace, hloading⟩ := work.isLoading_pollAs_all execution env
  refine ⟨events, htrace, fun r hr => ?_⟩
  rw [doneIn_of_isLoading hloading]
  by_cases hends : ∃ delivery, (work.pollAs execution env).1 = .finished (.value (.ok delivery))
  · obtain ⟨delivery, hends⟩ := hends
    have hhands := hands_pollAs (Prod.ext hends rfl)
    obtain ⟨told, htold, hwrites, -⟩ := hhands.events
    obtain rfl := List.append_cancel_left (htrace.symm.trans htold)
    refine ⟨r.put work.key delivery.entry, ?_, ?_⟩
    · rw [hhands.store, hr]
      rfl
    · rw [hwrites]
      exact .single r (.put work.key delivery.entry)
  · have huntouched : Untouched env (work.pollAs execution env).2 :=
      untouched_pollAs rfl (not_exists.mp hends)
    obtain ⟨told, htold, hnothing⟩ := huntouched.events
    obtain rfl := List.append_cancel_left (htrace.symm.trans htold)
    rw [writes_of_untouched hnothing]
    exact ⟨r, huntouched.store.trans hr, .nil⟩

namespace Load

/-- To receive an outcome does nothing to the store. -/
theorem itemizes_receive (execution : Option Nat) (outcome : Outcome (Result V E))
    (c : Cache P A V E) : Itemizes c.env (receive execution outcome c).2.env :=
  c.env.itemizes_note rfl

/-- A load of a single caller tells what it does to the store. -/
theorem itemizes_pollAlone (work : Work P A V E) (c : Cache P A V E) :
    Itemizes c.env (pollAlone work c).2.env := by
  have hpoll := work.itemizes_pollAs none c.env
  unfold pollAlone
  rcases hwork : work.pollAs none c.env with ⟨rest | outcome, env⟩ <;> rw [hwork] at hpoll
  · exact hpoll
  · exact hpoll.trans (itemizes_receive none outcome { c with env })

/-- A shared load tells what its execution does to the store. -/
theorem itemizes_pollAttached (e : Nat) (c : Cache P A V E) :
    Itemizes c.env (pollAttached e c).2.env := by
  have hpoll : Itemizes c.env (c.flights.poll (Work.pollAs (some e)) e c.env).2.2.1 := by
    rcases (c.flights.poll_works (Work.pollAs (some e)) e c.env).1 with hidle | ⟨work, -, hwork⟩
    · rw [hidle]
      exact .refl _
    · rw [hwork]
      exact work.itemizes_pollAs (some e) c.env
  unfold pollAttached
  rcases hflights : c.flights.poll (Work.pollAs (some e)) e c.env with
    ⟨_ | outcome, flights, env, notices⟩ <;> rw [hflights] at hpoll
  · exact hpoll.trans (env.itemizes_noteRegistry notices)
  · exact (hpoll.trans (env.itemizes_noteRegistry notices)).trans
      (itemizes_receive (some e) outcome _)

/-- Every poll of a load tells what it does to the store. -/
theorem itemizes_poll (load : Load P A V E) (c : Cache P A V E) :
    Itemizes c.env (load.poll c).2.env := by
  cases load with
  | attached e => exact itemizes_pollAttached e c
  | alone work => exact itemizes_pollAlone work c
  | unstarted key share =>
    cases share with
    | true => exact (c.env.itemizes_noteRegistry _).trans (itemizes_pollAttached _ _)
    | false => exact itemizes_pollAlone (.fresh key) c

/-- To drop a load does nothing to the store. -/
theorem itemizes_drop (load : Load P A V E) (c : Cache P A V E) :
    Itemizes c.env (load.drop c).env := by
  have hdiscard : ∀ (work : Work P A V E) (c : Cache P A V E),
      Itemizes c.env (c.discard work).env := fun work c =>
    .of_quiet rfl (List.forall_mem_singleton.mpr rfl) rfl
  unfold drop
  cases load with
  | unstarted key share => exact .refl c.env
  | alone work => exact hdiscard work c
  | attached e =>
    simp only
    rcases c.flights.leave e with ⟨_ | work, flights, notices⟩
    · exact c.env.itemizes_noteRegistry notices
    · exact (hdiscard work { c with flights }).trans (Environment.itemizes_noteRegistry _ notices)

end Load

/-! ## Sessions -/

/-- What a request does besides its load tells of the lookup. -/
theorem CallActs.itemizes {w w' : World P A V E} (h : CallActs w w') :
    Itemizes w.cache.env w'.cache.env := by
  cases h with
  | @looks c c' loads key maxAge found hlook =>
    unfold Cache.lookup at hlook
    split at hlook
    · obtain ⟨-, rfl⟩ := Prod.mk.inj (Option.some.inj hlook)
      exact c.env.itemizes_lookup key maxAge
    · cases hlook
  | judges => exact .of_eq rfl rfl
  | notes hremark => exact Environment.itemizes_note _ (Event.done?_of_isRemark hremark)

/-- What a session does besides its loads, but for questions, tells what it does to the store. -/
theorem OwnActs.itemizes {w w' : World P A V E} (h : OwnActs w w') :
    Itemizes w.cache.env w'.cache.env := by
  cases h with
  | ofCall hacts => exact hacts.itemizes
  | tends _ hstore htrace => exact .of_eq htrace hstore
  | clears => exact Environment.itemizes_clearStore _
  | closes => exact .of_eq rfl rfl

/-- Along a path everything is told that is done to the store. -/
theorem LoadReaches.itemizes {starts : Key P A → Bool → Prop} {w w' : World P A V E}
    (h : LoadReaches OwnActs starts w w') : Itemizes w.cache.env w'.cache.env := by
  obtain ⟨visits, hpath⟩ := h
  induction hpath with
  | refl => exact .refl _
  | tail _ hlast ih =>
    refine ih.trans ?_
    cases hlast with
    | rests hunnamed => exact hunnamed.itemizes
    | begins => exact .refl _
    | polls load => exact load.itemizes_poll _
    | drops load => exact load.itemizes_drop _

end Loads

namespace Session

/-- Whether a step makes the store forget what it has recorded. -/
def Step.isForget : Step P A V → Bool
  | .ask .forget => true
  | _ => false

/-- Whether a step is performed, and makes the store forget what it has recorded. -/
def forgets (s : Session P A V E) (st : Step P A V) : Bool := st.isForget && !s.closed

variable [DecidableEq P] [DecidableEq A]

/-- A question to a recording store does nothing to it, but for the one that empties its record. -/
theorem itemizes_ask {s : Session P A V E} {query : Query (Key P A)}
    (hforget : Step.isForget (.ask query : Step P A V) = false) :
    Itemizes s.cache.env (s.ask query).2.cache.env := by
  refine ⟨[], (List.append_nil _).symm, fun r hr => ⟨r, ?_, .nil⟩⟩
  show (s.cache.env.store.ask query).2 = _
  rw [hr]
  cases query with
  | forget => cases hforget
  | _ => rfl

variable [DecidableEq V] {s : Session P A V E} {st : Step P A V}
  {r : ReadThrough.Recorded (Key P A) V}

/-- Every step tells what it does to the store, unless it makes the store forget. -/
theorem itemizes_perform (h : s.Sound) (hforget : st.isForget = false) :
    Itemizes s.cache.env (s.perform st).2.cache.env := by
  cases hput : st.isPut with
  | true =>
    obtain ⟨key, entry, rfl⟩ := Step.eq_put_of_isPut hput
    exact s.cache.env.itemizes_writeStore key entry
  | false =>
    cases hask : st.isAsk with
    | true =>
      obtain ⟨query, rfl⟩ := Step.eq_ask_of_isAsk hask
      exact itemizes_ask hforget
    | false => exact (ownActs_perform h.fit hput hask st.allowed_all).reaches.itemizes

/-- The report of a step tells what the step does to a recording store, in order. -/
theorem did_step (h : s.Sound) (hr : s.cache.env.store = .recorded r)
    (hforgets : s.forgets st = false) :
    ∃ r', (s.step st).2.cache.env.store = .recorded r' ∧
      r.Did (doneIn (s.step st).1.events) r' := by
  have hstep : Itemizes s.fresh.cache.env (s.step st).2.cache.env := by
    rw [step_snd]
    split
    · exact .refl _
    · rename_i hopen
      have hsound : s.fresh.Sound := h
      refine itemizes_perform hsound ?_
      cases hforget : st.isForget with
      | false => rfl
      | true =>
        -- The cache is there to be asked, since the step is not refused.
        have hneeds : st.needsCache = true := by
          cases st with
          | ask query => rfl
          | _ => cases hforget
        have hclosed : s.closed = true := by simpa [forgets, hforget] using hforgets
        exact absurd (by rw [hclosed, hneeds]; rfl) hopen
  obtain ⟨events, htrace, hdid⟩ := hstep
  have hevents : (s.step st).1.events = events := htrace
  rw [hevents]
  exact hdid r hr

/-- A step that makes the store forget empties its record. -/
theorem store_step_of_forgets (hr : s.cache.env.store = .recorded r)
    (hforgets : s.forgets st = true) :
    (s.step st).2.cache.env.store = .recorded r.forget := by
  obtain ⟨hforget, hopen⟩ : st.isForget = true ∧ s.closed = false := by
    simpa [forgets] using hforgets
  cases st with
  | ask query =>
    cases query with
    | forget =>
      rw [step_snd, hopen]
      show (s.cache.env.store.ask .forget).2 = _
      rw [hr]
      rfl
    | _ => cases hforget
  | _ => cases hforget

end Session

end ReadThrough
