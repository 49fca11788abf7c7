import ReadThrough.Builder
import ReadThrough.Proofs.Session.Effects
/-!
# Proofs: what is stored throughout a run

The store has exactly what the events of a run have left of what it had at first, whoever has
written it: so every stored entry is the latest one of its key. And what the events tell about the
store is so (`Sincere.run`): every read finds what is stored, and an execution that ends with a
result has stored it.
-/

namespace ReadThrough

variable {P A V E : Type}

section Untouched

variable {events : List (Event P A V E)}

/-- A quiet event touches nothing that is stored. -/
theorem Event.touches_of_isQuiet {event : Event P A V E} (h : event.isQuiet = true) :
    event.touches = false := by
  cases event with
  | registry | abandoned | unanswered | rescued | rejected | retried | lagged => rfl
  | _ => cases h

/-- A lookup touches nothing that is stored. -/
theorem Looks.untouched {key : Key P A} {maxAge : Option Duration}
    {found : Option (Delivery V)} (h : Looks key maxAge events found) :
    ∀ event ∈ events, event.touches = false := by
  cases h <;> simp [Event.touches]

/-- The end of an execution touches nothing that is stored: its write is told before. -/
theorem untouched_endEvents (notices : List Notice) (execution : Option Nat)
    (progress : Progress (Work P A V E) (Outcome (Result V E))) :
    ∀ event ∈ (endEvents notices execution progress : List (Event P A V E)),
      event.touches = false := by
  have hnotices : ∀ event ∈ (notices.map .registry : List (Event P A V E)),
      event.touches = false := fun event he =>
    Event.touches_of_isQuiet (isQuiet_registry notices event he)
  cases progress with
  | waiting left => exact hnotices
  | finished outcome =>
    exact List.forall_mem_append.mpr ⟨hnotices, List.forall_mem_singleton.mpr rfl⟩

end Untouched

section Stocked

variable [DecidableEq P] [DecidableEq A] {seed : Store (Key P A) V}
  {T events : List (Event P A V E)} {w w' : World P A V E}

/-- Whatever a move does, the store has what is told. -/
theorem Stocked.does (h : Stocked seed T w.cache.env) (hdoes : Does w events w') :
    Stocked seed (T ++ events) w'.cache.env := by
  cases hdoes with
  | looks hlooks henv _ _ => exact h.untouched henv.find hlooks.untouched
  | clears => exact .clear seed T w.cache.env
  | rests hquiet henv _ _ =>
    exact h.untouched henv.find fun event he => Event.touches_of_isQuiet (hquiet event he)
  | @receives _ e outcome notices _ henv _ _ =>
    exact h.untouched henv.find (untouched_endEvents notices (some e) (.finished outcome))
  | polls _ hpoll htrace _ henv _ =>
    rw [← List.append_assoc]
    exact (h.pollAs hpoll htrace).untouched henv.find (untouched_endEvents _ _ _)

/-- A move leaves in the store what its events tell. -/
theorem Stocked.move (hmove : Move w w') (h : Stocked seed T w.cache.env) :
    Leads (fun T w => Stocked seed T w.cache.env) T w w' := by
  obtain ⟨events, htrace, hdoes⟩ := hmove.reaches
  exact ⟨events, htrace, h.does hdoes⟩

end Stocked

/-! ## Events that vouch for what is stored -/

/-- Every read that finds nothing is a miss. -/
def Missed (T : List (Event P A V E)) : Prop :=
  ∀ before key after, T = before ++ .storeRead key none :: after →
    ∃ rest, after = .miss key :: rest

/-- Two records in which every read that finds nothing is a miss are one. -/
theorem Missed.append {T events : List (Event P A V E)} (h : Missed T) (hevents : Missed events) :
    Missed (T ++ events) := by
  intro before key after hsplit
  rcases append_eq_split hsplit with ⟨rest, hT⟩ | ⟨begun, rfl, hbegun⟩
  · obtain ⟨more, rfl⟩ := h before key rest hT
    rw [hT, List.append_assoc, List.cons_append, List.append_cancel_left_eq, List.cons.injEq]
      at hsplit
    exact ⟨_, hsplit.2.symm⟩
  · exact hevents begun key after hbegun

section Sincere

variable {events : List (Event P A V E)}

/-- A record without a read that finds nothing has none that is not a miss. -/
theorem missed_of_not_mem (h : ∀ key, .storeRead key none ∉ events) : Missed events := by
  rintro before key after rfl
  exact absurd (List.mem_append_right _ (List.mem_cons_self ..)) (h key)

/-- Events that tell nothing of what is stored have no read that is not a miss. -/
theorem missed_of_forall (h : ∀ event ∈ events, event.vouches = false) : Missed events :=
  missed_of_not_mem fun _ hmem => absurd (h _ hmem) nofun

/-- A quiet event tells nothing of what is stored. -/
theorem Event.not_vouches_of_isQuiet {event : Event P A V E} (h : event.isQuiet = true) :
    event.vouches = false := by
  cases event with
  | storeRead | settled => cases h
  | _ => rfl

/-- The end of an execution tells nothing of what is stored. -/
theorem not_vouches_endEvents (notices : List Notice) (execution : Option Nat)
    (progress : Progress (Work P A V E) (Outcome (Result V E))) :
    ∀ event ∈ (endEvents notices execution progress : List (Event P A V E)),
      event.vouches = false := by
  have hnotices : ∀ event ∈ (notices.map .registry : List (Event P A V E)),
      event.vouches = false := fun event he =>
    Event.not_vouches_of_isQuiet (isQuiet_registry notices event he)
  cases progress with
  | waiting left => exact hnotices
  | finished outcome =>
    exact List.forall_mem_append.mpr ⟨hnotices, List.forall_mem_singleton.mpr rfl⟩

/-- A lookup that finds nothing is a miss. -/
theorem Looks.missed {key : Key P A} {maxAge : Option Duration} {found : Option (Delivery V)}
    (h : Looks key maxAge events found) : Missed events := by
  cases h with
  | hit | stale => exact missed_of_not_mem fun key => by simp
  | miss =>
    intro before key' after hsplit
    cases before with
    | nil =>
      cases hsplit
      exact ⟨[], rfl⟩
    | cons first rest =>
      have hmem : .storeRead key' none ∈ ([.miss key] : List (Event P A V E)) := by
        rw [(List.cons.inj hsplit).2]
        exact List.mem_append_right _ (List.mem_cons_self ..)
      simp at hmem

/-- The store has what the events have left, its parts agree, and what the events tell about it is
so. -/
structure Sincere [DecidableEq P] [DecidableEq A] (seed : Store (Key P A) V)
    (T : List (Event P A V E)) (env : Environment P A V E) : Prop where
  stocked : Stocked seed T env
  consistent : env.store.Consistent
  faithful : Faithful seed.find T
  missed : Missed T

namespace Sincere

variable [DecidableEq P] [DecidableEq A] {seed : Store (Key P A) V} {T : List (Event P A V E)}
  {w w' : World P A V E}

/-- What a move does keeps the record of the store sincere. -/
theorem does (h : Sincere seed T w.cache.env) (hdoes : Does w events w') :
    Sincere seed (T ++ events) w'.cache.env := by
  have hquiet : ∀ {told : List (Event P A V E)}, (∀ event ∈ told, event.vouches = false) →
      Faithful (stocks seed.find T) told ∧ Missed told := fun htold =>
    ⟨faithful_of_forall htold, missed_of_forall htold⟩
  suffices hevents : w'.cache.env.store.Consistent ∧ Faithful (stocks seed.find T) events ∧
      Missed events from
    ⟨h.stocked.does hdoes, hevents.1, h.faithful.append hevents.2.1, h.missed.append hevents.2.2⟩
  have hstocked : w.cache.env.store.find = stocks seed.find T := h.stocked
  cases hdoes with
  | @looks _ key maxAge found _ hlooks henv _ _ _ hread =>
    refine ⟨henv.consistent h.consistent, ?_, hlooks.missed⟩
    intro before event after hsplit
    have hmem : event ∈ events := by
      rw [hsplit]
      exact List.mem_append_right _ (List.mem_cons_self ..)
    have hbefore : stocks (stocks seed.find T) before = w.cache.env.store.find := by
      refine (foldl_of_forall (fun event he => stock_of_untouched ?_) _).trans hstocked.symm
      exact hlooks.untouched event (hsplit ▸ List.mem_append_left _ he)
    rw [hbefore]
    cases event with
    | storeRead key' found' => exact hread key' found' hmem
    | settled => cases hlooks <;> simp at hmem
    | _ => trivial
  | clears =>
    exact ⟨Store.consistent_clear _, hquiet (List.forall_mem_singleton.mpr rfl)⟩
  | rests hquiets henv _ _ =>
    exact ⟨henv.consistent h.consistent,
      hquiet fun event he => Event.not_vouches_of_isQuiet (hquiets event he)⟩
  | @receives _ e outcome notices _ henv _ _ =>
    exact ⟨henv.consistent h.consistent,
      hquiet (not_vouches_endEvents notices (some e) (.finished outcome))⟩
  -- Work tells of its write by itself; what tells of its end says nothing about the store.
  | @polls _ execution work rest progress env' told notices _ hpoll htrace _ henv _ =>
    obtain ⟨told', htrace', hloading⟩ := work.isLoading_pollAs_all execution w.cache.env
    rw [hpoll, htrace, List.append_cancel_left_eq] at htrace'
    have hmissed := missed_of_forall (not_vouches_endEvents notices execution progress)
    refine ⟨henv.consistent (Work.consistent_pollAs h.consistent hpoll), ?_, ?_⟩
    · exact (Work.faithful_pollAs h.stocked h.consistent hpoll htrace).append
        (faithful_of_forall (not_vouches_endEvents notices execution progress))
    · refine (missed_of_not_mem fun key hmem => ?_).append hmissed
      cases hloading (.storeRead key none) (htrace' ▸ hmem)

/-- A move keeps the record of the store sincere. -/
theorem move (hmove : Move w w') (h : Sincere seed T w.cache.env) :
    Leads (fun T w => Sincere seed T w.cache.env) T w w' := by
  obtain ⟨events, htrace, hdoes⟩ := hmove.reaches
  exact ⟨events, htrace, h.does hdoes⟩

/-- A write past the cache keeps the record of the store sincere. -/
theorem put (h : Sincere seed T w.cache.env) (key : Key P A) (entry : Entry V) :
    Leads (fun T w => Sincere seed T w.cache.env) T w (w.put key entry) := by
  have hwritten : ∀ event ∈ w.cache.env.writeEvents key entry, event.vouches = false :=
    Environment.forall_writeEvents rfl fun _ _ => rfl
  refine ⟨_, Environment.trace_writeStore _ key entry, ?_⟩
  exact ⟨h.stocked.writeStore key entry, h.consistent.put key entry,
    h.faithful.append (faithful_of_forall hwritten), h.missed.append (missed_of_forall hwritten)⟩

/-- The record of the store is sincere throughout every run. -/
theorem run [DecidableEq V] {s : Session P A V E} (hs : s.Sound) (h : Sincere seed T s.cache.env)
    (steps : List (Session.Step P A V)) :
    Sincere seed (T ++ eventsOf (s.run steps).1) (s.run steps).2.cache.env :=
  Session.kept_run (I := fun T w => Sincere seed T w.cache.env) move
    (fun h => ⟨h.stocked, h.consistent, h.faithful, h.missed⟩) put steps hs h

end Sincere

end Sincere

namespace Session

variable [DecidableEq P] [DecidableEq A] [DecidableEq V]

/-- After every run the store has what the events of the run have left of it. -/
theorem stocked_run (setup : Setup (Store (Key P A) V)) (source : Source P V E)
    (steps : List (Step P A V)) :
    let run := (create (Cache.create setup source)).run steps
    Stocked setup.store (eventsOf run.1) run.2.cache.env := by
  have hsound : (create (Cache.create setup source)).Sound := sound_create _
  have hstart : Stocked setup.store ([] : List (Event P A V E))
      (create (Cache.create setup source)).world.cache.env := rfl
  exact kept_run (I := fun T w => Stocked setup.store T w.cache.env) Stocked.move id
    (fun h key entry => ⟨_, Environment.trace_writeStore _ key entry, h.writeStore key entry⟩)
    steps hsound hstart

/-- Every entry that is stored in the course of a run is the latest of its key: it was written last
or was there at first, and was not displaced, overwritten or cleared since. -/
theorem stored_latest (setup : Setup (Store (Key P A) V)) (source : Source P V E)
    (steps : List (Step P A V)) (key : Key P A) (entry : Entry V) :
    let run := (create (Cache.create setup source)).run steps
    run.2.cache.env.store.find key = some entry →
      Latest setup.store.find key entry (eventsOf run.1) := by
  intro run hfind
  have hstocked := stocked_run setup source steps
  exact latest_of_stocks (congrFun hstocked key ▸ hfind)

end Session

end ReadThrough
