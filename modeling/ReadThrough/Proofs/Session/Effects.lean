import ReadThrough.Proofs.Call.Course
import ReadThrough.Proofs.Load.Deliveries
import ReadThrough.Proofs.Session.Runs
import ReadThrough.Proofs.Store.Contents
/-!
# Proofs: the effects of a move

A move looks something up, clears the store, polls one piece of work, hands out an outcome that was
there before, or does none of this (`Does`). What a move does to the source, the store, the channels
and the work under way is said here once, for whatever is to be kept by all of them.
-/

namespace ReadThrough

variable {P A V E : Type}

/-! ## Work under way -/

/-- The work of a load that does its work alone. -/
def Load.work? : Load P A V E → Option (Work P A V E)
  | .alone work => some work
  | .unstarted _ _ | .attached _ => none

/-- All work under way. -/
def World.works (w : World P A V E) : Multiset (Work P A V E) :=
  w.cache.flights.works + w.loads.filterMap Load.work?

/-- The work under way is that of one load, if it does its own, and that of all others. -/
theorem World.works_held (c : Cache P A V E) (load : Option (Load P A V E))
    (loads : Multiset (Load P A V E)) :
    World.works ⟨c, held load loads⟩ = held (load.bind Load.work?) (World.works ⟨c, loads⟩) := by
  rw [works, filterMap_held, add_held, works]

/-- The work under way is that of one execution, if it is running, and all other. -/
theorem World.works_flights {c : Cache P A V E} {one : Option (Work P A V E)}
    {rest : Multiset (Work P A V E)} (h : c.flights.works = held one rest)
    (loads : Multiset (Load P A V E)) :
    World.works ⟨c, loads⟩ = held one (rest + loads.filterMap Load.work?) := by
  rw [works, h, held_add]

/-! ## Events -/

/-- Whether an event is about the registry, about work that is given up, or a mere remark. -/
def Event.isQuiet : Event P A V E → Bool
  | .registry _ | .abandoned _ => true
  | event => event.isRemark

/-- The notices of the registry are quiet. -/
theorem isQuiet_registry (notices : List Notice) :
    ∀ event ∈ (notices.map .registry : List (Event P A V E)), event.isQuiet = true := by
  intro event he
  obtain ⟨notice, -, rfl⟩ := List.mem_map.mp he
  rfl

/-- The events at the end of a poll: notices, and that a result is received. -/
def lastEvents (notices : List Notice) (execution : Option Nat) (result : Result V E) :
    List (Event P A V E) :=
  notices.map .registry ++ [.received execution result]

/-- The events at the end of a poll of work, by what becomes of the work. -/
def endEvents (notices : List Notice) (execution : Option Nat) :
    Progress (Work P A V E) (Outcome (Result V E)) → List (Event P A V E)
  | .waiting _ => notices.map .registry
  | .finished outcome => lastEvents notices execution (Load.resultOf outcome)

/-- Different entries are delivered as different deliveries. -/
theorem Delivery.cached_injective {entry entry' : Entry V} (h : cached entry = cached entry') :
    entry = entry' := by
  obtain ⟨value, stamp⟩ := entry
  obtain ⟨value', stamp'⟩ := entry'
  cases h
  rfl

/-! ## Environments -/

/-- Nothing happens to the source, to what is stored and to what the channels carry, and the parts
of the store go on to agree. -/
structure Undisturbed [DecidableEq P] [DecidableEq A] (env env' : Environment P A V E) : Prop where
  source : env'.source = env.source
  called : env'.called = env.called
  find : env'.store.find = env.store.find
  errors : ∀ {messages}, env.errors.Carries messages → env'.errors.Carries messages
  updates : ∀ {messages}, env.updates.Carries messages → env'.updates.Carries messages
  consistent : env.store.Consistent → env'.store.Consistent

/-- What a poll of work by an execution does to the stages. -/
def Advanced (f f' : Flights (Key P A) (Work P A V E) (Result V E)) (execution : Option Nat)
    (work : Work P A V E) (progress : Progress (Work P A V E) (Outcome (Result V E))) : Prop :=
  match execution with
  | none => f' = f
  | some e => f.stage? e = some (.running work) ∧ f'.stage? e = some (.ofProgress progress) ∧
    ∀ e', e' ≠ e → f'.stage? e' = f.stage? e'

variable [DecidableEq P] [DecidableEq A]

/-- An environment with the same source, calls, store and channels is undisturbed. -/
theorem Undisturbed.of_eq {env env' : Environment P A V E} (hsource : env'.source = env.source)
    (hcalled : env'.called = env.called) (hstore : env'.store = env.store)
    (herrors : env'.errors = env.errors) (hupdates : env'.updates = env.updates) :
    Undisturbed env env' :=
  ⟨hsource, hcalled, by rw [hstore], fun h => herrors.symm ▸ h, fun h => hupdates.symm ▸ h,
    fun h => hstore.symm ▸ h⟩

/-- What a move does, with the events that it adds to the trace. -/
inductive Does (w : World P A V E) : List (Event P A V E) → World P A V E → Prop where
  | looks {w' : World P A V E} {key : Key P A} {maxAge : Option Duration}
      {found : Option (Delivery V)} {events : List (Event P A V E)}
      (hlooks : Looks key maxAge events found) (henv : Undisturbed w.cache.env w'.cache.env)
      (hflights : w'.cache.flights = w.cache.flights) (hworks : w'.works = w.works)
      (hfind : ∀ entry, found = some (Delivery.cached entry) →
        w.cache.env.store.find key = some entry)
      (hread : ∀ key found, .storeRead key found ∈ events → found = w.cache.env.store.find key) :
      Does w events w'
  | clears : Does w [.cleared] ⟨w.cache.clear, w.loads⟩
  /-- At most work is given up, or an execution starts. -/
  | rests {w' : World P A V E} {events : List (Event P A V E)}
      (hquiet : ∀ event ∈ events, event.isQuiet = true)
      (henv : Undisturbed w.cache.env w'.cache.env)
      (hsettled : w.cache.flights.SettledAlike w'.cache.flights)
      (hworks : w'.works ≤ w.works ∨ ∃ key, w'.works = .fresh key ::ₘ w.works) : Does w events w'
  /-- A caller receives the outcome of an execution that has ended before. -/
  | receives {w' : World P A V E} {e : Nat} {outcome : Outcome (Result V E)}
      {notices : List Notice} (hstage : w.cache.flights.stage? e = some (.settled outcome))
      (henv : Undisturbed w.cache.env w'.cache.env)
      (hsettled : w.cache.flights.SettledAlike w'.cache.flights) (hworks : w'.works = w.works) :
      Does w (lastEvents notices (some e) (Load.resultOf outcome)) w'
  /-- A poll of work, after which nothing more is done but to tell. -/
  | polls {w' : World P A V E} {execution : Option Nat} {work : Work P A V E}
      {rest : Multiset (Work P A V E)}
      {progress : Progress (Work P A V E) (Outcome (Result V E))} {env' : Environment P A V E}
      {events : List (Event P A V E)} {notices : List Notice}
      (hworks : w.works = work ::ₘ rest)
      (hpoll : work.pollAs execution w.cache.env = (progress, env'))
      (htrace : env'.trace = w.cache.env.trace ++ events)
      (hworks' : w'.works = held progress.rest? rest) (henv : Undisturbed env' w'.cache.env)
      (hadvanced : Advanced w.cache.flights w'.cache.flights execution work progress) :
      Does w (events ++ endEvents notices execution progress) w'

/-- A world is reached by what a move does, and its trace tells so. -/
def Reaches (w w' : World P A V E) : Prop :=
  ∃ events, w'.cache.env.trace = w.cache.env.trace ++ events ∧ Does w events w'

variable {w w' : World P A V E} {c c' : Cache P A V E} {loads : Multiset (Load P A V E)}

/-- A lookup disturbs neither the source nor the store nor the channels. -/
theorem Environment.undisturbed_lookup (env : Environment P A V E) (key : Key P A)
    (maxAge : Option Duration) : Undisturbed env (env.lookup key maxAge).2 := by
  have hfind := env.store.find_get key
  have hconsistent := fun h : env.store.Consistent => h.get key
  unfold lookup readStore
  rcases hget : env.store.get key with ⟨_ | entry, store⟩ <;> rw [hget] at hfind hconsistent
  · exact ⟨rfl, rfl, hfind, id, id, hconsistent⟩
  · simp only
    split <;> exact ⟨rfl, rfl, hfind, id, id, hconsistent⟩

/-- What a lookup finds is stored. -/
theorem Environment.find_of_lookup {env : Environment P A V E} {key : Key P A}
    {maxAge : Option Duration} {entry : Entry V}
    (h : (env.lookup key maxAge).1 = some (Delivery.cached entry)) :
    env.store.find key = some entry := by
  have hfind := env.store.get_fst key
  unfold lookup readStore at h
  rcases hget : env.store.get key with ⟨_ | entry', store⟩ <;> rw [hget] at h hfind
  · cases h
  · simp only at h
    split at h
    · obtain rfl : entry' = entry := Delivery.cached_injective (Option.some.inj h)
      exact hfind.symm
    · cases h

/-- What a lookup reads is stored. -/
theorem Environment.trace_lookup (env : Environment P A V E) (key : Key P A)
    (maxAge : Option Duration) :
    ∃ more, (env.lookup key maxAge).2.trace =
      env.trace ++ .storeRead key (env.store.find key) :: more := by
  have hread : (env.readStore key).2.trace =
      env.trace ++ [.storeRead key (env.store.find key)] := by
    rw [← Store.get_fst]
    rfl
  have hgrows : (env.readStore key).2.trace <+: (env.lookup key maxAge).2.trace := by
    unfold lookup
    rcases env.readStore key with ⟨_ | entry, env₁⟩
    · exact List.prefix_append _ _
    · dsimp only
      split <;> exact (List.prefix_append _ _).trans (List.prefix_append _ _)
  obtain ⟨more, hmore⟩ := hgrows
  exact ⟨more, by rw [← hmore, hread, List.append_assoc]; rfl⟩

omit [DecidableEq P] [DecidableEq A] in
/-- A lookup reads the store first of all, and only then. -/
theorem Looks.read {key key' : Key P A} {maxAge : Option Duration} {found : Option (Delivery V)}
    {read read' : Option (Entry V)} {more : List (Event P A V E)}
    (h : Looks key maxAge (.storeRead key read :: more) found)
    (hread : .storeRead key' read' ∈ (.storeRead key read :: more : List (Event P A V E))) :
    key' = key ∧ read' = read := by
  cases h <;> simpa using hread

/-- What does not disturb anything and settles nothing is a move at rest, if at most new work is
begun. -/
theorem Reaches.of_rest {events : List (Event P A V E)}
    (htrace : w'.cache.env.trace = w.cache.env.trace ++ events)
    (hquiet : ∀ event ∈ events, event.isQuiet = true) (henv : Undisturbed w.cache.env w'.cache.env)
    (hsettled : w.cache.flights.SettledAlike w'.cache.flights)
    (hworks : w'.works ≤ w.works ∨ ∃ key, w'.works = .fresh key ::ₘ w.works) : Reaches w w' :=
  ⟨events, htrace, .rests hquiet henv hsettled hworks⟩

/-- The same if nothing is told. -/
theorem Reaches.of_still (htrace : w'.cache.env.trace = w.cache.env.trace)
    (henv : Undisturbed w.cache.env w'.cache.env)
    (hsettled : w.cache.flights.SettledAlike w'.cache.flights)
    (hworks : w'.works ≤ w.works ∨ ∃ key, w'.works = .fresh key ::ₘ w.works) : Reaches w w' := by
  have hnothing : w'.cache.env.trace = w.cache.env.trace ++ [] := by rw [htrace, List.append_nil]
  exact .of_rest hnothing (List.forall_mem_nil _) henv hsettled hworks

/-- What a session does besides its loads tells what it does. -/
theorem Acts.reaches (h : Acts c c') : Reaches ⟨c, loads⟩ ⟨c', loads⟩ := by
  have hstill : ∀ {c' : Cache P A V E}, c'.env.trace = c.env.trace → Undisturbed c.env c'.env →
      c'.flights = c.flights → Reaches ⟨c, loads⟩ ⟨c', loads⟩ := by
    intro c' htrace henv hflights
    refine .of_still htrace henv ?_ (.inl (le_of_eq ?_))
    · rw [show World.cache ⟨c', loads⟩ = c' from rfl, hflights]
      exact .refl _
    · exact congrArg (·.works + _) hflights
  cases h with
  | @looks key maxAge found _ hlook =>
    obtain ⟨events, htrace, hlooks⟩ := Cache.looks_lookup hlook
    unfold Cache.lookup at hlook
    split at hlook
    · cases hlook
      refine ⟨events, htrace, .looks hlooks (c.env.undisturbed_lookup _ _) rfl rfl ?_ ?_⟩
      · exact fun entry hfound => Environment.find_of_lookup hfound
      · obtain ⟨more, hmore⟩ := c.env.trace_lookup key maxAge
        obtain rfl := List.append_cancel_left (htrace.symm.trans hmore)
        intro key' found hread
        obtain ⟨rfl, rfl⟩ := hlooks.read hread
        rfl
    · cases hlook
  | clears => exact ⟨[.cleared], rfl, .clears⟩
  | @notes event hremark =>
    have hquiet : event.isQuiet = true := by
      cases event with
      | unanswered | rescued | rejected | retried | lagged => rfl
      | _ => cases hremark
    exact .of_rest rfl (List.forall_mem_singleton.mpr hquiet) (.of_eq rfl rfl rfl rfl rfl) (.refl _)
      (.inl le_rfl)
  | asks query =>
    exact hstill rfl ⟨rfl, rfl, c.env.store.find_ask query, id, id, fun h => h.ask query⟩ rfl
  | subscribesUpdates | unsubscribesUpdates =>
    exact hstill rfl ⟨rfl, rfl, rfl, id, fun h => ⟨h.sent, h.latest⟩, id⟩ rfl
  | subscribesErrors | unsubscribesErrors =>
    exact hstill rfl ⟨rfl, rfl, rfl, fun h => ⟨h.sent, h.latest⟩, id, id⟩ rfl
  | _ => exact hstill rfl (.of_eq rfl rfl rfl rfl rfl) rfl

/-- A shared load that begins tells what it does. -/
theorem reaches_enters (key : Key P A) :
    Reaches ⟨c, .unstarted key true ::ₘ loads⟩
      ⟨⟨c.env.noteRegistry [(c.flights.enter key (.fresh key)).2.2],
          (c.flights.enter key (.fresh key)).2.1⟩,
        .attached (c.flights.enter key (.fresh key)).1 ::ₘ loads⟩ := by
  have hbefore : World.works ⟨c, .unstarted key true ::ₘ loads⟩ = World.works ⟨c, loads⟩ :=
    World.works_held c (some (.unstarted key true)) loads
  refine .of_rest rfl (isQuiet_registry [_]) (.of_eq rfl rfl rfl rfl rfl)
    (c.flights.settledAlike_enter key (.fresh key)) ?_
  have hafter : World.works ⟨⟨c.env.noteRegistry [(c.flights.enter key (.fresh key)).2.2],
      (c.flights.enter key (.fresh key)).2.1⟩,
      .attached (c.flights.enter key (.fresh key)).1 ::ₘ loads⟩ =
      (c.flights.enter key (.fresh key)).2.1.works + loads.filterMap Load.work? :=
    World.works_held _ (some (.attached _)) loads
  rw [hbefore, hafter]
  rcases c.flights.works_enter key (.fresh key) with hworks | hworks
  · rw [hworks]
    exact .inl le_rfl
  · rw [hworks, Multiset.cons_add]
    exact .inr ⟨key, rfl⟩

/-- A load that is dropped tells what it does. -/
theorem reaches_drops (load : Load P A V E) : Reaches ⟨c, load ::ₘ loads⟩ ⟨load.drop c, loads⟩ := by
  have hbefore : World.works ⟨c, load ::ₘ loads⟩ = held load.work? (World.works ⟨c, loads⟩) :=
    World.works_held c (some load) loads
  have hless : World.works ⟨c, loads⟩ ≤ World.works ⟨c, load ::ₘ loads⟩ :=
    le_of_le_of_eq (le_held _ _) hbefore.symm
  have hquiet : ∀ (work : Work P A V E) (ns : List Notice),
      ∀ event ∈ (.abandoned work.key :: ns.map .registry : List (Event P A V E)),
        event.isQuiet = true :=
    fun work ns => List.forall_mem_cons.mpr ⟨rfl, isQuiet_registry ns⟩
  unfold Load.drop
  cases load with
  | unstarted key share =>
    exact .of_still rfl (.of_eq rfl rfl rfl rfl rfl) (.refl _) (.inl hless)
  | alone work =>
    exact .of_rest rfl (hquiet work []) (.of_eq rfl rfl rfl rfl rfl) (.refl _) (.inl hless)
  | attached e =>
    have hsame := c.flights.settledAlike_leave e
    have hworks : World.works ⟨c, .attached e ::ₘ loads⟩ = _ :=
      hbefore.trans (World.works_flights (c.flights.works_leave e) loads)
    simp only
    rcases hl : c.flights.leave e with ⟨_ | work, f', ns⟩ <;> rw [hl] at hworks hsame
    · exact .of_rest rfl (isQuiet_registry ns) (.of_eq rfl rfl rfl rfl rfl) hsame
        (.inl (le_of_le_of_eq (le_held _ _) hworks.symm))
    · exact .of_rest (List.append_assoc _ [_] _) (hquiet work ns) (.of_eq rfl rfl rfl rfl rfl)
        hsame (.inl (le_of_le_of_eq (le_held _ _) hworks.symm))

/-- A poll of work reaches a world, whose trace tells what has become of the work. -/
theorem Reaches.of_poll {execution : Option Nat} {work : Work P A V E}
    {rest : Multiset (Work P A V E)} (hworks : w.works = work ::ₘ rest)
    {progress : Progress (Work P A V E) (Outcome (Result V E))} {env' : Environment P A V E}
    (hpoll : work.pollAs execution w.cache.env = (progress, env')) (notices : List Notice)
    (htrace : w'.cache.env.trace = env'.trace ++ endEvents notices execution progress)
    (hworks' : w'.works = held progress.rest? rest) (henv : Undisturbed env' w'.cache.env)
    (hadvanced : Advanced w.cache.flights w'.cache.flights execution work progress) :
    Reaches w w' := by
  obtain ⟨events, hevents, -⟩ := Work.isLoading_pollAs_all execution work w.cache.env
  rw [hpoll] at hevents
  refine ⟨events ++ endEvents notices execution progress, ?_, ?_⟩
  · rw [htrace, hevents, List.append_assoc]
  · exact .polls hworks hpoll hevents hworks' henv hadvanced

/-- A load of a single caller that is polled tells what it does. -/
theorem reaches_pollsAlone (work : Work P A V E) :
    Reaches ⟨c, .alone work ::ₘ loads⟩
      ⟨(Load.pollAlone work c).2, held (Load.pollAlone work c).1.rest? loads⟩ := by
  have hbefore : World.works ⟨c, .alone work ::ₘ loads⟩ = work ::ₘ World.works ⟨c, loads⟩ :=
    World.works_held c (some (.alone work)) loads
  unfold Load.pollAlone
  rcases hpoll : work.pollAs none c.env with ⟨rest | outcome, env'⟩
  · have hafter : World.works ⟨{ c with env := env' }, .alone rest ::ₘ loads⟩ =
        rest ::ₘ World.works ⟨c, loads⟩ :=
      World.works_held { c with env := env' } (some (.alone rest)) loads
    exact .of_poll hbefore hpoll [] (List.append_nil _).symm hafter
      (.of_eq rfl rfl rfl rfl rfl) rfl
  · exact .of_poll hbefore hpoll [] rfl rfl (.of_eq rfl rfl rfl rfl rfl) rfl

/-- A shared load that is polled tells what it does. -/
theorem reaches_pollsAttached (e : Nat) :
    Reaches ⟨c, .attached e ::ₘ loads⟩
      ⟨(Load.pollAttached e c).2, held (Load.pollAttached e c).1.rest? loads⟩ := by
  have hloads : ∀ c' : Cache P A V E, World.works ⟨c', .attached e ::ₘ loads⟩ =
      World.works ⟨c', loads⟩ := fun c' => World.works_held c' (some (.attached e)) loads
  unfold Load.pollAttached
  rcases Flights.poll_cases (Work.pollAs (some e)) c.flights e c.env with ⟨-, hidle⟩ | hpolls
  · rw [hidle]
    exact .of_rest rfl (List.forall_mem_nil _) (.of_eq rfl rfl rfl rfl rfl) (.refl _) (.inl le_rfl)
  rcases hpoll : c.flights.poll (Work.pollAs (some e)) e c.env with ⟨answer, f', env', ns⟩
  rw [hpoll] at hpolls
  obtain ⟨stage, stage', hstage, hstage', hadvances⟩ := hpolls.advances
  obtain ⟨rest, hworks, hworks'⟩ := hpolls.works hstage hstage'
  have hother : ∀ e', e' ≠ e → f'.stage? e' = c.flights.stage? e' := fun e' => hpolls.stage?_of_ne
  have hbefore : World.works ⟨c, .attached e ::ₘ loads⟩ =
      held stage.work? (rest + loads.filterMap Load.work?) :=
    (hloads c).trans (World.works_flights hworks loads)
  have hafter : World.works ⟨⟨env'.noteRegistry ns, f'⟩, loads⟩ =
      held stage'.work? (rest + loads.filterMap Load.work?) := World.works_flights hworks' loads
  cases hadvances with
  | @receives outcome =>
    have hsame : c.flights.SettledAlike f' :=
      Flights.settledAlike_of_ne (fun outcome' => by rw [hstage, hstage']) hother
    exact ⟨_, List.append_assoc .., .receives hstage (.of_eq rfl rfl rfl rfl rfl) hsame
      (hafter.trans hbefore.symm)⟩
  | @works work progress _ hwork =>
    rw [Stage.work?_ofProgress] at hafter
    cases progress with
    | waiting left =>
      exact .of_poll hbefore hwork ns rfl ((hloads _).trans hafter) (.of_eq rfl rfl rfl rfl rfl)
        ⟨hstage, hstage', hother⟩
    | finished outcome =>
      exact .of_poll hbefore hwork ns (List.append_assoc ..) hafter
        (.of_eq rfl rfl rfl rfl rfl) ⟨hstage, hstage', hother⟩

/-- Every move does one of these things. -/
theorem Move.reaches (h : Move w w') : Reaches w w' := by
  cases h with
  | acts hacts => exact hacts.reaches
  | enters key => exact reaches_enters key
  | pollsAttached e => exact reaches_pollsAttached e
  | pollsAlone work => exact reaches_pollsAlone work
  | drops load => exact reaches_drops load
  | @begins c loads key share =>
    have hworks : World.works ⟨c, .unstarted key share ::ₘ loads⟩ = World.works ⟨c, loads⟩ :=
      World.works_held c (some (.unstarted key share)) loads
    exact .of_still rfl (.of_eq rfl rfl rfl rfl rfl) (.refl _) (.inl (le_of_eq hworks))
  | @detours c loads key =>
    have hbefore : World.works ⟨c, .unstarted key false ::ₘ loads⟩ = World.works ⟨c, loads⟩ :=
      World.works_held c (some (.unstarted key false)) loads
    have hafter : World.works ⟨c, .alone (.fresh key) ::ₘ loads⟩ =
        .fresh key ::ₘ World.works ⟨c, loads⟩ :=
      World.works_held c (some (.alone (.fresh key))) loads
    exact .of_still rfl (.of_eq rfl rfl rfl rfl rfl) (.refl _)
      (.inr ⟨key, by rw [hafter, hbefore]⟩)
  | closes =>
    exact .of_still rfl
      ⟨rfl, rfl, rfl, fun h => ⟨h.sent, h.latest⟩, fun h => ⟨h.sent, h.latest⟩, id⟩
      (fun _ _ => Iff.rfl) (.inl le_rfl)

end ReadThrough
