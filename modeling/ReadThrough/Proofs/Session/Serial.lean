import ReadThrough.Proofs.Session.Aims
/-!
# Proofs: shared loads of a key are done one after the other

Where all loads of a key are shared, there is never more than one piece of work for the key, and the
events tell so: no call of the source for the key is made before the work of the last one has
settled or was dropped (`Serialized`). To see this, the call that is under way for the key is
followed through the events (`follow`), and is found to be that of the one piece of work
(`Underway`).
-/

namespace ReadThrough

variable {P A V E : Type}

/-- The key of a load that does its work alone, or will do so. -/
def Load.solo? : Load P A V E → Option (Key P A)
  | .unstarted key false => some key
  | .alone work => some work.key
  | .unstarted _ true | .attached _ => none

/-- A load that does its work alone has come of one that may be begun unshared. -/
theorem Load.Suits.of_solo {starts : Key P A → Bool → Prop}
    {f : Flights (Key P A) (Work P A V E) (Result V E)} {load : Load P A V E} {key : Key P A}
    (h : load.Suits starts f) (hsolo : load.solo? = some key) : starts key false := by
  cases load with
  | attached e => cases hsolo
  | alone work =>
    cases hsolo
    exact h
  | unstarted key' share =>
    cases share with
    | true => cases hsolo
    | false =>
      cases hsolo
      exact h

variable [DecidableEq P] [DecidableEq A]

/-! ## Events -/

/-- Whether an event is of a call for a key, or of the end of its work. -/
def Event.concerns (key : Key P A) : Event P A V E → Bool
  | .called _ key' | .settled _ _ key' _ | .abandoned key' => key' = key
  | _ => false

/-- Whether an event ends the work for a key that has made the call with a number: the work settles,
or it is dropped. -/
def Event.ends (number : Nat) (key : Key P A) : Event P A V E → Bool
  | .settled _ number' key' _ => number' = number && key' = key
  | .abandoned key' => key' = key
  | _ => false

/-- The call that is under way for a key after an event, if there is one, given the one before. A
call does not begin before the last one has ended, and no other than this one settles. -/
def follow (key : Key P A) (underway : Option Nat) : Event P A V E → Option (Option Nat)
  | .called number key' =>
    if key' = key then if underway = none then some (some number) else none else some underway
  | .settled _ number key' _ =>
    if key' = key then if underway = some number then some none else none else some underway
  | .abandoned key' => if key' = key then some none else some underway
  | _ => some underway

/-- Between two calls for a key, the work of the first one ends. -/
def Serialized (key : Key P A) (events : List (Event P A V E)) : Prop :=
  ∀ before number between number' after,
    events = before ++ .called number key :: between ++ .called number' key :: after →
    ∃ event ∈ between, event.ends number key = true

section Follow

variable {key : Key P A} {underway : Option Nat} {events events' : List (Event P A V E)}

/-- An event that does not concern the key leaves its call under way. -/
theorem follow_of_not_concerns {event : Event P A V E} (h : event.concerns key = false) :
    follow key underway event = some underway := by
  cases event with
  | called number key' => exact if_neg (of_decide_eq_false h)
  | settled execution number key' outcome => exact if_neg (of_decide_eq_false h)
  | abandoned key' => exact if_neg (of_decide_eq_false h)
  | _ => rfl

/-- Events are followed in order, part by part. -/
theorem follow_append (events events' : List (Event P A V E)) (underway : Option Nat) :
    (events ++ events').foldlM (follow key) underway =
      (events.foldlM (follow key) underway).bind (events'.foldlM (follow key)) :=
  List.foldlM_append

/-- Events that do not concern the key leave its call under way. -/
theorem follow_of_forall (h : ∀ event ∈ events, event.concerns key = false) :
    events.foldlM (follow key) underway = some underway := by
  induction events with
  | nil => rfl
  | cons event events ih =>
    rw [List.foldlM_cons, follow_of_not_concerns (h event (List.mem_cons_self ..))]
    exact ih fun event' he => h event' (List.mem_cons_of_mem _ he)

/-- A call that is under way no more has ended. -/
theorem exists_ends {number : Nat} (h : events.foldlM (follow key) (some number) = some none) :
    ∃ event ∈ events, event.ends number key = true := by
  induction events with
  | nil => cases h
  | cons event events ih =>
    rw [List.foldlM_cons] at h
    cases hconcerns : event.concerns key with
    | false =>
      rw [follow_of_not_concerns hconcerns] at h
      obtain ⟨ending, hmem, hends⟩ := ih h
      exact ⟨ending, List.mem_cons_of_mem _ hmem, hends⟩
    | true =>
      refine ⟨event, List.mem_cons_self .., ?_⟩
      cases event with
      | abandoned key' => exact hconcerns
      | called number' key' =>
        have hkey : key' = key := of_decide_eq_true hconcerns
        simp [follow, hkey] at h
      | settled execution number' key' outcome =>
        have hkey : key' = key := of_decide_eq_true hconcerns
        by_cases hnumber : number' = number
        · simp [Event.ends, hkey, hnumber]
        · simp [follow, hkey, Ne.symm hnumber] at h
      | _ => cases hconcerns

/-- A call begins when no other is under way. -/
theorem of_follow_called {number : Nat} {next : Option Nat}
    (h : follow key underway (.called number key : Event P A V E) = some next) :
    underway = none ∧ next = some number := by
  simp only [follow, if_true] at h
  split at h
  · exact ⟨‹_›, (Option.some.inj h).symm⟩
  · cases h

/-- Events that can be followed from the beginning are serialized. -/
theorem serialized_of_follow (h : events.foldlM (follow key) none = some underway) :
    Serialized key events := by
  rintro before number between number' after rfl
  rw [follow_append, Option.bind_eq_some_iff] at h
  obtain ⟨turn, hbetween, hlast⟩ := h
  rw [follow_append, Option.bind_eq_some_iff] at hbetween
  obtain ⟨turn', -, hfirst⟩ := hbetween
  rw [List.foldlM_cons, Option.bind_eq_bind, Option.bind_eq_some_iff] at hlast hfirst
  obtain ⟨next, hnext, -⟩ := hlast
  obtain ⟨next', hnext', hpart⟩ := hfirst
  obtain ⟨rfl, -⟩ := of_follow_called hnext
  obtain ⟨-, rfl⟩ := of_follow_called hnext'
  exact exists_ends hpart

end Follow

/-! ## Polls of work -/

section Polls

variable {key : Key P A} {execution : Option Nat} {work left : Work P A V E}
  {env env' : Environment P A V E}
  {progress : Progress (Work P A V E) (Outcome (Result V E))} {events : List (Event P A V E)}

/-- The notices of the registry concern no call. -/
theorem not_concerns_registry (notices : List Notice) :
    ∀ event ∈ (notices.map .registry : List (Event P A V E)), event.concerns key = false := by
  intro event he
  obtain ⟨notice, -, rfl⟩ := List.mem_map.mp he
  rfl

/-- The end of an execution concerns no call: its settlement is told before. -/
theorem not_concerns_endEvents (notices : List Notice) (execution : Option Nat)
    (progress : Progress (Work P A V E) (Outcome (Result V E))) :
    ∀ event ∈ (endEvents notices execution progress : List (Event P A V E)),
      event.concerns key = false := by
  cases progress with
  | waiting left => exact not_concerns_registry notices
  | finished outcome =>
    exact List.forall_mem_append.mpr
      ⟨not_concerns_registry notices, List.forall_mem_singleton.mpr rfl⟩

/-- The events of a poll: those that concern the key of the work come first and last. -/
theorem Work.concerns_pollAs (key : Key P A) (hpoll : work.pollAs execution env = (progress, env'))
    (htrace : env'.trace = env.trace ++ events) :
    ∃ told, events = work.calls env ++ (told ++ work.closing execution env) ∧
      ∀ event ∈ told, event.concerns key = false := by
  obtain ⟨told, htells⟩ := Work.tells_poll work env
  have htrace' := Work.pollAs_trace execution htells
  rw [hpoll] at htrace'
  refine ⟨told, List.append_cancel_left (htrace.symm.trans htrace'), fun event he => ?_⟩
  have hwork := htells.isWork event he
  cases event with
  | called | settled | abandoned => cases hwork
  | _ => rfl

/-- What a poll of work for another key tells does not concern a key. -/
theorem Work.not_concerns_pollAs (hkey : work.key ≠ key)
    (hpoll : work.pollAs execution env = (progress, env'))
    (htrace : env'.trace = env.trace ++ events) :
    ∀ event ∈ events, event.concerns key = false := by
  obtain ⟨told, rfl, htold⟩ := concerns_pollAs key hpoll htrace
  refine List.forall_mem_append.mpr ⟨?_, List.forall_mem_append.mpr ⟨htold, ?_⟩⟩
  · cases work with
    | fresh key' => exact List.forall_mem_singleton.mpr (decide_eq_false hkey)
    | calling | storing => exact List.forall_mem_nil _
  · unfold closing
    split
    · exact List.forall_mem_nil _
    · exact List.forall_mem_singleton.mpr (decide_eq_false hkey)

/-- A poll of work is followed from its call to what is left of it. -/
theorem Work.follow_pollAs (hpoll : work.pollAs execution env = (progress, env'))
    (htrace : env'.trace = env.trace ++ events) :
    events.foldlM (follow work.key) work.number? = some (progress.rest?.bind Work.number?) := by
  obtain ⟨told, rfl, htold⟩ := concerns_pollAs work.key hpoll htrace
  have hcalls : (work.calls env).foldlM (follow work.key) work.number? =
      some (some (work.callNumber env)) := by
    cases work with
    | fresh key' => simp [calls, number?, follow, callNumber, Work.key]
    | calling | storing => rfl
  have hprogress : (work.poll env).1 = progress := by
    rw [Work.pollAs_eq] at hpoll
    exact congrArg Prod.fst hpoll
  rw [follow_append, hcalls, Option.bind_some, follow_append, follow_of_forall htold,
    Option.bind_some]
  unfold closing
  cases hleft : (work.poll env).1 with
  | waiting left =>
    rw [← hprogress, hleft]
    exact congrArg some (number?_poll hleft).symm
  | finished outcome =>
    rw [← hprogress, hleft]
    simp [follow, Progress.rest?]

/-- Work stays for its key. -/
theorem Work.key_of_pollAs (hpoll : work.pollAs execution env = (.waiting left, env')) :
    left.key = work.key := by
  refine work.keepsKey_poll env left ?_
  rw [Work.pollAs_eq] at hpoll
  exact congrArg Prod.fst hpoll

end Polls

/-! ## The work under way -/

/-- There is at most one piece of work for a key, and its call is the one that the events say is
under way. -/
def Underway (key : Key P A) (T : List (Event P A V E)) (works : Multiset (Work P A V E)) : Prop :=
  ∃ one : Option (Work P A V E), works.filter (·.key = key) = held one 0 ∧
    T.foldlM (follow key) none = some (one.bind Work.number?)

namespace Underway

variable {key : Key P A} {T events : List (Event P A V E)}
  {works works' rest : Multiset (Work P A V E)} {work : Work P A V E}

/-- Nothing happens that concerns the key. -/
theorem still (h : Underway key T works)
    (hworks : works'.filter (·.key = key) = works.filter (·.key = key))
    (hevents : ∀ event ∈ events, event.concerns key = false) :
    Underway key (T ++ events) works' := by
  obtain ⟨one, hone, hfollow⟩ := h
  refine ⟨one, hworks.trans hone, ?_⟩
  rw [follow_append, hfollow, Option.bind_some]
  exact follow_of_forall hevents

/-- The one piece of work for the key is the only one. -/
theorem eq_of_cons (h : Underway key T (work ::ₘ rest)) (hkey : work.key = key) :
    rest.filter (·.key = key) = 0 ∧ T.foldlM (follow key) none = some work.number? := by
  obtain ⟨one, hone, hfollow⟩ := h
  rw [Multiset.filter_cons_of_pos rest hkey] at hone
  cases one with
  | none => exact absurd hone Multiset.cons_ne_zero
  | some work' =>
    rw [held_some] at hone
    obtain ⟨rfl, hrest⟩ | ⟨-, more, -, hmore⟩ := Multiset.cons_eq_cons.mp hone
    · exact ⟨hrest, hfollow⟩
    · exact absurd hmore.symm Multiset.cons_ne_zero

/-- Work starts for the key when there is none. -/
theorem start (h : Underway key T works) (hnone : works.filter (·.key = key) = 0)
    (hevents : ∀ event ∈ events, event.concerns key = false) :
    Underway key (T ++ events) (.fresh key ::ₘ works) := by
  obtain ⟨one, hone, hfollow⟩ : Underway key (T ++ events) works := h.still rfl hevents
  obtain rfl : one = none := by
    cases one with
    | none => rfl
    | some work =>
      rw [held_some, hnone] at hone
      exact absurd hone.symm Multiset.cons_ne_zero
  have hkey : (Work.fresh key : Work P A V E).key = key := rfl
  refine ⟨some (.fresh key), ?_, hfollow⟩
  rw [Multiset.filter_cons_of_pos works hkey, hnone]
  rfl

/-- Work is dropped. -/
theorem gone (h : Underway key T (work ::ₘ works))
    (hevents : ∀ event ∈ events, event.concerns key = false) :
    Underway key (T ++ .abandoned work.key :: events) works := by
  by_cases hkey : work.key = key
  · obtain ⟨hrest, hfollow⟩ := h.eq_of_cons hkey
    refine ⟨none, hrest, ?_⟩
    rw [follow_append, hfollow, Option.bind_some, List.foldlM_cons]
    have habandoned : follow key work.number? (.abandoned work.key : Event P A V E) = some none :=
      if_pos hkey
    rw [habandoned]
    exact follow_of_forall hevents
  · refine h.still (Multiset.filter_cons_of_neg works hkey).symm ?_
    exact List.forall_mem_cons.mpr ⟨decide_eq_false hkey, hevents⟩

/-- Work is polled, and nothing more is told that concerns the key. -/
theorem polls {execution : Option Nat} {env env' : Environment P A V E}
    {progress : Progress (Work P A V E) (Outcome (Result V E))} {more : List (Event P A V E)}
    (h : Underway key T (work ::ₘ rest))
    (hpoll : work.pollAs execution env = (progress, env'))
    (htrace : env'.trace = env.trace ++ events)
    (hmore : ∀ event ∈ more, event.concerns key = false) :
    Underway key (T ++ (events ++ more)) (held progress.rest? rest) := by
  rw [← List.append_assoc]
  suffices hpolled : Underway key (T ++ events) (held progress.rest? rest) from
    hpolled.still rfl hmore
  by_cases hkey : work.key = key
  · subst hkey
    obtain ⟨hrest, hfollow⟩ := h.eq_of_cons rfl
    refine ⟨progress.rest?, ?_, ?_⟩
    · cases progress with
      | finished outcome => exact hrest
      | waiting left =>
        have hleft : left.key = work.key := Work.key_of_pollAs hpoll
        show Multiset.filter _ (left ::ₘ rest) = left ::ₘ 0
        rw [Multiset.filter_cons_of_pos rest hleft, hrest]
    · rw [follow_append, hfollow, Option.bind_some]
      exact Work.follow_pollAs hpoll htrace
  · refine h.still ?_ (Work.not_concerns_pollAs hkey hpoll htrace)
    rw [Multiset.filter_cons_of_neg rest hkey]
    cases progress with
    | finished outcome => rfl
    | waiting left =>
      have hleft : left.key ≠ key := by
        rw [Work.key_of_pollAs hpoll]
        exact hkey
      exact Multiset.filter_cons_of_neg rest hleft

end Underway

/-! ## Moves -/

section Moves

variable {key : Key P A} {T : List (Event P A V E)} {w w' : World P A V E}
  {c c' : Cache P A V E} {loads : Multiset (Load P A V E)}

/-- What is done besides the loads does not concern a key. -/
theorem Acts.not_concerns (h : Acts c c') (key : Key P A) :
    ∃ events, c'.env.trace = c.env.trace ++ events ∧
      ∀ event ∈ events, event.concerns key = false := by
  cases h with
  | looks hlook =>
    obtain ⟨events, htrace, hlooks⟩ := Cache.looks_lookup hlook
    refine ⟨events, htrace, ?_⟩
    cases hlooks <;> simp [Event.concerns]
  | @notes event hremark =>
    refine ⟨[event], rfl, List.forall_mem_singleton.mpr ?_⟩
    cases event with
    | unanswered | rescued | rejected | retried | lagged => rfl
    | _ => cases hremark
  | clears => exact ⟨[.cleared], rfl, List.forall_mem_singleton.mpr rfl⟩
  | _ => exact ⟨[], (List.append_nil _).symm, List.forall_mem_nil _⟩

/-- There is no work for a key if no execution runs for it and no load does its work alone. -/
theorem works_eq_zero_of_vacant (hvacant : c.flights.Vacant key) (hkeyed : Keyed c.flights)
    (hshared : ∀ load ∈ loads, load.solo? ≠ some key) :
    (World.works ⟨c, loads⟩).filter (·.key = key) = 0 := by
  refine Multiset.filter_eq_nil.mpr fun work hwork hkey => ?_
  rcases Multiset.mem_add.mp hwork with hshare | halone
  · -- The work is that of an execution, whose key it has.
    obtain ⟨x, hx, hrunning⟩ := List.mem_filterMap.mp (Multiset.mem_coe.mp hshare)
    obtain ⟨e, he⟩ := List.mem_iff_getElem?.mp hx
    have hstage : x.stage = .running work := by
      cases hstage : x.stage with
      | running work' =>
        rw [hstage] at hrunning
        rw [Option.some.inj hrunning]
      | settled | abandoned =>
        rw [hstage] at hrunning
        cases hrunning
    refine hvacant he ?_ ((hkeyed he hstage).symm.trans hkey)
    rw [hstage]
    rfl
  · obtain ⟨load, hload, hown⟩ := (Multiset.mem_filterMap _ _).mp halone
    cases load with
    | unstarted | attached => cases hown
    | alone work' =>
      cases hown
      exact hshared _ hload (congrArg some hkey)

namespace Underway

/-- A load that may share comes to an execution. -/
theorem enters {key' : Key P A} (hattended : Attended ⟨c, .unstarted key' true ::ₘ loads⟩)
    (hkeyed : Keyed c.flights) (hshared : ∀ load ∈ loads, load.solo? ≠ some key)
    (h : Underway key T (World.works ⟨c, .unstarted key' true ::ₘ loads⟩)) :
    Leads (fun T w => Underway key T w.works) T ⟨c, .unstarted key' true ::ₘ loads⟩
      ⟨⟨c.env.noteRegistry [(c.flights.enter key' (.fresh key')).2.2],
          (c.flights.enter key' (.fresh key')).2.1⟩,
        .attached (c.flights.enter key' (.fresh key')).1 ::ₘ loads⟩ := by
  have hbefore : World.works ⟨c, .unstarted key' true ::ₘ loads⟩ = World.works ⟨c, loads⟩ :=
    World.works_held c (some (.unstarted key' true)) loads
  rw [hbefore] at h
  refine ⟨[.registry _], rfl, ?_⟩
  have hevents : ∀ event ∈ ([.registry (c.flights.enter key' (.fresh key')).2.2] :
      List (Event P A V E)), event.concerns key = false := List.forall_mem_singleton.mpr rfl
  have hafter : ∀ c' : Cache P A V E, World.works ⟨c', .attached
      (c.flights.enter key' (.fresh key')).1 ::ₘ loads⟩ = World.works ⟨c', loads⟩ := fun c' =>
    World.works_held c' (some (.attached _)) loads
  beta_reduce
  rw [hafter]
  have hsame : (c.flights.enter key' (.fresh key')).2.1.works = c.flights.works →
      Underway key (T ++ [.registry (c.flights.enter key' (.fresh key')).2.2])
        ((c.flights.enter key' (.fresh key')).2.1.works + loads.filterMap Load.work?) := by
    intro hworks
    rw [hworks]
    exact h.still rfl hevents
  rcases c.flights.works_enter key' (.fresh key') with hworks | hworks
  · exact hsame hworks
  rcases Flights.enter_cases hattended.tracked hattended.registered key' (.fresh key') with
    ⟨e, x, hx, -, -, henter⟩ | ⟨hvacant, -⟩
  · -- The load joins an execution, and no work starts.
    refine hsame ?_
    rw [henter]
    exact Flights.works_set_same hx rfl
  · show Underway key _ ((c.flights.enter key' (.fresh key')).2.1.works + _)
    rw [hworks, Multiset.cons_add]
    by_cases hkey : key' = key
    · subst hkey
      exact h.start (works_eq_zero_of_vacant hvacant hkeyed hshared) hevents
    · have hfresh : ¬ (Work.fresh key' : Work P A V E).key = key := hkey
      exact h.still (Multiset.filter_cons_of_neg _ hfresh) hevents

/-- A poll of a shared execution keeps the call under way that of the one piece of work. -/
theorem pollsAttached {e : Nat} (hattended : Attended ⟨c, .attached e ::ₘ loads⟩)
    (h : Underway key T (World.works ⟨c, .attached e ::ₘ loads⟩)) :
    Leads (fun T w => Underway key T w.works) T ⟨c, .attached e ::ₘ loads⟩
      ⟨(Load.pollAttached e c).2, held (Load.pollAttached e c).1.rest? loads⟩ := by
  have hloads : ∀ c' : Cache P A V E, World.works ⟨c', .attached e ::ₘ loads⟩ =
      World.works ⟨c', loads⟩ := fun c' => World.works_held c' (some (.attached e)) loads
  have hpolls := Flights.polls_of_waiting (Work.pollAs (some e)) hattended.tracked
    (waitingAmong_attached_pos loads e) c.env
  unfold Load.pollAttached
  rcases hpoll : c.flights.poll (Work.pollAs (some e)) e c.env with ⟨answer, f', env', ns⟩
  rw [hpoll] at hpolls
  obtain ⟨stage, stage', hstage, hstage', hadvances⟩ := hpolls.advances
  obtain ⟨rest, hworks, hworks'⟩ := hpolls.works hstage hstage'
  rw [hloads, World.works_flights hworks] at h
  have hafter : World.works ⟨⟨env'.noteRegistry ns, f'⟩, loads⟩ =
      held stage'.work? (rest + loads.filterMap Load.work?) := World.works_flights hworks' loads
  cases hadvances with
  -- An outcome that was there before ends nothing, as its work has ended already.
  | @receives outcome =>
    refine ⟨endEvents ns (some e) (.finished outcome), List.append_assoc .., ?_⟩
    show Underway key _ (World.works ⟨⟨c.env.noteRegistry ns, f'⟩, loads⟩)
    rw [hafter]
    exact h.still rfl (not_concerns_endEvents ns (some e) (.finished outcome))
  | @works work progress _ hwork =>
    obtain ⟨events, htrace, -⟩ := Work.isLoading_pollAs_all (some e) work c.env
    rw [hwork] at htrace
    rw [Stage.work?_ofProgress] at hafter
    have hpolled := h.polls hwork htrace (not_concerns_endEvents ns (some e) progress)
    refine ⟨events ++ endEvents ns (some e) progress, ?_, ?_⟩
    · cases progress with
      | waiting left =>
        show env'.trace ++ _ = _
        rw [htrace, List.append_assoc]
        rfl
      | finished outcome =>
        show env'.trace ++ _ ++ _ = _
        rw [htrace, List.append_assoc, List.append_assoc]
        rfl
    · rw [← hafter] at hpolled
      cases progress with
      | waiting left =>
        show Underway key _ (World.works ⟨⟨env'.noteRegistry ns, f'⟩, .attached e ::ₘ loads⟩)
        rw [hloads]
        exact hpolled
      | finished outcome => exact hpolled

/-- A poll of work of a single caller keeps the call under way that of the one piece of work. -/
theorem pollsAlone {work : Work P A V E}
    (h : Underway key T (World.works ⟨c, .alone work ::ₘ loads⟩)) :
    Leads (fun T w => Underway key T w.works) T ⟨c, .alone work ::ₘ loads⟩
      ⟨(Load.pollAlone work c).2, held (Load.pollAlone work c).1.rest? loads⟩ := by
  have hbefore : World.works ⟨c, .alone work ::ₘ loads⟩ = work ::ₘ World.works ⟨c, loads⟩ :=
    World.works_held c (some (.alone work)) loads
  rw [hbefore] at h
  obtain ⟨events, htrace, -⟩ := Work.isLoading_pollAs_all none work c.env
  unfold Load.pollAlone
  rcases hpoll : work.pollAs none c.env with ⟨progress, env'⟩
  rw [hpoll] at htrace
  have hpolled := h.polls hpoll htrace (not_concerns_endEvents [] none progress)
  refine ⟨events ++ endEvents [] none progress, ?_, ?_⟩
  · cases progress with
    | waiting left => exact htrace.trans (congrArg _ (List.append_nil _).symm)
    | finished outcome =>
      show env'.trace ++ _ = _
      rw [htrace, List.append_assoc]
      rfl
  · cases progress with
    | waiting left =>
      have hafter : World.works ⟨{ c with env := env' }, .alone left ::ₘ loads⟩ =
          left ::ₘ World.works ⟨c, loads⟩ :=
        World.works_held { c with env := env' } (some (.alone left)) loads
      show Underway key _ (World.works ⟨{ c with env := env' }, .alone left ::ₘ loads⟩)
      rw [hafter]
      exact hpolled
    | finished outcome => exact hpolled

/-- A load that is dropped ends the work that it drops. -/
theorem drops {load : Load P A V E} (h : Underway key T (World.works ⟨c, load ::ₘ loads⟩)) :
    Leads (fun T w => Underway key T w.works) T ⟨c, load ::ₘ loads⟩ ⟨load.drop c, loads⟩ := by
  have hbefore : World.works ⟨c, load ::ₘ loads⟩ = held load.work? (World.works ⟨c, loads⟩) :=
    World.works_held c (some load) loads
  rw [hbefore] at h
  unfold Load.drop
  cases load with
  | unstarted key' share =>
    exact ⟨[], (List.append_nil _).symm, h.still rfl (List.forall_mem_nil _)⟩
  | alone work => exact ⟨[.abandoned work.key], rfl, h.gone (List.forall_mem_nil _)⟩
  | attached e =>
    have hworks : World.works ⟨c, loads⟩ = _ := World.works_flights (c.flights.works_leave e) loads
    have hevents : ∀ notices : List Notice,
        ∀ event ∈ (notices.map .registry : List (Event P A V E)), event.concerns key = false :=
      not_concerns_registry
    replace h : Underway key T (World.works ⟨c, loads⟩) := h
    rw [hworks] at h
    simp only
    rcases hleave : c.flights.leave e with ⟨_ | work, f', ns⟩ <;> rw [hleave] at h
    · exact ⟨_, rfl, h.still rfl (hevents ns)⟩
    · exact ⟨_, List.append_assoc _ [_] _, h.gone (hevents ns)⟩

/-- A move keeps the call under way that of the one piece of work, unless it is for a load of a
single caller. -/
theorem move (hmove : Move w w') (hattended : Attended w) (hkeyed : Keyed w.cache.flights)
    (hshared : ∀ load ∈ w.loads, load.solo? ≠ some key) (h : Underway key T w.works) :
    Leads (fun T w => Underway key T w.works) T w w' := by
  cases hmove with
  | @acts c c' loads hacts =>
    obtain ⟨events, htrace, hevents⟩ := hacts.not_concerns key
    have hworks : World.works ⟨c', loads⟩ = World.works ⟨c, loads⟩ :=
      congrArg (·.works + _) hacts.flights_eq
    refine ⟨events, htrace, ?_⟩
    beta_reduce
    rw [hworks]
    exact h.still rfl hevents
  | enters key' =>
    exact h.enters hattended hkeyed fun load hload => hshared load (Multiset.mem_cons_of_mem hload)
  | pollsAttached e => exact h.pollsAttached hattended
  | pollsAlone work => exact h.pollsAlone
  | drops load => exact h.drops
  | @begins c loads key' share =>
    have hworks : World.works ⟨c, .unstarted key' share ::ₘ loads⟩ = World.works ⟨c, loads⟩ :=
      World.works_held c (some (.unstarted key' share)) loads
    refine ⟨[], (List.append_nil _).symm, ?_⟩
    beta_reduce
    rw [hworks]
    exact h.still rfl (List.forall_mem_nil _)
  | @detours c loads key' =>
    have hbefore : World.works ⟨c, .unstarted key' false ::ₘ loads⟩ = World.works ⟨c, loads⟩ :=
      World.works_held c (some (.unstarted key' false)) loads
    have hafter : World.works ⟨c, .alone (.fresh key') ::ₘ loads⟩ =
        .fresh key' ::ₘ World.works ⟨c, loads⟩ :=
      World.works_held c (some (.alone (.fresh key'))) loads
    have hkey : ¬ (Work.fresh key' : Work P A V E).key = key := fun hkey =>
      hshared (.unstarted key' false) (Multiset.mem_cons_self ..) (congrArg some hkey)
    refine ⟨[], (List.append_nil _).symm, ?_⟩
    beta_reduce
    rw [hafter]
    rw [hbefore] at h
    exact h.still (Multiset.filter_cons_of_neg _ hkey) (List.forall_mem_nil _)
  | closes =>
    refine ⟨[], (List.append_nil _).symm, ?_⟩
    exact h.still rfl (List.forall_mem_nil _)

end Underway

/-! ## Runs -/

variable {I : List (Event P A V E) → World P A V E → Prop} {starts : Key P A → Bool → Prop}

/-- What is kept by every move, as long as no load of a key does its work alone, is kept by every
load step, if no such load may be begun. -/
theorem kept_shared
    (hmove : ∀ {T w w'}, Move w w' → (∀ load ∈ w.loads, load.solo? ≠ some key) → I T w →
      Leads I T w w')
    (hstarts : ¬ starts key false) {visits : List Visit}
    (hloadStep : LoadStep SessionActs starts w visits w')
    (hsuited : Suited starts w) (h : I T w) : Leads I T w w' := by
  have hshared : ∀ load ∈ w.loads, load.solo? ≠ some key := fun load hload hsolo =>
    hstarts ((hsuited.suits load hload).of_solo hsolo)
  cases hloadStep with
  | rests hrests =>
    cases hrests with
    | acts hacts => exact hmove (.acts hacts) hshared h
    | closes => exact hmove .closes hshared h
  | begins hbegun => exact hmove (.begins _ _) hshared h
  | drops load => exact hmove (.drops load) hshared h
  | @polls c loads load =>
    have hothers : ∀ load ∈ loads, load.solo? ≠ some key := fun load hload =>
      hshared load (Multiset.mem_cons_of_mem hload)
    cases load with
    | attached e => exact hmove (.pollsAttached e) hshared h
    | alone work => exact hmove (.pollsAlone work) hshared h
    | unstarted key' share =>
      cases share with
      | true =>
        refine (hmove (.enters key') hshared h).trans (hmove (.pollsAttached _) ?_)
        exact Multiset.forall_mem_cons.mpr ⟨nofun, hothers⟩
      | false =>
        have hkey : (Load.alone (.fresh key') : Load P A V E).solo? ≠ some key :=
          hshared (.unstarted key' false) (Multiset.mem_cons_self ..)
        refine (hmove (.detours key') hshared h).trans (hmove (.pollsAlone (.fresh key')) ?_)
        exact Multiset.forall_mem_cons.mpr ⟨hkey, hothers⟩

end Moves

end ReadThrough
