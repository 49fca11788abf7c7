import ReadThrough.Proofs.Channel
import ReadThrough.Proofs.Session.Aims
/-!
# Proofs: what polls of loads publish

A load that ends with a delivery has published it by its last poll, unless it has waited for an
execution which another caller has brought to its end. Then the delivery was published when the
execution ended (`Aired`). No other poll of a load publishes anything (`Load.Bears`).
-/

namespace ReadThrough

variable {P A V E : Type}

/-- An execution has ended with a delivery. -/
def Landed (f : Flights (Key P A) (Work P A V E) (Result V E)) (e : Nat) (d : Delivery V) : Prop :=
  f.stage? e = some (.settled (.value (.ok d)))

/-- A delivery is due to a load: it waits for an execution that has ended with it. -/
def Load.Due (f : Flights (Key P A) (Work P A V E) (Result V E)) (d : Delivery V) :
    Load P A V E → Prop
  | .attached e => Landed f e d
  | .unstarted _ _ | .alone _ => False

/-- What is published on the way from one cache to another, while some subscribers come and go, `k`
before and `k'` after. An execution that ends with a delivery has published it. -/
structure Aired (k k' : Nat) (events : List (Event P A V E)) (c c' : Cache P A V E) : Prop where
  trace : c'.env.trace = c.env.trace ++ events
  airs : Channel.Airs k k' (updates events) c.env.updates c'.env.updates
  keeps : c.flights.Keeps c'.flights
  keyed : Keyed c.flights → Keyed c'.flights
  lands : Keyed c.flights → ∀ e d, Landed c'.flights e d →
    Landed c.flights e d ∨
      ∃ x, c'.flights.executions[e]? = some x ∧ (x.key.params, d) ∈ updates events

namespace Aired

variable {k k' k'' : Nat} {events events' : List (Event P A V E)} {c c' c'' : Cache P A V E}

/-- No execution ends. -/
theorem of_settledAlike (htrace : c'.env.trace = c.env.trace ++ events)
    (hairs : Channel.Airs k k' (updates events) c.env.updates c'.env.updates)
    (hkeeps : c.flights.Keeps c'.flights) (hkeyed : Keyed c.flights → Keyed c'.flights)
    (hsettled : c.flights.SettledAlike c'.flights) : Aired k k' events c c' :=
  ⟨htrace, hairs, hkeeps, hkeyed, fun _ e _ hlanded => .inl ((hsettled e _).mp hlanded)⟩

/-- Where the executions stay, no delivery needs to be published. -/
theorem of_flights (htrace : c'.env.trace = c.env.trace ++ events)
    (hairs : Channel.Airs k k' (updates events) c.env.updates c'.env.updates)
    (hflights : c'.flights = c.flights) : Aired k k' events c c' := by
  refine of_settledAlike htrace hairs ?_ ?_ ?_ <;> rw [hflights]
  · exact .refl _
  · exact id
  · exact .refl _

/-- Where nothing happens nothing is published. -/
theorem refl (k : Nat) (c : Cache P A V E) : Aired k k [] c c :=
  of_flights (List.append_nil _).symm (.refl k _) rfl

/-- Something is told, and nothing else happens. -/
theorem of_told (htrace : c'.env.trace = c.env.trace ++ events) (hnone : updates events = [])
    (hupdates : c'.env.updates = c.env.updates) (hflights : c'.flights = c.flights) :
    Aired k k events c c' := by
  refine of_flights htrace ?_ hflights
  rw [hnone, hupdates]
  exact .refl k _

/-- What is published in two parts is published. -/
theorem trans (h : Aired k k' events c c') (h' : Aired k' k'' events' c' c'') :
    Aired k k'' (events ++ events') c c'' := by
  refine ⟨?_, ?_, h.keeps.trans h'.keeps, fun hkeyed => h'.keyed (h.keyed hkeyed), ?_⟩
  · rw [h'.trace, h.trace, List.append_assoc]
  · rw [updates_append]
    exact h.airs.trans h'.airs
  · intro hkeyed e d hlanded
    rw [updates_append]
    rcases h'.lands (h.keyed hkeyed) e d hlanded with hmid | ⟨x, hx, hmem⟩
    · rcases h.lands hkeyed e d hmid with hbefore | ⟨x, hx, hmem⟩
      · exact .inl hbefore
      · obtain ⟨y, hy, hkey, -⟩ := h'.keeps hx
        exact .inr ⟨y, hy, hkey ▸ List.mem_append_left _ hmem⟩
    · exact .inr ⟨x, hx, List.mem_append_right _ hmem⟩

/-- Some subscribers more come and go with the others. -/
theorem add (h : Aired k k' events c c') (m : Nat) : Aired (k + m) (k' + m) events c c' :=
  ⟨h.trace, h.airs.add m, h.keeps, h.keyed, h.lands⟩

end Aired

/-! ## Polls of work -/

section Work

variable {progress : Progress (Work P A V E) (Outcome (Result V E))} {d : Delivery V}

/-- A caller receives a delivery exactly if the work ends with it. -/
theorem Work.resultOf_eq_ok_iff :
    progress.result?.map Load.resultOf = some (.ok d) ↔ Work.delivery? progress = some d := by
  rw [Work.delivery?_eq_some_iff]
  cases progress with
  | waiting left => exact ⟨nofun, nofun⟩
  | finished outcome =>
    cases outcome with
    | panicked message => exact ⟨nofun, nofun⟩
    | value result => simp [Progress.result?, Load.resultOf]

variable [DecidableEq P] [DecidableEq A]

/-- A poll of work publishes the delivery that it ends with. -/
theorem Work.airs_pollAs {execution : Option Nat} {work : Work P A V E}
    {env env' : Environment P A V E} (hpoll : work.pollAs execution env = (progress, env')) :
    ∃ events, env'.trace = env.trace ++ events ∧
      updates events = (Work.delivery? progress).toList.map (work.key.params, ·) ∧
      ∀ k, Channel.Airs k k (updates events) env.updates env'.updates := by
  obtain ⟨events, hyields⟩ := Work.yields_pollAs execution work env
  rw [hpoll] at hyields
  refine ⟨events, hyields.trace, hyields.updates, fun k => ?_⟩
  rw [hyields.updates]
  cases hdelivery : Work.delivery? progress with
  | some d =>
    obtain rfl := Work.delivery?_eq_some_iff.mp hdelivery
    rw [(Work.hands_pollAs hpoll).updates]
    exact Channel.airs_publish k env.updates (work.key.params, d)
  | none =>
    have huntouched := Work.untouched_pollAs hpoll fun d hd => by
      rw [Work.delivery?_eq_some_iff.mpr hd] at hdelivery
      cases hdelivery
    rw [huntouched.updates]
    exact .refl k _

end Work

/-! ## Polls of loads -/

namespace Load

variable [DecidableEq P] [DecidableEq A]

/-- What a poll of a load for a key publishes. A delivery that the load ends with is published by
this very poll, or it was due to the load before. Otherwise nothing is published. -/
structure Publishes (key : Key P A) (load : Load P A V E) (c : Cache P A V E)
    (events : List (Event P A V E)) (result : Option (Result V E)) : Prop where
  silent : (∀ d, result ≠ some (.ok d)) → updates events = []
  loaded : ∀ d, result = some (.ok d) →
    updates events = [(key.params, d)] ∨ updates events = [] ∧ load.Due c.flights d

/-- What comes of a load for a key when it is polled. Nothing is due to what is left of it. -/
structure Bears (key : Key P A) (load : Load P A V E) (c : Cache P A V E)
    (events : List (Event P A V E)) (rest : Option (Load P A V E)) (result : Option (Result V E))
    (c' : Cache P A V E) : Prop where
  publishes : Publishes key load c events result
  rest : ∀ left, rest = some left → left.Addressed c'.flights key ∧ ∀ d, ¬ left.Due c'.flights d

variable {c c' : Cache P A V E} {loads : Multiset (Load P A V E)} {key : Key P A}
  {events events' : List (Event P A V E)} {load load' : Load P A V E}
  {result : Option (Result V E)}

omit [DecidableEq P] [DecidableEq A] in
/-- The work of the load is polled, and what it publishes is told. -/
theorem Publishes.of_work {progress : Progress (Work P A V E) (Outcome (Result V E))}
    (hupdates : updates events = (Work.delivery? progress).toList.map (key.params, ·)) :
    Publishes key load c events (progress.result?.map resultOf) := by
  refine ⟨fun hnone => ?_, fun d hd => .inl ?_⟩
  · have hnothing : Work.delivery? progress = none :=
      Option.eq_none_iff_forall_ne_some.mpr fun d hd => hnone d (Work.resultOf_eq_ok_iff.mpr hd)
    rw [hupdates, hnothing]
    rfl
  · rw [hupdates, Work.resultOf_eq_ok_iff.mp hd]
    rfl

omit [DecidableEq P] [DecidableEq A] in
/-- Other events that publish the same may be told. -/
theorem Publishes.of_eq (h : Publishes key load c events result)
    (hsame : updates events' = updates events) : Publishes key load c events' result := by
  refine ⟨?_, ?_⟩
  · rw [hsame]
    exact h.silent
  · rw [hsame]
    exact h.loaded

omit [DecidableEq P] [DecidableEq A] in
/-- A load to which nothing is due takes the place of another one, before anything is published. -/
theorem Publishes.after (h : Publishes key load' c' events' result) (hnone : updates events = [])
    (hdue : ∀ d, ¬ load'.Due c'.flights d) :
    Publishes key load c (events ++ events') result := by
  have hall : updates (events ++ events') = updates events' := by
    rw [updates_append, hnone, List.nil_append]
  refine ⟨fun hsilent => ?_, fun d hd => .inl ?_⟩
  · rw [hall]
    exact h.silent hsilent
  · rw [hall]
    exact (h.loaded d hd).resolve_right fun hbefore => hdue d hbefore.2

omit [DecidableEq P] [DecidableEq A] in
/-- To receive an outcome publishes nothing. -/
theorem updates_receipts (execution : Option Nat) (outcome : Option (Outcome (Result V E))) :
    updates (outcome.toList.map fun outcome => .received execution (resultOf outcome) :
      List (Event P A V E)) = [] := by
  cases outcome <;> rfl

omit [DecidableEq P] [DecidableEq A] in
/-- The end of a poll publishes nothing. -/
theorem updates_lastEvents (notices : List Notice) (execution : Option Nat)
    (outcome : Option (Outcome (Result V E))) :
    updates (notices.map .registry ++
      outcome.toList.map fun outcome => .received execution (resultOf outcome) :
        List (Event P A V E)) = [] := by
  rw [updates_append, (apart_of_quiet (isQuiet_registry notices)).updates, updates_receipts]
  rfl

/-- A poll of a shared execution is one of the registry, after which nothing more is done but to
tell. -/
theorem polled_pollAttached (e : Nat) (c : Cache P A V E) :
    let polled := c.flights.poll (Work.pollAs (some e)) e c.env
    (pollAttached e c).1.result? = polled.1.map resultOf ∧
      (pollAttached e c).2.env.updates = polled.2.2.1.updates ∧
      (pollAttached e c).2.env.trace = polled.2.2.1.trace ++ (polled.2.2.2.map .registry ++
        polled.1.toList.map fun outcome => .received (some e) (resultOf outcome)) := by
  unfold pollAttached
  rcases c.flights.poll (Work.pollAs (some e)) e c.env with ⟨_ | outcome, f', env', ns⟩
  · refine ⟨rfl, rfl, ?_⟩
    show env'.trace ++ ns.map .registry = _
    rw [Option.toList_none, List.map_nil, List.append_nil]
  · refine ⟨rfl, rfl, ?_⟩
    show env'.trace ++ ns.map .registry ++ [_] = _
    rw [List.append_assoc]
    rfl

/-- What is left of a load that waits for an execution, and has no result. -/
theorem rest_pollAttached {e : Nat} {left : Load P A V E}
    (h : (pollAttached e c).1.rest? = some left) :
    (pollAttached e c).1.result? = none ∧ left = .attached e := by
  rcases hpoll : (pollAttached e c).1 with left' | result <;> rw [hpoll] at h
  · cases h
    exact ⟨rfl, waiting_pollAttached hpoll⟩
  · cases h

section Attached

variable {e : Nat} {f' : Flights (Key P A) (Work P A V E) (Result V E)} {env' : Environment P A V E}
  {answer : Option (Outcome (Result V E))} {ns : List Notice}

/-- A poll of a shared execution, by what comes of the execution. -/
theorem bears_of_poll (k : Nat)
    (hpoll : c.flights.poll (Work.pollAs (some e)) e c.env = (answer, f', env', ns))
    {told : List (Event P A V E)} (htold : env'.trace = c.env.trace ++ told)
    (hairs : Channel.Airs k k (updates told) c.env.updates env'.updates)
    (hlands : Keyed c.flights → ∀ e' d, Landed f' e' d → Landed c.flights e' d ∨
      ∃ x, f'.executions[e']? = some x ∧ (x.key.params, d) ∈ updates told)
    (hbears : ∀ key, Keyed c.flights → (attached e).Addressed c.flights key →
      Publishes key (.attached e) c told (answer.map resultOf) ∧
        (answer = none → ∀ d, ¬ Landed f' e d)) :
    ∃ events, Aired k k events c (pollAttached e c).2 ∧
      ∀ key, Keyed c.flights → (attached e).Addressed c.flights key →
        Bears key (.attached e) c events (pollAttached e c).1.rest? (pollAttached e c).1.result?
          (pollAttached e c).2 := by
  obtain ⟨hresult, hupdates, htrace⟩ := polled_pollAttached e c
  have hflights := flights_pollAttached e c
  have hkeeps := Flights.keeps_poll (Work.pollAs (some e)) c.flights e c.env
  have hkeyed : Keyed c.flights → Keyed _ := fun h => h.poll e c.env
  rw [hpoll] at hresult hupdates htrace hflights hkeeps hkeyed
  have hall : updates (told ++ (ns.map .registry ++
      answer.toList.map fun outcome => .received (some e) (resultOf outcome))) = updates told := by
    rw [updates_append, updates_lastEvents, List.append_nil]
  refine ⟨told ++ (ns.map .registry ++
    answer.toList.map fun outcome => .received (some e) (resultOf outcome)), ?_, ?_⟩
  · refine ⟨?_, ?_, hflights ▸ hkeeps, hflights ▸ hkeyed, ?_⟩
    · rw [htrace, htold, List.append_assoc]
    · rw [hall, hupdates]
      exact hairs
    · rw [hall, hflights]
      exact hlands
  · intro key hsure haddressed
    obtain ⟨hpublishes, hpending⟩ := hbears key hsure haddressed
    rw [hresult]
    refine ⟨hpublishes.of_eq hall, fun left hrest => ?_⟩
    obtain ⟨hwaits, rfl⟩ := rest_pollAttached hrest
    rw [hresult] at hwaits
    rw [hflights]
    exact ⟨haddressed.kept hkeeps, hpending (Option.map_eq_none_iff.mp hwaits)⟩

end Attached

/-- A shared load publishes the delivery that its poll settles the execution with, or receives what
was due. -/
theorem bears_pollAttached (k e : Nat) (c : Cache P A V E) :
    ∃ events, Aired k k events c (pollAttached e c).2 ∧
      ∀ key, Keyed c.flights → (attached e).Addressed c.flights key →
        Bears key (.attached e) c events (pollAttached e c).1.rest? (pollAttached e c).1.result?
          (pollAttached e c).2 := by
  rcases Flights.poll_cases (Work.pollAs (some e)) c.flights e c.env with
    ⟨habandoned, hidle⟩ | hpolls
  · -- The execution is abandoned or unknown.
    refine bears_of_poll k hidle (List.append_nil _).symm (.refl k _) (fun _ _ _ => .inl)
      fun key _ _ => ⟨⟨fun _ => rfl, nofun⟩, fun _ d hlanded => ?_⟩
    obtain ⟨x, hx, hsettled⟩ := Flights.exists_of_stage? hlanded
    rw [habandoned x hx] at hsettled
    cases hsettled
  rcases hpoll : c.flights.poll (Work.pollAs (some e)) e c.env with ⟨answer, f', env', ns⟩
  rw [hpoll] at hpolls
  obtain ⟨stage, stage', hstage, hstage', hadvances⟩ := hpolls.advances
  have hother : ∀ e', e' ≠ e → f'.stage? e' = c.flights.stage? e' := fun e' => hpolls.stage?_of_ne
  cases hadvances with
  | @receives outcome =>
    -- The execution has ended before.
    have hsame : c.flights.SettledAlike f' :=
      Flights.settledAlike_of_ne (fun outcome' => by rw [hstage, hstage']) hother
    refine bears_of_poll k hpoll (List.append_nil _).symm (.refl k _)
      (fun _ e' d hlanded => .inl ((hsame e' _).mp hlanded))
      fun key _ _ => ⟨⟨fun _ => rfl, fun d hd => .inr ⟨rfl, ?_⟩⟩, nofun⟩
    let progress : Progress (Work P A V E) (Outcome (Result V E)) := .finished outcome
    have hdelivery : Work.delivery? progress = some d := Work.resultOf_eq_ok_iff.mp hd
    have hvalue : outcome = .value (.ok d) := Outcome.delivery?_eq_some_iff.mp hdelivery
    rw [hvalue] at hstage
    exact hstage
  | @works work progress _ hwork =>
    -- The work is polled, and is for the key of the execution.
    obtain ⟨told, htold, hupdates, hairs⟩ := Work.airs_pollAs hwork
    obtain ⟨x, hx, hrunning⟩ := Flights.exists_of_stage? hstage
    have hended : ∀ d, Landed f' e d → Work.delivery? progress = some d := by
      intro d hlanded
      have hsettled : some (Stage.ofProgress progress) = some (.settled (.value (.ok d))) :=
        hstage'.symm.trans hlanded
      cases progress with
      | waiting left => cases hsettled
      | finished outcome =>
        cases hsettled
        rfl
    refine bears_of_poll k hpoll htold (hairs k) (fun hkeyed e' d hlanded => ?_)
      fun key hkeyed haddressed => ⟨.of_work ?_, fun hnone d hlanded => ?_⟩
    · by_cases he : e' = e
      · subst he
        have hkeeps := Flights.keeps_poll (Work.pollAs (some e')) c.flights e' c.env hx
        rw [hpoll] at hkeeps
        obtain ⟨y, hy, hkey, -⟩ := hkeeps
        refine .inr ⟨y, hy, ?_⟩
        rw [hupdates, hended d hlanded, hkey, ← hkeyed hx hrunning]
        exact List.mem_singleton_self _
      · exact .inl ((hother e' he).symm.trans hlanded)
    · obtain ⟨y, hy, rfl⟩ := haddressed
      obtain rfl : x = y := Option.some.inj (hx.symm.trans hy)
      rw [hupdates, hkeyed hx hrunning]
    · have hdelivery := Work.resultOf_eq_ok_iff.mpr (hended d hlanded)
      rw [hnone] at hdelivery
      cases hdelivery

/-- A load of a single caller publishes the delivery that it ends with. -/
theorem bears_pollAlone (k : Nat) (work : Work P A V E) (c : Cache P A V E) :
    ∃ events, Aired k k events c (pollAlone work c).2 ∧
      Bears work.key (.alone work) c events (pollAlone work c).1.rest?
        (pollAlone work c).1.result? (pollAlone work c).2 := by
  have hrest : ∀ left, (pollAlone work c).1.rest? = some left →
      left.Addressed (pollAlone work c).2.flights work.key ∧
        ∀ d, ¬ left.Due (pollAlone work c).2.flights d := by
    intro left hleft
    rcases hpoll : (pollAlone work c).1 with left' | result <;> rw [hpoll] at hleft
    · cases hleft
      obtain ⟨rest, rfl, hkey⟩ := waiting_pollAlone hpoll
      exact ⟨hkey, fun _ => id⟩
    · cases hleft
  rcases hpoll : work.pollAs none c.env with ⟨progress, env'⟩
  obtain ⟨told, htold, hupdates, hairs⟩ := Work.airs_pollAs hpoll
  have hall : updates (told ++
      (progress.result?.toList.map fun outcome => .received none (resultOf outcome))) =
      (Work.delivery? progress).toList.map (work.key.params, ·) := by
    rw [updates_append, hupdates, updates_receipts, List.append_nil]
  have hresult : (pollAlone work c).1.result? = progress.result?.map resultOf := by
    unfold pollAlone
    rw [hpoll]
    cases progress <;> rfl
  have hflights := flights_pollAlone work c
  refine ⟨told ++ (progress.result?.toList.map fun outcome => .received none (resultOf outcome)),
    .of_flights ?_ ?_ hflights, ?_, hrest⟩
  · unfold pollAlone
    rw [hpoll]
    cases progress with
    | waiting left => exact htold.trans (congrArg (_ ++ ·) (List.append_nil _).symm)
    | finished outcome =>
      show env'.trace ++ [_] = _
      rw [htold, List.append_assoc]
      rfl
  · have hsame : (pollAlone work c).2.env.updates = env'.updates := by
      unfold pollAlone
      rw [hpoll]
      cases progress <;> rfl
    rw [hall, ← hupdates, hsame]
    exact hairs k
  · rw [hresult]
    exact .of_work hall

/-- A load that begins publishes nothing. -/
theorem aired_enter (k : Nat) (key : Key P A) (c : Cache P A V E) :
    Aired k k [.registry (c.flights.enter key (.fresh key)).2.2] c
      ⟨c.env.noteRegistry [(c.flights.enter key (.fresh key)).2.2],
        (c.flights.enter key (.fresh key)).2.1⟩ :=
  .of_settledAlike rfl (.refl k _) (Flights.keeps_enter _ key _) (fun h => h.enter key)
    (Flights.settledAlike_enter _ key _)

/-- A poll of a load publishes what the executions that end have ended with. -/
theorem aired_poll (k : Nat) (load : Load P A V E) (c : Cache P A V E) :
    ∃ events, Aired k k events c (load.poll c).2 := by
  cases load with
  | attached e =>
    obtain ⟨events, haired, -⟩ := bears_pollAttached k e c
    exact ⟨events, haired⟩
  | alone work =>
    obtain ⟨events, haired, -⟩ := bears_pollAlone k work c
    exact ⟨events, haired⟩
  | unstarted key share =>
    cases share with
    | false =>
      obtain ⟨events, haired, -⟩ := bears_pollAlone k (.fresh key) c
      exact ⟨events, haired⟩
    | true =>
      obtain ⟨events, haired, -⟩ := bears_pollAttached k (c.flights.enter key (.fresh key)).1
        ⟨c.env.noteRegistry [(c.flights.enter key (.fresh key)).2.2],
          (c.flights.enter key (.fresh key)).2.1⟩
      exact ⟨_, (aired_enter k key c).trans haired⟩

/-- A load that is dropped publishes nothing. -/
theorem aired_drop (k : Nat) (load : Load P A V E) (c : Cache P A V E) :
    ∃ events, updates events = [] ∧ Aired k k events c (load.drop c) := by
  obtain ⟨-, hupdates, events, htrace, huntouched⟩ := load.untouched_drop c
  have hnone := updates_of_untouched huntouched
  refine ⟨events, hnone, ?_⟩
  cases load with
  | unstarted key share => exact .of_told htrace hnone hupdates rfl
  | alone work => exact .of_told htrace hnone hupdates rfl
  | attached e =>
    have hflights := flights_drop_attached e c
    refine .of_settledAlike htrace ?_ ?_ ?_ ?_
    · rw [hnone, hupdates]
      exact .refl k _
    · rw [hflights]
      exact Flights.keeps_leave _ e
    · rw [hflights]
      exact fun h => h.leave e
    · rw [hflights]
      exact Flights.settledAlike_leave _ e

/-- A load that comes to an execution finds it running. -/
theorem running_enter (hattended : Attended ⟨c, loads⟩) (key : Key P A) :
    ∃ x work, (c.flights.enter key (.fresh key)).2.1.executions[
        (c.flights.enter key (.fresh key)).1]? = some x ∧
      x.key = key ∧ x.stage = .running work := by
  rcases Flights.enter_cases hattended.tracked hattended.registered key (.fresh key) with
    ⟨e, x, hx, hkey, hrun, henter⟩ | ⟨-, hstart⟩
  · rw [henter]
    cases hstage : x.stage with
    | running work => exact ⟨_, work, Flights.executions_set_self hx, hkey, rfl⟩
    | settled | abandoned =>
      rw [hstage] at hrun
      cases hrun
  · rw [hstart]
    exact ⟨_, .fresh key, Flights.executions_start_self c.flights key _, rfl, rfl⟩

/-- A poll of a load for a key publishes the delivery that it ends with, unless it was due before.
-/
theorem bears_poll (k : Nat) (hattended : Attended ⟨c, load ::ₘ loads⟩) (hkeyed : Keyed c.flights)
    (haddressed : load.Addressed c.flights key) :
    ∃ events, Aired k k events c (load.poll c).2 ∧
      Bears key load c events (load.poll c).1.rest? (load.poll c).1.result? (load.poll c).2 := by
  cases load with
  | attached e =>
    obtain ⟨events, haired, hbears⟩ := bears_pollAttached k e c
    exact ⟨events, haired, hbears key hkeyed haddressed⟩
  | alone work =>
    obtain rfl : work.key = key := haddressed
    exact bears_pollAlone k work c
  | unstarted key' share =>
    obtain rfl : key' = key := haddressed
    cases share with
    | false =>
      obtain ⟨events, haired, hpublishes, hrest⟩ := bears_pollAlone k (.fresh key') c
      have hsame : Publishes key' (.unstarted key' false) c events _ :=
        ⟨hpublishes.silent, fun d hd => .inl ((hpublishes.loaded d hd).resolve_right And.right)⟩
      exact ⟨events, haired, hsame, hrest⟩
    | true =>
      have henter := aired_enter k key' c
      have hsame : Attended ⟨c, loads⟩ := hattended.of_eq rfl (waitingAmong_cons loads rfl).symm
      obtain ⟨x, work, hx, hkey, hrunning⟩ := running_enter hsame key'
      obtain ⟨events, haired, hbears⟩ := bears_pollAttached k (c.flights.enter key' (.fresh key')).1
        ⟨c.env.noteRegistry [(c.flights.enter key' (.fresh key')).2.2],
          (c.flights.enter key' (.fresh key')).2.1⟩
      obtain ⟨hpublishes, hrest⟩ := hbears key' (henter.keyed hkeyed) ⟨x, hx, hkey⟩
      refine ⟨_, henter.trans haired, hpublishes.after rfl fun d hdue => ?_, hrest⟩
      -- The execution still runs.
      have hstage := (Flights.stage?_of_getElem? hx).symm.trans hdue
      rw [hrunning] at hstage
      cases hstage

/-- A load that is tried again publishes the delivery that it ends with, unless it was due before.
-/
theorem bears_pollRetrying (k retries remaining : Nat) (hattended : Attended ⟨c, load ::ₘ loads⟩)
    (hkeyed : Keyed c.flights) (haddressed : load.Addressed c.flights key) :
    ∃ events, Aired k k events c (load.pollRetrying key retries remaining c).2 ∧
      Bears key load c events ((load.pollRetrying key retries remaining c).1.rest?.map (·.2))
        (load.pollRetrying key retries remaining c).1.result?
        (load.pollRetrying key retries remaining c).2 := by
  induction remaining generalizing load c with
  | zero =>
    obtain ⟨events, haired, hbears⟩ := bears_poll k hattended hkeyed haddressed
    refine ⟨events, ?_⟩
    unfold pollRetrying
    rcases hpoll : load.poll c with ⟨rest | (failure | delivery), c'⟩ <;>
      rw [hpoll] at haired hbears <;> exact ⟨haired, hbears⟩
  | succ remaining ih =>
    obtain ⟨events, haired, hbears⟩ := bears_poll k hattended hkeyed haddressed
    have hmoves := load.moves_poll c loads
    unfold pollRetrying
    rcases hpoll : load.poll c with ⟨rest | (failure | delivery), c'⟩ <;>
      rw [hpoll] at haired hbears hmoves
    · exact ⟨events, haired, hbears⟩
    · -- The next load begins, to which nothing is due.
      have hbegins : Moves ⟨c', loads⟩
          ⟨c'.note (.retried (retries - remaining) retries), .unstarted key true ::ₘ loads⟩ :=
        (Moves.note rfl).tail (.begins key true)
      have hattended' := hattended.moves (hmoves.trans hbegins)
      obtain ⟨events', haired', hpublishes, hrest⟩ := ih hattended' (haired.keyed hkeyed) rfl
      have hnone : updates events = [] := hbears.publishes.silent fun d h => by cases h
      have hnoted : Aired k k [.retried (retries - remaining) retries] c'
          (c'.note (.retried (retries - remaining) retries)) := .of_told rfl rfl rfl rfl
      have hsilent : updates (events ++ [.retried (retries - remaining) retries]) = [] := by
        rw [updates_append, hnone]
        rfl
      exact ⟨_, (haired.trans hnoted).trans haired', hpublishes.after hsilent (fun _ => id), hrest⟩
    · exact ⟨events, haired, hbears⟩

end Load

end ReadThrough
