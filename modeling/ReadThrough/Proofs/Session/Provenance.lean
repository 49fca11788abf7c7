import ReadThrough.Proofs.Call.Collecting
import ReadThrough.Proofs.Session.Addresses
/-!
# Proofs: where results come from

A request yields three kinds of results (`Sourced`): failures; results of executions for its key;
and stored entries of its key that its lookup finds fresh, each the latest one there is, be it from
the beginning or the result of an execution for the key (`Origin`).
-/

namespace ReadThrough

variable {P A V E : Type}

/-- A stored entry was there at first, or it is the result of an execution for its key. It was
written last, and neither overwritten nor evicted nor cleared since. -/
inductive Origin (seed : Key P A → Option (Entry V)) (key : Key P A) (entry : Entry V)
    (T : List (Event P A V E)) : Prop where
  | seeded (hseed : seed key = some entry) (hspares : ∀ event ∈ T, event.spares key)
  | written {before after : List (Event P A V E)} {s : Settlement P A V E} {value : V}
      {now : Stamp} (hT : T = before ++ .storeWritten key entry :: after)
      (hspares : ∀ event ∈ after, event.spares key) (hs : s ∈ (books T).settled)
      (hkey : s.key = key) (houtcome : s.outcome = .value (.ok (Delivery.loaded value now)))
      (hentry : entry = Entry.stamped value now)

/-- Where a result comes from that is yielded after some events to a request for a key, which allows
stored values below an age. -/
inductive Sourced (seed : Key P A → Option (Entry V)) (key : Key P A) (maxAge : Option Duration)
    (T : List (Event P A V E)) : Result V E → Prop where
  | failed (failure : Failure E) : Sourced seed key maxAge T (.error failure)
  | loaded {s : Settlement P A V E} {value : V} {now : Stamp} (hs : s ∈ (books T).settled)
      (hkey : s.key = key) (houtcome : s.outcome = .value (.ok (Delivery.loaded value now))) :
      Sourced seed key maxAge T (.ok (Delivery.loaded value now))
  /-- The lookup of the request has just found the entry, and found it fresh. -/
  | stored {before rest : List (Event P A V E)} {entry : Entry V} {now : Stamp}
      (hT : T = before ++ [.storeRead key (some entry), .clockRead now, .hit key entry] ++ rest)
      (hrest : rest = [] ∨ rest = [.rescued key]) (horigin : Origin seed key entry before)
      (hfresh : entry.isFresh maxAge now = true)
      (hstamped : maxAge.isSome = true → entry.stamp.isSome = true) :
      Sourced seed key maxAge T (.ok (Delivery.cached entry))

/-- Only a stamped entry is fresh to somebody who limits its age. -/
theorem Entry.isSome_stamp_of_isFresh {entry : Entry V} {maxAge : Option Duration} {now : Stamp}
    (h : entry.isFresh maxAge now = true) (hlimit : maxAge.isSome = true) :
    entry.stamp.isSome = true := by
  unfold isFresh at h
  cases maxAge with
  | none => cases hlimit
  | some limit =>
    cases hstamp : entry.stamp with
    | some stamp => rfl
    | none =>
      rw [hstamp] at h
      cases h

variable [DecidableEq P] [DecidableEq A]

/-! ## Lookups -/

section Lookup

variable {seed : Store (Key P A) V} {source : Source P V E} {T : List (Event P A V E)}
  {w : World P A V E} {c c' : Cache P A V E} {loads : Multiset (Load P A V E)} {key : Key P A}
  {maxAge : Option Duration}

/-- The entry that is stored for a key is the latest one. -/
theorem Traced.origin (h : Traced seed source T w) {entry : Entry V}
    (hfind : w.cache.env.store.find key = some entry) : Origin seed.find key entry T := by
  have hlatest : Latest seed.find key entry T :=
    latest_of_stocks (congrFun h.stocked key ▸ hfind)
  have hdelivered := h.recounts.delivered
  cases hlatest with
  | seeded hseed hspares => exact .seeded hseed hspares
  | @written before after hspares =>
    -- Whatever was written is the result of an execution.
    have hmem : (key, entry) ∈ writes (before ++ .storeWritten key entry :: after) := by
      rw [writes_append]
      exact List.mem_append_right _ (List.mem_cons_self ..)
    rw [hdelivered.matched.writes] at hmem
    obtain ⟨p, hp, heq⟩ := List.mem_map.mp hmem
    obtain ⟨hkey, hentry⟩ := Prod.mk.inj heq
    obtain ⟨value, now, hloaded⟩ := hdelivered.loaded p hp
    obtain ⟨s, hs, hdelivery⟩ := List.mem_filterMap.mp hp
    obtain ⟨d, hd, rfl⟩ := Option.map_eq_some_iff.mp hdelivery
    obtain rfl : d = Delivery.loaded value now := hloaded
    exact .written rfl hspares hs hkey (Outcome.delivery?_eq_some_iff.mp hd) hentry.symm

/-- What a lookup does, and where the entry comes from that it finds. -/
theorem Traced.looks (h : Traced seed source T ⟨c, loads⟩) {found : Option (Delivery V)}
    (hlook : c.lookup key maxAge = some (found, c')) :
    ∃ events, c'.env.trace = c.env.trace ++ events ∧
      Traced seed source (T ++ events) ⟨c', loads⟩ ∧
      ∀ delivery, found = some delivery → ∀ rest, rest = [] ∨ rest = [.rescued key] →
        Sourced (E := E) seed.find key maxAge (T ++ events ++ rest) (.ok delivery) := by
  obtain ⟨events, htrace, hlooks⟩ := Cache.looks_lookup hlook
  have hafter := (h.goes (.act (.looks hlook)) htrace).1
  refine ⟨events, htrace, hafter, fun delivery hfound rest hrest => ?_⟩
  obtain rfl := hfound
  cases hlooks with
  | @hit entry now hfresh =>
    have hfind : c.env.store.find key = some entry := by
      unfold Cache.lookup at hlook
      split at hlook
      · exact Environment.find_of_lookup (congrArg Prod.fst (Option.some.inj hlook))
      · cases hlook
    exact .stored rfl hrest (h.origin hfind) hfresh (Entry.isSome_stamp_of_isFresh hfresh)

/-- The result of an execution for the key has a source. -/
theorem Traced.sourced (h : Traced seed source T w) {result : Result V E}
    (hexecuted : Executed T key result) : Sourced seed.find key maxAge T result := by
  obtain ⟨s, hs, hkey, rfl⟩ := hexecuted
  cases houtcome : s.outcome with
  | panicked message => exact .failed _
  | value result =>
    cases result with
    | error failure => exact .failed failure
    | ok d =>
      obtain ⟨value, now, hloaded⟩ := h.recounts.delivered.loaded _ (mem_deliveries hs houtcome)
      obtain rfl : d = Delivery.loaded value now := hloaded
      exact .loaded hs hkey houtcome

end Lookup

/-! ## Requests -/

namespace Call

/-- The load of a request is for its key. -/
def Addressed (f : Flights (Key P A) (Work P A V E) (Result V E)) (call : Call P A V E) : Prop :=
  ∀ load, call.load? = some load → load.Addressed f call.key

/-- What a poll of a request comes to after some events: it goes on under the same terms, and what
it yields has a source. While it waits there are results ahead, and with each that it yields there
are fewer. -/
structure Provides (seed : Key P A → Option (Entry V)) (T : List (Event P A V E))
    (call : Call P A V E) (c : Cache P A V E) (polled : Polled P A V E) : Prop where
  told : ∃ events, polled.2.2.env.trace = c.env.trace ++ events ∧
    ∀ result, polled.1 = .item result →
      Sourced seed call.key call.terms.maxAge (T ++ events) result
  key : polled.2.1.key = call.key
  terms : polled.2.1.terms = call.terms
  addressed : polled.2.1.Addressed polled.2.2.flights
  waits : polled.1 = .pending → 0 < polled.2.1.stage.ahead
  yields : ∀ result, polled.1 = .item result → polled.2.1.stage.ahead < call.stage.ahead
  ends : polled.1 = .done → call.stage = .spent

section Provides

variable {seed : Key P A → Option (Entry V)} {T events : List (Event P A V E)}
  {call : Call P A V E} {c c' : Cache P A V E} {polled : Polled P A V E}

omit [DecidableEq P] [DecidableEq A] in
/-- What a poll provides from a later cache it provides from an earlier one, with the events in
between. -/
theorem Provides.after (h : Provides seed (T ++ events) call c' polled)
    (htrace : c'.env.trace = c.env.trace ++ events) : Provides seed T call c polled := by
  obtain ⟨⟨more, hmore, hsourced⟩, hkey, hterms, haddressed, hwaits, hyields, hends⟩ := h
  refine ⟨⟨events ++ more, ?_, ?_⟩, hkey, hterms, haddressed, hwaits, hyields, hends⟩
  · rw [hmore, htrace, List.append_assoc]
  · rw [← List.append_assoc]
    exact hsourced

omit [DecidableEq P] [DecidableEq A] in
/-- A request that yields its last result provides it, if it has a source. -/
theorem provides_yieldLast {result : Result V E} (hahead : 0 < call.stage.ahead)
    (htrace : c'.env.trace = c.env.trace ++ events)
    (hsourced : Sourced seed call.key call.terms.maxAge (T ++ events) result) :
    Provides seed T call c (call.yieldLast result c') := by
  refine ⟨⟨events, htrace, fun result' heq => ?_⟩, rfl, rfl, nofun, nofun, fun _ _ => hahead, nofun⟩
  cases heq
  exact hsourced

omit [DecidableEq P] [DecidableEq A] in
/-- A request that waits provides nothing yet, and stays on its key. -/
theorem provides_pending {stage : CallStage P A V E} (hahead : 0 < stage.ahead)
    (htrace : c'.env.trace = c.env.trace ++ events)
    (haddressed : ∀ load, stage = .loading load → load.Addressed c'.flights call.key) :
    Provides seed T call c (.pending, { call with stage }, c') := by
  refine ⟨⟨events, htrace, nofun⟩, rfl, rfl, fun load hload => ?_, fun _ => hahead, nofun, nofun⟩
  cases stage with
  | loading load' =>
    obtain rfl : load' = load := Option.some.inj hload
    exact haddressed load' rfl
  | looking | rescuing | spent => cases hload

end Provides

variable {seed : Store (Key P A) V} {source : Source P V E} {T events : List (Event P A V E)}
  {call : Call P A V E} {c : Cache P A V E} {loads : Multiset (Load P A V E)}

/-- The rescue of a failed load provides a stored entry or the failure. -/
theorem provides_rescue (h : Traced seed source T ⟨c, loads⟩) (hahead : 0 < call.stage.ahead)
    (failure : Failure E) : Provides seed.find T call c (call.rescue failure c) := by
  unfold rescue
  rcases hlook : c.lookup call.key call.terms.maxAge with _ | ⟨_ | delivery, c'⟩
  · exact provides_pending Nat.one_pos (List.append_nil _).symm nofun
  · obtain ⟨events, htrace, -⟩ := h.looks hlook
    exact provides_yieldLast hahead htrace (.failed failure)
  · obtain ⟨events, htrace, -, hsourced⟩ := h.looks hlook
    have hrescued : (c'.note (.rescued call.key)).env.trace =
        c.env.trace ++ (events ++ [.rescued call.key]) := by
      rw [← List.append_assoc, ← htrace]
      rfl
    refine provides_yieldLast hahead hrescued ?_
    rw [← List.append_assoc]
    exact hsourced delivery rfl _ (.inr rfl)

/-- A request provides what its load comes to, or what the rescue does. -/
theorem provides_settle (h : Traced seed source T ⟨c, loads⟩) (hahead : 0 < call.stage.ahead)
    {result : Result V E} (hsourced : Sourced seed.find call.key call.terms.maxAge T result) :
    Provides seed.find T call c (call.settle result c) := by
  unfold settle
  split
  · exact provides_rescue h hahead _
  · refine provides_yieldLast hahead (List.append_nil _).symm ?_
    rw [List.append_nil]
    exact hsourced

/-- A poll of the load provides the result of an execution for the key. -/
theorem provides_pollLoad {load : Load P A V E} (h : Traced seed source T ⟨c, load ::ₘ loads⟩)
    (haddressed : load.Addressed c.flights call.key) (hahead : 0 < call.stage.ahead) :
    Provides seed.find T call c (call.pollLoad load c) := by
  have hmoves := load.moves_poll c loads
  obtain ⟨events, htrace⟩ := hmoves.trace
  have hfulfils := Load.fulfils_poll h haddressed htrace
  have hafter := (h.goes hmoves htrace).1
  unfold pollLoad
  rcases hpoll : load.poll c with ⟨left | result, c'⟩ <;> rw [hpoll] at htrace hfulfils hafter
  · refine provides_pending Nat.one_pos htrace fun load' hload => ?_
    obtain rfl : left = load' := CallStage.loading.inj hload
    exact hfulfils.waiting left rfl
  · have hexecuted := hfulfils.finished result rfl
    exact (provides_settle hafter hahead (hafter.sourced hexecuted)).after htrace

/-- A request that begins its load provides the result of an execution for the key. -/
theorem provides_beginLoad (h : Traced seed source T ⟨c, loads⟩) (hahead : 0 < call.stage.ahead) :
    Provides seed.find T call c (call.beginLoad c) := by
  have hbegun := (h.goes (.single (.begins call.key call.terms.share))
    (List.append_nil _).symm).1
  rw [List.append_nil] at hbegun
  exact provides_pollLoad hbegun rfl hahead

/-- A request provides the stored value that it finds fresh. -/
theorem provides_useStored (h : Traced seed source T ⟨c, loads⟩) (hstage : call.stage = .looking)
    {delivery : Delivery V}
    (hsourced : Sourced (E := E) seed.find call.key call.terms.maxAge T (.ok delivery)) :
    Provides seed.find T call c (call.useStored delivery c) := by
  have hahead : 0 < call.stage.ahead := by
    rw [hstage]
    exact Nat.two_pos
  have hsourced' : Sourced (E := E) seed.find call.key call.terms.maxAge (T ++ []) (.ok delivery) :=
    (List.append_nil T).symm ▸ hsourced
  unfold useStored
  split
  · -- The stored value comes first, and the request goes on with a load of its key.
    refine ⟨⟨[], (List.append_nil _).symm, fun result heq => ?_⟩, rfl, rfl, fun load hload => ?_,
      nofun, fun _ _ => ?_, nofun⟩
    · cases heq
      exact hsourced'
    · cases hload
      rfl
    · rw [hstage]
      exact Nat.one_lt_two
  · exact provides_yieldLast hahead (List.append_nil _).symm hsourced'
  · simp only
    split
    · exact provides_yieldLast hahead (List.append_nil _).symm hsourced'
    · have hrejected : Moves ⟨c, loads⟩
          ⟨Cache.note { c with env.asked := c.env.asked + 1 } (.rejected call.key), loads⟩ :=
        (Moves.act .judges).trans (Moves.note rfl)
      have hafter := (h.goes hrejected rfl).1
      exact (provides_beginLoad hafter hahead).after rfl
    · exact ⟨⟨[], (List.append_nil _).symm, nofun⟩, rfl, rfl, nofun, nofun, nofun, nofun⟩

/-- A request without a stored value provides what its load comes to, or that there is none. -/
theorem provides_goWithout (h : Traced seed source T ⟨c, loads⟩) (hahead : 0 < call.stage.ahead) :
    Provides seed.find T call c (call.goWithout c) := by
  unfold goWithout
  split
  · have htrace : (c.note (.unanswered call.key)).env.trace =
        c.env.trace ++ [.unanswered call.key] := rfl
    exact provides_yieldLast hahead htrace (.failed .notCached)
  · exact provides_beginLoad h hahead

/-- A request provides what its lookup finds. -/
theorem provides_look (h : Traced seed source T ⟨c, loads⟩) (hstage : call.stage = .looking) :
    Provides seed.find T call c (call.look c) := by
  have hahead : 0 < call.stage.ahead := by
    rw [hstage]
    exact Nat.two_pos
  unfold look
  rcases hlook : c.lookup call.key call.terms.maxAge with _ | ⟨_ | delivery, c'⟩
  · exact provides_pending hahead (List.append_nil _).symm fun load hload => by
      rw [hstage] at hload
      cases hload
  · obtain ⟨events, htrace, hafter, -⟩ := h.looks hlook
    exact (provides_goWithout hafter hahead).after htrace
  · obtain ⟨events, htrace, hafter, hsourced⟩ := h.looks hlook
    have hstored := hsourced delivery rfl [] (.inl rfl)
    rw [List.append_nil] at hstored
    exact (provides_useStored hafter hstage hstored).after htrace

/-- Whatever a request yields has a source. -/
theorem provides_poll (h : Traced seed source T ⟨c, held call.load? loads⟩)
    (haddressed : call.Addressed c.flights) : Provides seed.find T call c (call.poll c) := by
  unfold poll
  cases hstage : call.stage with
  | looking =>
    rw [load?, hstage] at h
    exact provides_look h hstage
  | loading load =>
    have hload : call.load? = some load := by rw [load?, hstage]
    rw [hload] at h
    exact provides_pollLoad h (haddressed load hload) (by rw [hstage]; exact Nat.one_pos)
  | rescuing failure =>
    rw [load?, hstage] at h
    exact provides_rescue h (by rw [hstage]; exact Nat.one_pos) failure
  | spent =>
    refine ⟨⟨[], (List.append_nil _).symm, fun result heq => ?_⟩, rfl, rfl, haddressed,
      fun heq => ?_, fun result heq => ?_, fun _ => hstage⟩ <;> cases heq

end Call

/-! ## Last results -/

namespace Fetch

/-- What a poll of a request for its last result comes to after some events. -/
structure Provides (seed : Key P A → Option (Entry V)) (T : List (Event P A V E))
    (f : Fetch P A V E) (c : Cache P A V E) (polled : Polled P A V E) : Prop where
  told : ∃ events, polled.2.2.env.trace = c.env.trace ++ events ∧
    ∀ result, polled.1 = .item result →
      Sourced seed f.call.key f.call.terms.maxAge (T ++ events) result
  key : polled.2.1.call.key = f.call.key
  terms : polled.2.1.call.terms = f.call.terms
  addressed : polled.2.1.call.Addressed polled.2.2.flights
  waits : polled.2.1.spent = false → 0 < polled.2.1.call.stage.ahead

variable {seed : Store (Key P A) V} {source : Source P V E} {T : List (Event P A V E)}
  {f : Fetch P A V E} {c : Cache P A V E} {loads : Multiset (Load P A V E)}

/-- The polls suffice for all results that are ahead, and the last one is yielded before anything
else happens. -/
theorem provides_collect {polls : Nat} (h : Traced seed source T ⟨c, held f.call.load? loads⟩)
    (haddressed : f.call.Addressed c.flights) (hahead : f.call.stage.ahead < polls)
    (hlatest : f.call.stage.ahead = 0 → ∃ result, f.latest = some result ∧
      Sourced seed.find f.call.key f.call.terms.maxAge T result) :
    Provides seed.find T f c (collect polls f c) := by
  -- By induction on the polls that are left: each result that is yielded leaves fewer ahead.
  induction polls generalizing f c T with
  | zero => exact absurd hahead (Nat.not_lt_zero _)
  | succ polls ih =>
    have hprovides := Call.provides_poll h haddressed
    have hmoves := f.call.moves_poll c loads
    simp only [collect]
    rcases hpoll : f.call.poll c with ⟨answer, call, c'⟩
    rw [hpoll] at hprovides hmoves
    obtain ⟨⟨events, htrace, htold⟩, hkey, hterms, haddressed', hwaits, hyields, hends⟩ := hprovides
    cases answer with
    | pending =>
      refine ⟨⟨events, htrace, fun result heq => ?_⟩, hkey, hterms, haddressed',
        fun _ => hwaits rfl⟩
      cases heq
    | panicked message =>
      refine ⟨⟨events, htrace, fun result heq => ?_⟩, hkey, hterms, haddressed', fun heq => ?_⟩
      · cases heq
      · cases heq
    | done =>
      -- The request has ended before, so that nothing has happened since the last result.
      have hspent := hends rfl
      have hnothing : f.call.poll c = (.done, f.call, c) := by rw [Call.poll, hspent]
      obtain ⟨-, rfl, rfl⟩ : _ ∧ call = f.call ∧ c' = c := by
        simpa only [hpoll, Prod.mk.injEq] using hnothing
      obtain ⟨last, hlast, hsourced⟩ := hlatest (by rw [hspent]; rfl)
      refine ⟨⟨[], (List.append_nil _).symm, fun result hresult => ?_⟩, rfl, rfl, haddressed,
        fun heq => ?_⟩
      · rw [hlast] at hresult
        cases hresult
        rwa [List.append_nil]
      · cases heq
    | item result =>
      have hafter := (h.goes hmoves htrace).1
      have hfewer : call.stage.ahead < polls := Nat.lt_of_lt_of_le (hyields result rfl) (by omega)
      have hsourced : Sourced seed.find call.key call.terms.maxAge (T ++ events) result := by
        rw [hkey, hterms]
        exact htold result rfl
      have hrest : Provides seed.find (T ++ events) { f with call, latest := some result } c' _ :=
        ih hafter haddressed' hfewer fun _ => ⟨result, rfl, hsourced⟩
      obtain ⟨⟨more, hmore, hlast⟩, hkey', hterms', haddressed'', hwaits'⟩ := hrest
      refine ⟨⟨events ++ more, ?_, fun last heq => ?_⟩, hkey'.trans hkey, hterms'.trans hterms,
        haddressed'', hwaits'⟩
      · rw [hmore, htrace, List.append_assoc]
      · rw [← hkey, ← hterms, ← List.append_assoc]
        exact hlast last heq

/-- A poll of a fetch provides its last result. -/
theorem provides_poll (h : Traced seed source T ⟨c, held f.call.load? loads⟩)
    (haddressed : f.call.Addressed c.flights)
    (hwaits : f.spent = false → 0 < f.call.stage.ahead) :
    Provides seed.find T f c (f.poll c) := by
  unfold poll
  cases hspent : f.spent with
  | true => exact ⟨⟨[], (List.append_nil _).symm, nofun⟩, rfl, rfl, haddressed, hwaits⟩
  | false =>
    have hfew : f.call.stage.ahead < 3 := by
      unfold CallStage.ahead
      split <;> omega
    exact provides_collect h haddressed hfew fun hnone =>
      absurd (hwaits hspent) (hnone ▸ Nat.lt_irrefl 0)

end Fetch

/-! ## Tasks -/

/-- What a request asks for, as far as its results depend on it. -/
structure Asked (P A : Type) where
  /-- What is requested. -/
  key : Key P A
  /-- The limit of the age of stored values. -/
  maxAge : Option Duration
  /-- Whether results are wanted whole. -/
  whole : Bool

/-- What a request asks for, if it is one for results of a key. -/
def Request.asked? : Request P A V → Option (Asked P A)
  | .stream whole key _ terms => some ⟨key, terms.maxAge, whole⟩
  | .fetch params _ terms => some ⟨Key.ofParams params, terms.maxAge, false⟩
  | .watch _ _ | .updates | .errors => none

/-- Where an item comes from that is yielded after some events to a request for results of a key. -/
def Served (seed : Key P A → Option (Entry V)) (T : List (Event P A V E)) (request : Request P A V)
    (item : Item P V E) : Prop :=
  ∀ asked, request.asked? = some asked →
    ∃ result, item = Item.ofResult asked.whole result ∧
      Sourced seed asked.key asked.maxAge T result

namespace Task

/-- A task does what a request asks for. -/
def Heeds (request : Request P A V) (f : Flights (Key P A) (Work P A V E) (Result V E)) :
    Task P A V E → Prop
  | .call whole inner =>
    request.asked? = some ⟨inner.key, inner.terms.maxAge, whole⟩ ∧ inner.Addressed f
  | .fetch inner =>
    request.asked? = some ⟨inner.call.key, inner.call.terms.maxAge, false⟩ ∧
      inner.call.Addressed f ∧ (inner.spent = false → 0 < inner.call.stage.ahead)
  | .watch _ | .updates _ | .errors _ => request.asked? = none
  | .ended => True

variable {request : Request P A V} {f f' : Flights (Key P A) (Work P A V E) (Result V E)}
  {task : Task P A V E}

omit [DecidableEq P] [DecidableEq A] in
/-- A task does what its request asks for as long as the executions are kept. -/
theorem Heeds.kept (h : task.Heeds request f) (hkeeps : f.Keeps f') : task.Heeds request f' := by
  have haddressed : ∀ {call : Call P A V E}, call.Addressed f → call.Addressed f' :=
    fun haddressed load hload => (haddressed load hload).kept hkeeps
  cases task with
  | call whole call => exact ⟨h.1, haddressed h.2⟩
  | fetch fetch => exact ⟨h.1, haddressed h.2.1, h.2.2⟩
  | watch w => exact h
  | updates position => exact h
  | errors position => exact h
  | ended => trivial

omit [DecidableEq P] [DecidableEq A] in
/-- A task does what its request asks for after any answer. -/
theorem Heeds.after {I : Type} (h : task.Heeds request f) (answer : Answer I) :
    (after answer task).Heeds request f := by
  cases answer with
  | pending => exact h
  | item item => exact h
  | done => trivial
  | panicked message => trivial

omit [DecidableEq P] [DecidableEq A] in
/-- A new task does what its request asks for. -/
theorem heeds_create (c : Cache P A V E) (request : Request P A V) :
    (create c request).1.Heeds request f := by
  have haddressed : ∀ (key : Key P A) (plan : Plan V) (terms : Terms),
      (Call.create key plan terms : Call P A V E).Addressed f := by
    intro key plan terms load hload
    rw [Call.load?_create] at hload
    split at hload
    · cases hload
    · cases hload
      rfl
  cases request with
  | stream whole key plan terms => exact ⟨rfl, haddressed key plan terms⟩
  | fetch params policy terms =>
    refine ⟨rfl, haddressed _ _ _, fun _ => ?_⟩
    show 0 < CallStage.ahead (if _ then _ else _)
    split
    · exact Nat.two_pos
    · exact Nat.one_pos
  | watch params retries => rfl
  | updates => rfl
  | errors => rfl

variable [DecidableEq V] {seed : Store (Key P A) V} {source : Source P V E}
  {T : List (Event P A V E)} {c : Cache P A V E} {loads : Multiset (Load P A V E)}

/-- What a poll of a task comes to after some events: what it yields is what the request asks for,
from where it may come. -/
structure Provides (seed : Key P A → Option (Entry V)) (T : List (Event P A V E))
    (request : Request P A V) (c : Cache P A V E)
    (polled : TaskAnswer (Item P V E) × Task P A V E × Cache P A V E) : Prop where
  told : ∃ events, polled.2.2.env.trace = c.env.trace ++ events ∧
    ∀ item, polled.1 = .answer (.item item) → Served seed (T ++ events) request item
  heeds : polled.2.1.Heeds request polled.2.2.flights

omit [DecidableEq P] [DecidableEq A] [DecidableEq V] in
/-- The items of a task are the results of its request. -/
theorem served_of_sourced {seed : Key P A → Option (Entry V)} {whole : Bool} {key : Key P A}
    {maxAge : Option Duration} {answer : Answer (Result V E)}
    (hasked : request.asked? = some ⟨key, maxAge, whole⟩)
    (hsourced : ∀ result, answer = .item result → Sourced seed key maxAge T result)
    (item : Item P V E)
    (hitem : TaskAnswer.answer (answer.map (Item.ofResult whole)) = .answer (.item item)) :
    Served seed T request item := by
  intro asked hasked'
  obtain rfl : ⟨key, maxAge, whole⟩ = asked := Option.some.inj (hasked.symm.trans hasked')
  cases answer with
  | item result =>
    cases hitem
    exact ⟨result, rfl, hsourced result rfl⟩
  | pending => cases hitem
  | done => cases hitem
  | panicked message => cases hitem

/-- Watches and subscriptions are not for results of a key. -/
theorem provides_of_unasked {seed : Key P A → Option (Entry V)} (hsound : task.Sound)
    (hnone : request.asked? = none)
    (hheeds : (task.poll c).2.1.Heeds request (task.poll c).2.2.flights) :
    Provides seed T request c (task.poll c) := by
  obtain ⟨events, htrace⟩ := (moves_poll hsound c 0).1.trace
  refine ⟨⟨events, htrace, fun item _ asked hasked => ?_⟩, hheeds⟩
  rw [hnone] at hasked
  cases hasked

/-- A poll of a task provides what its request asks for. -/
theorem provides_poll (h : Traced seed source T ⟨c, held task.load? loads⟩) (hsound : task.Sound)
    (hheeds : task.Heeds request c.flights) :
    Provides seed.find T request c (task.poll c) := by
  cases task with
  | call whole call =>
    obtain ⟨hasked, haddressed⟩ := hheeds
    obtain ⟨⟨events, htrace, hsourced⟩, hkey, hterms, haddressed', -⟩ :=
      Call.provides_poll h haddressed
    have hnext : (Task.call whole (call.poll c).2.1).Heeds request (call.poll c).2.2.flights := by
      refine ⟨?_, haddressed'⟩
      rw [hkey, hterms]
      exact hasked
    exact ⟨⟨events, htrace, served_of_sourced hasked hsourced⟩, hnext.after _⟩
  | fetch fetch =>
    obtain ⟨hasked, haddressed, hwaits⟩ := hheeds
    obtain ⟨⟨events, htrace, hsourced⟩, hkey, hterms, haddressed', hwaits'⟩ :=
      Fetch.provides_poll h haddressed hwaits
    have hnext : (Task.fetch (fetch.poll c).2.1).Heeds request (fetch.poll c).2.2.flights := by
      refine ⟨?_, haddressed', hwaits'⟩
      rw [hkey, hterms]
      exact hasked
    exact ⟨⟨events, htrace, served_of_sourced hasked hsourced⟩, hnext.after _⟩
  | watch w =>
    have hnext : (Task.watch (w.poll c).2.1).Heeds request (w.poll c).2.2.flights := hheeds
    exact provides_of_unasked hsound hheeds (hnext.after _)
  | updates position =>
    refine provides_of_unasked hsound hheeds ?_
    unfold poll
    simp only
    split
    · exact hheeds
    · exact hheeds
    · trivial
  | errors position =>
    refine provides_of_unasked hsound hheeds ?_
    unfold poll
    simp only
    split
    · exact hheeds
    · exact hheeds
    · trivial
  | ended => exact ⟨⟨[], (List.append_nil _).symm, nofun⟩, trivial⟩

end Task

end ReadThrough
