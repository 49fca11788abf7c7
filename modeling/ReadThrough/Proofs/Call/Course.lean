import ReadThrough.Proofs.Load.Course
import ReadThrough.Session
/-!
# Proofs: the course of a request

What a request does and yields, from its first poll to its end, for each policy (`Course`). Between
two polls anything may happen to the cache: each poll takes the request further on its course from
wherever it stands (`Stands`), and a request that stands anywhere can still reach the end.
-/

namespace ReadThrough

variable {P A V E : Type}

/-- What can be observed of a request: what it does, what it yields and that it ends. -/
inductive Act (P A V E : Type) where
  | did (event : Event P A V E)
  | yielded (item : Item P V E)
  | ended
  | panicked (message : String)

/-- The acts of some events. -/
def did (events : List (Event P A V E)) : List (Act P A V E) := events.map .did

/-- No events are no acts. -/
theorem did_nil : did ([] : List (Event P A V E)) = [] := rfl

/-- The acts of some events and of others after them are in the same order. -/
theorem did_append (events events' : List (Event P A V E)) :
    did (events ++ events') = did events ++ did events' := List.map_append

/-- The act of an answer. -/
def Act.ofAnswer : Answer (Item P V E) → List (Act P A V E)
  | .pending => []
  | .item item => [.yielded item]
  | .done => [.ended]
  | .panicked message => [.panicked message]

/-- The events of a lookup, with the usable entry that it found. -/
inductive Looks (key : Key P A) (maxAge : Option Duration) :
    List (Event P A V E) → Option (Delivery V) → Prop where
  | miss : Looks key maxAge [.storeRead key none, .miss key] none
  | hit {entry : Entry V} {now : Stamp} (hfresh : entry.isFresh maxAge now = true) :
      Looks key maxAge [.storeRead key (some entry), .clockRead now, .hit key entry]
        (some (Delivery.cached entry))
  | stale {entry : Entry V} {now : Stamp} (hstale : entry.isFresh maxAge now = false) :
      Looks key maxAge [.storeRead key (some entry), .clockRead now, .stale key entry maxAge] none

/-- How a request ends: it yields a last result, whole or its value alone. -/
def lastly (whole : Bool) (result : Result V E) : List (Act P A V E) :=
  [.yielded (Item.ofResult whole result), .ended]

/-- What a request does and yields, by its policy and by what its lookup and its load come to. -/
inductive Course (whole : Bool) (key : Key P A) (terms : Terms) :
    Policy → List (Act P A V E) → Prop where
  | never {ls : List (Event P A V E)} {result : Result V E}
      (hload : Loads key terms.share ls result) :
      Course whole key terms .never (did ls ++ lastly whole result)
  | onlyHit {ks : List (Event P A V E)} {delivery : Delivery V}
      (hlook : Looks key terms.maxAge ks (some delivery)) :
      Course whole key terms .only (did ks ++ lastly whole (.ok delivery))
  | onlyMiss {ks : List (Event P A V E)} (hlook : Looks key terms.maxAge ks none) :
      Course whole key terms .only
        (did (ks ++ [.unanswered key]) ++ lastly whole (.error .notCached))
  | ifHaveHit {ks : List (Event P A V E)} {delivery : Delivery V}
      (hlook : Looks key terms.maxAge ks (some delivery)) :
      Course whole key terms .ifHave (did ks ++ lastly whole (.ok delivery))
  | ifHaveMiss {ks ls : List (Event P A V E)} {result : Result V E}
      (hlook : Looks key terms.maxAge ks none) (hload : Loads key terms.share ls result) :
      Course whole key terms .ifHave (did ks ++ did ls ++ lastly whole result)
  | ifFailedOk {ls : List (Event P A V E)} {delivery : Delivery V}
      (hload : Loads key terms.share ls (.ok delivery)) :
      Course whole key terms .ifFailed (did ls ++ lastly whole (.ok delivery))
  /-- The source fails, and the store answers in its place. -/
  | ifFailedHit {ls ks : List (Event P A V E)} {failure : Failure E} {delivery : Delivery V}
      (hload : Loads key terms.share ls (.error failure))
      (hlook : Looks key terms.maxAge ks (some delivery)) :
      Course whole key terms .ifFailed
        (did ls ++ did (ks ++ [.rescued key]) ++ lastly whole (.ok delivery))
  /-- The source fails, and the store has no answer: the failure stands. -/
  | ifFailedMiss {ls ks : List (Event P A V E)} {failure : Failure E}
      (hload : Loads key terms.share ls (.error failure))
      (hlook : Looks key terms.maxAge ks none) :
      Course whole key terms .ifFailed (did ls ++ did ks ++ lastly whole (.error failure))
  /-- The store answers first, and then the source. -/
  | cachedThenLoadHit {ks ls : List (Event P A V E)} {delivery : Delivery V}
      {result : Result V E} (hlook : Looks key terms.maxAge ks (some delivery))
      (hload : Loads key terms.share ls result) :
      Course whole key terms .cachedThenLoad
        (did ks ++ [.yielded (Item.ofResult whole (.ok delivery))] ++ did ls ++
          lastly whole result)
  | cachedThenLoadMiss {ks ls : List (Event P A V E)} {result : Result V E}
      (hlook : Looks key terms.maxAge ks none) (hload : Loads key terms.share ls result) :
      Course whole key terms .cachedThenLoad (did ks ++ did ls ++ lastly whole result)

/-- What comes before the load of a request. -/
inductive Preface (whole : Bool) (key : Key P A) (terms : Terms) :
    Policy → List (Act P A V E) → Prop where
  | never : Preface whole key terms .never []
  | ifFailed : Preface whole key terms .ifFailed []
  | ifHave {ks : List (Event P A V E)} (hlook : Looks key terms.maxAge ks none) :
      Preface whole key terms .ifHave (did ks)
  | cachedThenLoadHit {ks : List (Event P A V E)} {delivery : Delivery V}
      (hlook : Looks key terms.maxAge ks (some delivery)) :
      Preface whole key terms .cachedThenLoad
        (did ks ++ [.yielded (Item.ofResult whole (.ok delivery))])
  | cachedThenLoadMiss {ks : List (Event P A V E)} (hlook : Looks key terms.maxAge ks none) :
      Preface whole key terms .cachedThenLoad (did ks)

/-- Where a request stands on its course, with what it has done and yielded so far. -/
inductive Stands (whole : Bool) (key : Key P A) (terms : Terms) (policy : Policy) :
    CallStage P A V E → List (Act P A V E) → Prop where
  /-- At the beginning, where a request looks first. -/
  | looking (hfirst : (Plan.policy policy : Plan V).looksFirst = true) :
      Stands whole key terms policy .looking []
  /-- In the load. -/
  | loading {acts : List (Act P A V E)} {ls : List (Event P A V E)} {load : Load P A V E}
      (hpreface : Preface whole key terms policy acts)
      (hload : Loading key terms.share load ls) :
      Stands whole key terms policy (.loading load) (acts ++ did ls)
  /-- After a load that has failed. -/
  | rescuing {ls : List (Event P A V E)} {failure : Failure E} (hpolicy : policy = .ifFailed)
      (hload : Loads key terms.share ls (.error failure)) :
      Stands whole key terms policy (.rescuing failure) (did ls)
  /-- Behind the last result. -/
  | spent {acts : List (Act P A V E)} (hcourse : Course whole key terms policy (acts ++ [.ended])) :
      Stands whole key terms policy .spent acts

section Course

variable {whole : Bool} {key : Key P A} {terms : Terms} {policy : Policy}
  {acts : List (Act P A V E)} {ls : List (Event P A V E)} {result : Result V E}

/-- A request whose load has ended is at its end, unless the load has failed and the store is still
to be asked. -/
theorem Preface.course (h : Preface whole key terms policy acts)
    (hload : Loads key terms.share ls result)
    (hlast : policy = .ifFailed → ∃ delivery, result = .ok delivery) :
    Course whole key terms policy (acts ++ did ls ++ lastly whole result) := by
  cases h with
  | never => exact .never hload
  | ifHave hlook => exact .ifHaveMiss hlook hload
  | cachedThenLoadHit hlook => exact .cachedThenLoadHit hlook hload
  | cachedThenLoadMiss hlook => exact .cachedThenLoadMiss hlook hload
  | ifFailed =>
    obtain ⟨delivery, rfl⟩ := hlast rfl
    exact .ifFailedOk hload

/-- From wherever a request stands, its course can be completed. -/
theorem Stands.exists_course {stage : CallStage P A V E}
    (h : Stands whole key terms policy stage acts) :
    ∃ rest, Course whole key terms policy (acts ++ rest) := by
  cases h with
  | looking hfirst =>
    cases policy with
    | never => cases hfirst
    | ifFailed => cases hfirst
    | only => exact ⟨_, .onlyMiss .miss⟩
    | ifHave =>
      obtain ⟨ls, hload⟩ := Loading.unstarted.loads (.error .notCached)
      exact ⟨_, .ifHaveMiss .miss hload⟩
    | cachedThenLoad =>
      obtain ⟨ls, hload⟩ := Loading.unstarted.loads (.error .notCached)
      exact ⟨_, .cachedThenLoadMiss .miss hload⟩
  | loading hpreface hload =>
    obtain ⟨rest, hloads⟩ := hload.loads (.error .notCached)
    by_cases hpolicy : policy = .ifFailed
    · subst hpolicy
      cases hpreface
      have hcourse : Course whole key terms .ifFailed _ := .ifFailedMiss hloads .miss
      rw [did_append, List.append_assoc, List.append_assoc] at hcourse
      exact ⟨_, hcourse⟩
    · have hcourse := hpreface.course hloads fun h => absurd h hpolicy
      rw [did_append, ← List.append_assoc, List.append_assoc _ (did rest)] at hcourse
      exact ⟨_, hcourse⟩
  | rescuing hpolicy hload =>
    subst hpolicy
    have hcourse : Course whole key terms .ifFailed _ := .ifFailedMiss hload .miss
    rw [List.append_assoc] at hcourse
    exact ⟨_, hcourse⟩
  | spent hcourse => exact ⟨_, hcourse⟩

end Course

/-! ## Ends -/

/-- No event is the end of a request. -/
theorem not_mem_did (events : List (Event P A V E)) : Act.ended ∉ did events := by
  simp [did]

/-- No event yields an item. -/
theorem not_yielded_did (item : Item P V E) (events : List (Event P A V E)) :
    Act.yielded item ∉ did events := by
  simp [did]

/-- Where the last result is yielded, the end follows and comes once. -/
theorem ends_lastly (whole : Bool) (result : Result V E) {before : List (Act P A V E)}
    (hbefore : .ended ∉ before) :
    ∃ before', before ++ lastly whole result = before' ++ [.ended] ∧ .ended ∉ before' := by
  refine ⟨before ++ [.yielded (Item.ofResult whole result)], ?_, ?_⟩
  · rw [lastly, List.append_assoc]
    rfl
  · simpa using hbefore

/-- A course ends once. -/
theorem Course.ends {whole : Bool} {key : Key P A} {terms : Terms} {policy : Policy}
    {acts : List (Act P A V E)} (h : Course whole key terms policy acts) :
    ∃ before, acts = before ++ [.ended] ∧ .ended ∉ before := by
  cases h <;> refine ends_lastly whole _ ?_ <;> simp [not_mem_did]

/-! ## Polls -/

section Lookup

variable [DecidableEq P] [DecidableEq A]

/-- A read of the store is one event, with what it found. -/
theorem Environment.trace_readStore (env : Environment P A V E) (key : Key P A) :
    (env.readStore key).2.trace = env.trace ++ [.storeRead key (env.readStore key).1] := rfl

/-- The events of a lookup are those of a lookup that comes to its answer. -/
theorem Environment.looks_lookup (env : Environment P A V E) (key : Key P A)
    (maxAge : Option Duration) :
    ∃ events, (env.lookup key maxAge).2.trace = env.trace ++ events ∧
      Looks key maxAge events (env.lookup key maxAge).1 := by
  have hread := env.trace_readStore key
  unfold lookup
  rcases hfound : env.readStore key with ⟨_ | entry, env₁⟩ <;> rw [hfound] at hread
  · refine ⟨_, ?_, .miss⟩
    show env₁.trace ++ [.miss key] = _
    rw [hread, List.append_assoc]
    rfl
  · have hclock := (Work.tells_readClock env₁).trace
    simp only
    rcases hnow : env₁.readClock with ⟨now, env₂⟩
    rw [hnow] at hclock
    have htrace : ∀ event, (env₂.note event).trace =
        env.trace ++ [.storeRead key (some entry), .clockRead now, event] := by
      intro event
      show env₂.trace ++ [event] = _
      rw [hclock, hread, List.append_assoc, List.append_assoc]
      rfl
    by_cases hfresh : entry.isFresh maxAge now = true
    · simp only [hfresh, if_true]
      exact ⟨_, htrace _, .hit hfresh⟩
    · simp only [hfresh]
      exact ⟨_, htrace _, .stale (Bool.eq_false_of_not_eq_true hfresh)⟩

/-- A lookup that goes through adds its events, by what it finds. -/
theorem Cache.looks_lookup {c c' : Cache P A V E} {key : Key P A} {maxAge : Option Duration}
    {found : Option (Delivery V)} (h : c.lookup key maxAge = some (found, c')) :
    ∃ events, c'.env.trace = c.env.trace ++ events ∧ Looks key maxAge events found := by
  unfold lookup at h
  split at h
  · cases h
    exact c.env.looks_lookup key maxAge
  · cases h

end Lookup

namespace Call

/-- A request for a key under some terms and a policy, somewhere on its course. -/
structure OnCourse (whole : Bool) (key : Key P A) (terms : Terms) (policy : Policy)
    (call : Call P A V E) (acts : List (Act P A V E)) : Prop where
  key_eq : call.key = key
  terms_eq : call.terms = terms
  plan_eq : call.plan = .policy policy
  stands : Stands whole key terms policy call.stage acts

/-- Where a poll takes a request that has done and yielded `acts` before: the events of the poll
and then its answer are added. Requests stand where `On` says, and have done and yielded in the end
what `Whole` says. -/
def Goes (whole : Bool) (On : Call P A V E → List (Act P A V E) → Prop)
    (Whole : List (Act P A V E) → Prop) (acts : List (Act P A V E)) (c : Cache P A V E)
    (polled : Polled P A V E) : Prop :=
  ∃ events, polled.2.2.env.trace = c.env.trace ++ events ∧
    let acts' := acts ++ did events ++ Act.ofAnswer (polled.1.map (Item.ofResult whole))
    match polled.1 with
    | .pending | .item _ => On polled.2.1 acts'
    | .done => Whole acts'
    | .panicked _ => False

/-- Where a poll takes a request on the course of a policy. -/
abbrev Takes (whole : Bool) (key : Key P A) (terms : Terms) (policy : Policy) :
    List (Act P A V E) → Cache P A V E → Polled P A V E → Prop :=
  Goes whole (OnCourse whole key terms policy) (Course whole key terms policy)

variable {whole : Bool} {key : Key P A} {terms : Terms} {policy : Policy} {call : Call P A V E}
  {acts : List (Act P A V E)} {ls : List (Event P A V E)} {c c' : Cache P A V E}

section Goes

variable {On : Call P A V E → List (Act P A V E) → Prop} {Whole : List (Act P A V E) → Prop}

/-- Events may be added before the rest of a poll. -/
theorem Goes.after {events : List (Event P A V E)} {polled : Polled P A V E}
    (h : Goes whole On Whole (acts ++ did events) c' polled)
    (htrace : c'.env.trace = c.env.trace ++ events) : Goes whole On Whole acts c polled := by
  obtain ⟨events', htrace', hpolled⟩ := h
  refine ⟨events ++ events', by rw [htrace', htrace, List.append_assoc], ?_⟩
  rw [did_append, ← List.append_assoc]
  exact hpolled

/-- A request that waits stands where it stood. -/
theorem goes_pending (hon : On call acts) : Goes whole On Whole acts c (.pending, call, c) := by
  refine ⟨[], (List.append_nil _).symm, ?_⟩
  rwa [did_nil, List.append_nil, show Act.ofAnswer _ = [] from rfl, List.append_nil]

/-- A request that yields a result goes on if it then stands on its course. -/
theorem goes_item {result : Result V E}
    (hon : On call (acts ++ [.yielded (Item.ofResult whole result)])) :
    Goes whole On Whole acts c (.item result, call, c) := by
  refine ⟨[], (List.append_nil _).symm, ?_⟩
  rw [did_nil, List.append_nil]
  exact hon

/-- A request ends if what it has done and yielded is a whole course. -/
theorem goes_done (hwhole : Whole (acts ++ [.ended])) :
    Goes whole On Whole acts c (.done, call, c) := by
  refine ⟨[], (List.append_nil _).symm, ?_⟩
  rw [did_nil, List.append_nil]
  exact hwhole

end Goes

/-- A request that yields its last result has only its end ahead. -/
theorem takes_yieldLast {result : Result V E} (hkey : call.key = key) (hterms : call.terms = terms)
    (hplan : call.plan = .policy policy)
    (hcourse : Course whole key terms policy (acts ++ lastly whole result)) :
    Takes whole key terms policy acts c (call.yieldLast result c) := by
  refine goes_item ⟨hkey, hterms, hplan, .spent ?_⟩
  rw [List.append_assoc]
  exact hcourse

/-- A request that waits stands on its course, wherever its stage stands. -/
theorem takes_pending (hkey : call.key = key) (hterms : call.terms = terms)
    (hplan : call.plan = .policy policy) (hstands : Stands whole key terms policy call.stage acts) :
    Takes whole key terms policy acts c (.pending, call, c) :=
  goes_pending ⟨hkey, hterms, hplan, hstands⟩

section Poll

variable [DecidableEq P] [DecidableEq A]

/-- The rescue of a failed load waits for the store, or ends in the stored value or the failure. -/
theorem takes_rescue {failure : Failure E} (hkey : call.key = key) (hterms : call.terms = terms)
    (hplan : call.plan = .policy .ifFailed) (hload : Loads key terms.share ls (.error failure)) :
    Takes whole key terms .ifFailed (did ls) c (call.rescue failure c) := by
  subst hkey hterms
  unfold rescue
  rcases hlook : c.lookup call.key call.terms.maxAge with _ | ⟨_ | delivery, c'⟩
  · exact takes_pending rfl rfl hplan (.rescuing rfl hload)
  · obtain ⟨ks, htrace, hks⟩ := Cache.looks_lookup hlook
    exact (takes_yieldLast rfl rfl hplan (.ifFailedMiss hload hks)).after htrace
  · obtain ⟨ks, htrace, hks⟩ := Cache.looks_lookup hlook
    have hnote : (c'.note (.rescued call.key)).env.trace =
        c.env.trace ++ (ks ++ [.rescued call.key]) := by
      rw [← List.append_assoc, ← htrace]
      rfl
    exact (takes_yieldLast rfl rfl hplan (.ifFailedHit hload hks)).after hnote

/-- A load that has settled takes a request to what its policy makes of the result. -/
theorem takes_settle {result : Result V E} (hkey : call.key = key) (hterms : call.terms = terms)
    (hplan : call.plan = .policy policy) (hpreface : Preface whole key terms policy acts)
    (hload : Loads key terms.share ls result) :
    Takes whole key terms policy (acts ++ did ls) c (call.settle result c) := by
  unfold settle
  cases result with
  | ok delivery =>
    have hcourse := hpreface.course hload fun _ => ⟨delivery, rfl⟩
    split
    · rename_i heq
      cases heq
    · exact takes_yieldLast hkey hterms hplan hcourse
  | error failure =>
    split
    · rename_i failure' hplan' heq
      cases heq
      rw [hplan, Plan.policy.injEq] at hplan'
      subst hplan'
      cases hpreface
      exact takes_rescue hkey hterms hplan hload
    · rename_i hnot
      have hcourse := hpreface.course hload fun hpolicy =>
        absurd rfl (hnot failure (hpolicy ▸ hplan))
      exact takes_yieldLast hkey hterms hplan hcourse

/-- A poll of the load takes a request on, whether the load waits or settles. -/
theorem takes_pollLoad {load : Load P A V E} (hkey : call.key = key) (hterms : call.terms = terms)
    (hplan : call.plan = .policy policy) (hpreface : Preface whole key terms policy acts)
    (hload : Loading key terms.share load ls) :
    Takes whole key terms policy (acts ++ did ls) c (call.pollLoad load c) := by
  obtain ⟨events, htrace, hleaves⟩ := Load.leaves_poll hload c
  unfold pollLoad
  rcases hpoll : load.poll c with ⟨rest | result, c'⟩ <;> rw [hpoll] at htrace hleaves
  · have hstands := Stands.loading hpreface hleaves
    rw [did_append, ← List.append_assoc] at hstands
    exact Goes.after (takes_pending hkey hterms hplan hstands) htrace
  · have htakes := takes_settle (c := c') hkey hterms hplan hpreface hleaves
    rw [did_append, ← List.append_assoc] at htakes
    exact htakes.after htrace

/-- The load that a request begins goes on from the course before it. -/
theorem takes_beginLoad (hkey : call.key = key) (hterms : call.terms = terms)
    (hplan : call.plan = .policy policy) (hpreface : Preface whole key terms policy acts) :
    Takes whole key terms policy acts c (call.beginLoad c) := by
  have hload : Loading key terms.share (.unstarted call.key call.terms.share)
      ([] : List (Event P A V E)) := by
    rw [hkey, hterms]
    exact .unstarted
  have htakes := takes_pollLoad (c := c) hkey hterms hplan hpreface hload
  rwa [did_nil, List.append_nil] at htakes

/-- The first lookup takes a request to what its policy makes of the answer. -/
theorem takes_look (hkey : call.key = key) (hterms : call.terms = terms)
    (hplan : call.plan = .policy policy) (hstage : call.stage = .looking)
    (hfirst : (Plan.policy policy : Plan V).looksFirst = true) :
    Takes whole key terms policy [] c (call.look c) := by
  subst hkey hterms
  unfold look
  rcases hlook : c.lookup call.key call.terms.maxAge with _ | ⟨_ | delivery, c'⟩
  · exact takes_pending rfl rfl hplan (hstage ▸ .looking hfirst)
  · obtain ⟨ks, htrace, hks⟩ := Cache.looks_lookup hlook
    refine Goes.after ?_ htrace
    unfold goWithout
    rw [hplan]
    cases policy with
    | never => cases hfirst
    | ifFailed => cases hfirst
    | only =>
      have hnote : (c'.note (.unanswered call.key)).env.trace =
          c'.env.trace ++ [.unanswered call.key] := rfl
      have hcourse : Course whole call.key call.terms .only _ := .onlyMiss hks
      rw [did_append] at hcourse
      exact (takes_yieldLast rfl rfl hplan hcourse).after hnote
    | ifHave => exact takes_beginLoad rfl rfl hplan (.ifHave hks)
    | cachedThenLoad => exact takes_beginLoad rfl rfl hplan (.cachedThenLoadMiss hks)
  · obtain ⟨ks, htrace, hks⟩ := Cache.looks_lookup hlook
    refine Goes.after ?_ htrace
    unfold useStored
    rw [hplan]
    cases policy with
    | never => cases hfirst
    | ifFailed => cases hfirst
    | only => exact takes_yieldLast rfl rfl hplan (.onlyHit hks)
    | ifHave => exact takes_yieldLast rfl rfl hplan (.ifHaveHit hks)
    | cachedThenLoad =>
      have hload : Loading call.key call.terms.share (.unstarted call.key call.terms.share)
          ([] : List (Event P A V E)) := .unstarted
      have hpreface : Preface whole call.key call.terms .cachedThenLoad _ := .cachedThenLoadHit hks
      have hstands := Stands.loading hpreface hload
      rw [did_nil, List.append_nil] at hstands
      exact goes_item ⟨rfl, rfl, hplan, hstands⟩

/-- One poll takes a request further on its course, whatever has become of the cache since the poll
before. -/
theorem takes_poll (h : OnCourse whole key terms policy call acts) (c : Cache P A V E) :
    Takes whole key terms policy acts c (call.poll c) := by
  obtain ⟨hkey, hterms, hplan, hstands⟩ := h
  unfold poll
  cases hstage : call.stage with
  | looking =>
    rw [hstage] at hstands
    cases hstands with
    | looking hfirst => exact takes_look hkey hterms hplan hstage hfirst
  | loading load =>
    rw [hstage] at hstands
    cases hstands with
    | loading hpreface hload => exact takes_pollLoad hkey hterms hplan hpreface hload
  | rescuing failure =>
    rw [hstage] at hstands
    cases hstands with
    | rescuing hpolicy hload =>
      subst hpolicy
      exact takes_rescue hkey hterms hplan hload
  | spent =>
    rw [hstage] at hstands
    cases hstands with
    | spent hcourse => exact goes_done hcourse

end Poll

/-- A new request is at the beginning of its course. -/
theorem onCourse_create (whole : Bool) (key : Key P A) (policy : Policy) (terms : Terms) :
    OnCourse whole key terms policy (create key (.policy policy) terms : Call P A V E) [] where
  key_eq := rfl
  terms_eq := rfl
  plan_eq := rfl
  stands := by
    unfold create
    cases policy with
    | never => exact .loading .never .unstarted
    | ifFailed => exact .loading .ifFailed .unstarted
    | only => exact .looking rfl
    | ifHave => exact .looking rfl
    | cachedThenLoad => exact .looking rfl

end Call

/-! ## Routes -/

section Routes

variable [DecidableEq P] [DecidableEq A]

/-- A way that requests take from poll to poll, whatever becomes of the cache in between. From
anywhere on it they can reach its end. -/
structure Route (P A V E : Type) [DecidableEq P] [DecidableEq A] where
  whole : Bool
  On : Call P A V E → List (Act P A V E) → Prop
  Whole : List (Act P A V E) → Prop
  goes : ∀ {call acts}, On call acts → ∀ c, Call.Goes whole On Whole acts c (call.poll c)
  completes : ∀ {call acts}, On call acts → ∃ rest, Whole (acts ++ rest)
  ends : ∀ {acts}, Whole acts → ∃ before, acts = before ++ [.ended] ∧ .ended ∉ before

/-- The beginning of a way that has ended is the whole way. -/
theorem Route.eq_of_ended (route : Route P A V E) {acts rest : List (Act P A V E)}
    (h : route.Whole (acts ++ rest)) (hended : .ended ∈ acts) : rest = [] := by
  obtain ⟨before, heq, hbefore⟩ := route.ends h
  rcases List.append_eq_append_iff.mp heq with ⟨mid, hmid, -⟩ | ⟨mid, hmid, hlast⟩
  · exact absurd (hmid ▸ List.mem_append_left _ hended) hbefore
  · cases mid with
    | nil => exact absurd (by simpa [hmid] using hended) hbefore
    | cons act mid =>
      rw [List.cons_append, List.cons.injEq] at hlast
      exact (List.append_eq_nil_iff.mp hlast.2.symm).2

/-- The course of a policy. -/
def Route.ofPolicy (whole : Bool) (key : Key P A) (terms : Terms) (policy : Policy) :
    Route P A V E where
  whole
  On := Call.OnCourse whole key terms policy
  Whole := Course whole key terms policy
  goes h c := Call.takes_poll h c
  completes h := h.stands.exists_course
  ends := Course.ends

/-- The beginning of a course that has ended is the whole course. -/
theorem Course.eq_of_ended {whole : Bool} {key : Key P A} {terms : Terms} {policy : Policy}
    {acts rest : List (Act P A V E)} (h : Course whole key terms policy (acts ++ rest))
    (hended : .ended ∈ acts) : rest = [] :=
  (Route.ofPolicy whole key terms policy).eq_of_ended h hended

end Routes

end ReadThrough
