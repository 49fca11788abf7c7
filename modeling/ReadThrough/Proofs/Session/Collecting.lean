import ReadThrough.Proofs.Call.Collecting
import ReadThrough.Proofs.Session.Addresses
import ReadThrough.Proofs.Session.SideBySide
import ReadThrough.Proofs.Session.Unfolding
/-!
# Proofs: the last value of a request, and the request

A task of which only the last value of a request matters is run beside the request itself, which is
drained whenever the task is polled. One poll of the task does what this drain does
(`Session.gathers_collect`), so that the two sessions stay the same but for the two tasks
(`Session.SideBySide.step_collecting`), and the task yields the last item of the request
(`Session.Gathering`).
-/

namespace ReadThrough

variable {P A V E : Type}

/-! ## Acts -/

/-- What happens in an act. -/
def Act.event? : Act P A V E → Option (Event P A V E)
  | .did event => some event
  | .yielded _ | .ended | .panicked _ => none

/-- What is done in some acts. -/
def doings (acts : List (Act P A V E)) : List (Event P A V E) := acts.filterMap Act.event?

/-- The doings of two lists of acts are those of the first and then those of the second. -/
theorem doings_append (acts acts' : List (Act P A V E)) :
    doings (acts ++ acts') = doings acts ++ doings acts' := List.filterMap_append

/-- Events are done as acts. -/
theorem doings_did (events : List (Event P A V E)) : doings (did events) = events := by
  unfold doings did
  rw [List.filterMap_map]
  exact List.filterMap_some

/-- An answer does nothing. -/
theorem doings_ofAnswer (answer : Answer (Item P V E)) :
    doings (Act.ofAnswer answer : List (Act P A V E)) = [] := by
  cases answer <;> rfl

/-- What a request of which only the last value matters has done and yielded, against what the
request itself has. Both have done the same. As soon as the request has ended, which it does behind
an item, this item has been yielded. -/
inductive Collects (acts acts' : List (Act P A V E)) : Prop where
  | running (hopen : .ended ∉ acts') (hacts : acts = did (doings acts'))
  | told {before : List (Act P A V E)} {item : Item P V E} (hbefore : .ended ∉ before)
      (hended : acts' = before ++ [.yielded item, .ended])
      (hacts : acts = did (doings acts') ++ [.yielded item])
  /-- The end has been told too. -/
  | finished {before : List (Act P A V E)} {item : Item P V E} (hbefore : .ended ∉ before)
      (hended : acts' = before ++ [.yielded item, .ended])
      (hacts : acts = did (doings acts') ++ [.yielded item, .ended])

/-! ## Environments that are the same -/

/-- Nothing is different. -/
abbrev Environment.Same (env env' : Environment P A V E) : Prop := env' = env

/-- Caches in step with nothing different are the same. -/
theorem Cache.InStep.eq {c c' : Cache P A V E} (h : InStep Environment.Same c c') : c' = c := by
  obtain ⟨env, flights⟩ := c
  obtain ⟨env', flights'⟩ := c'
  obtain ⟨henv, hflights⟩ := h
  cases henv
  cases hflights
  rfl

variable [DecidableEq P] [DecidableEq A]

/-- Environments that are the same stay so whatever is done to both. -/
theorem Environment.accord_same :
    Accord (Same : Environment P A V E → Environment P A V E → Prop) where
  gates := by rintro env _ rfl; rfl
  called := by rintro env _ rfl; rfl
  cancelled := by rintro env _ rfl; rfl
  updates := by rintro env _ rfl; rfl
  errors := by rintro env _ rfl; rfl
  readable := by rintro env _ rfl; rfl
  writable := by rintro env _ rfl; rfl
  refusal := by rintro env _ rfl; rfl
  note := by rintro env _ event - rfl; rfl
  advance := by rintro env _ d rfl; rfl
  cancel := by rintro env _ rfl; rfl
  judge := by rintro env _ rfl; rfl
  callSource := by rintro env _ key rfl; exact ⟨rfl, rfl⟩
  readClock := by rintro env _ rfl; exact ⟨rfl, rfl⟩
  readStore := by rintro env _ key rfl; exact ⟨rfl, rfl⟩
  writeStore := by rintro env _ key entry rfl; rfl
  clearStore := by rintro env _ rfl; rfl
  publishUpdate := by rintro env _ params delivery rfl; rfl
  publishFailure := by rintro env _ params failure rfl; rfl
  withUpdates := by rintro env _ channel rfl; rfl
  withErrors := by rintro env _ channel rfl; rfl
  withGates := by rintro env _ gates rfl; rfl
  setTime := by rintro env _ now rfl; rfl
  ask := by rintro env _ query rfl; rfl

/-- A request that has ended holds no load to drop. -/
theorem Call.drop_of_spent {call : Call P A V E} (hahead : call.stage.ahead = 0)
    (c : Cache P A V E) : call.drop c = c := by
  unfold drop
  cases hstage : call.stage with
  | spent => rfl
  | looking | rescuing => rfl
  | loading load =>
    rw [hstage] at hahead
    cases hahead

namespace Session

/-! ## The two tasks -/

/-- The tasks of the two requests, with what they have done and yielded. -/
inductive Gathering (policy : Policy) (acts acts' : List (Act P A V E)) :
    Option (Task P A V E) → Option (Task P A V E) → Prop where
  | running {f : Fetch P A V E} (hspent : f.spent = false) (hplan : f.call.plan = .policy policy)
      (hahead : 0 < f.call.stage.ahead) (hopen : .ended ∉ acts')
      (hacts : acts = did (doings acts')) :
      Gathering policy acts acts' (some (.fetch f)) (some (.call false f.call))
  | told {f : Fetch P A V E} {before : List (Act P A V E)} {item : Item P V E}
      (hspent : f.spent = true) (hnone : f.call.stage.ahead = 0) (hbefore : .ended ∉ before)
      (hended : acts' = before ++ [.yielded item, .ended])
      (hacts : acts = did (doings acts') ++ [.yielded item]) :
      Gathering policy acts acts' (some (.fetch f)) (some .ended)
  | finished {before : List (Act P A V E)} {item : Item P V E} (hbefore : .ended ∉ before)
      (hended : acts' = before ++ [.yielded item, .ended])
      (hacts : acts = did (doings acts') ++ [.yielded item, .ended]) :
      Gathering policy acts acts' (some .ended) (some .ended)
  | gone (h : Collects acts acts') : Gathering policy acts acts' none none
  /-- The first has been dropped with the cache, which the second does not need any more. -/
  | left (h : Collects acts acts') : Gathering policy acts acts' none (some .ended)

variable {policy : Policy} {acts acts' : List (Act P A V E)} {o o' : Option (Task P A V E)}

omit [DecidableEq P] [DecidableEq A] in
/-- The tasks of the two requests have collected what their acts tell. -/
theorem Gathering.collects (h : Gathering policy acts acts' o o') : Collects acts acts' := by
  cases h with
  | running _ _ _ hopen hacts => exact .running hopen hacts
  | told _ _ hbefore hended hacts => exact .told hbefore hended hacts
  | finished hbefore hended hacts => exact .finished hbefore hended hacts
  | gone h => exact h
  | left h => exact h

/-- The tasks of the two requests can be dropped, together or alone. -/
theorem taskPair_gathering : TaskPair Environment.Same (Gathering policy acts acts') where
  accord := Environment.accord_same
  drop {o o' c c'} h hcaches := by
    obtain rfl := hcaches.eq
    cases h with
    | running => exact ⟨rfl, rfl⟩
    | @told f _ _ _ hnone =>
      have hdrop : (Task.fetch f).drop c' = c' := Call.drop_of_spent hnone c'
      rw [Option.elim_some, hdrop]
      exact ⟨rfl, rfl⟩
    | finished | gone | left => exact ⟨rfl, rfl⟩
  gone h := .gone h.collects
  needs h := by
    cases h with
    | running | finished | gone | left => exact .inl rfl
    | told hspent hnone hbefore hended hacts =>
      refine .inr ⟨rfl, rfl, fun c => Call.drop_of_spent hnone c, ?_⟩
      exact .left (.told hbefore hended hacts)

/-! ## Polls of the two -/

variable [DecidableEq V] {id : String} {r r' r'' : Recorded P A V E}

/-- Nothing happens but to the cache and the task with the name, and what happens is recorded. -/
structure Minds (id : String) (r r' : Recorded P A V E) : Prop where
  closed : r'.1.closed = r.1.closed
  others : ∀ id', id' ≠ id → r'.1.tasks.get? id' = r.1.tasks.get? id'
  told : ∃ events, r'.1.cache.env.trace = r.1.cache.env.trace ++ events ∧
    doings r'.2 = doings r.2 ++ events

omit [DecidableEq P] [DecidableEq A] [DecidableEq V] in
/-- What happens in two parts to the task with the name alone happens to it alone. -/
theorem Minds.trans (h : Minds id r r') (h' : Minds id r' r'') : Minds id r r'' := by
  obtain ⟨events, htrace, hdoings⟩ := h.told
  obtain ⟨events', htrace', hdoings'⟩ := h'.told
  refine ⟨h'.closed.trans h.closed, fun id' hne => (h'.others id' hne).trans (h.others id' hne),
    events ++ events', ?_, ?_⟩
  · rw [htrace', htrace, List.append_assoc]
  · rw [hdoings', hdoings, List.append_assoc]

/-- The task with the name is polled. -/
theorem pollRecorded_of_get {task left : Task P A V E} {c : Cache P A V E}
    {answer : Answer (Item P V E)} {events : List (Event P A V E)}
    (hget : r.1.tasks.get? id = some task) (hpoll : task.poll r.1.cache = (.answer answer, left, c))
    (htrace : c.env.trace = r.1.cache.env.trace ++ events) :
    pollRecorded id id r = (.answer answer,
      { r.1 with cache := c, tasks := r.1.tasks.insert id left },
      r.2 ++ (did events ++ Act.ofAnswer answer)) := by
  have hafter : r.1.pollTask id = (.answer answer,
      { r.1 with cache := c, tasks := r.1.tasks.insert id left }) := by
    unfold pollTask
    rw [hget]
    dsimp only
    rw [hpoll]
  unfold pollRecorded
  rw [hafter]
  dsimp only
  rw [if_pos rfl]
  unfold actsOf
  dsimp only
  rw [htrace, List.drop_left]

omit [DecidableEq P] [DecidableEq A] [DecidableEq V] in
/-- A poll of the task with the name happens to the cache and the task, and is recorded. -/
theorem minds_poll {left : Task P A V E} {c : Cache P A V E} (answer : Answer (Item P V E))
    {events : List (Event P A V E)} (htrace : c.env.trace = r.1.cache.env.trace ++ events) :
    Minds id r ({ r.1 with cache := c, tasks := r.1.tasks.insert id left },
      r.2 ++ (did events ++ Act.ofAnswer answer)) := by
  refine ⟨rfl, fun id' hne => Table.get?_insert_of_ne _ _ hne, events, htrace, ?_⟩
  rw [doings_append, doings_append, doings_did, doings_ofAnswer, List.append_nil]

/-- What a poll of the first request comes to, and where the second is once it has been drained. -/
inductive Gathers (policy : Policy) (id : String) :
    Fetch.Polled P A V E → Recorded P A V E → Prop where
  | waits {f : Fetch P A V E} {c : Cache P A V E} {r : Recorded P A V E} (hspent : f.spent = false)
      (hplan : f.call.plan = .policy policy) (hahead : 0 < f.call.stage.ahead)
      (hcache : r.1.cache = c) (hopen : .ended ∉ r.2)
      (hget : r.1.tasks.get? id = some (.call false f.call)) :
      Gathers policy id (.pending, f, c) r
  | tells {result : Result V E} {f : Fetch P A V E} {c : Cache P A V E} {r : Recorded P A V E}
      {before : List (Act P A V E)} (hspent : f.spent = true) (hnone : f.call.stage.ahead = 0)
      (hcache : r.1.cache = c) (hbefore : .ended ∉ before)
      (hended : r.2 = before ++ [.yielded (Item.ofResult false result), .ended])
      (hget : r.1.tasks.get? id = some .ended) : Gathers policy id (.item result, f, c) r

omit [DecidableEq P] [DecidableEq A] [DecidableEq V] in
/-- Acts have no end among them before the request answers that it has ended. -/
theorem not_ended_append (hopen : .ended ∉ acts) (events : List (Event P A V E))
    {answer : Answer (Item P V E)} (hanswer : answer ≠ .done) :
    .ended ∉ acts ++ (did events ++ Act.ofAnswer answer) := by
  simp only [List.mem_append, not_or]
  refine ⟨hopen, not_mem_did events, ?_⟩
  cases answer with
  | done => exact absurd rfl hanswer
  | pending => exact List.not_mem_nil
  | item item => simp [Act.ofAnswer]
  | panicked message => simp [Act.ofAnswer]

/-- The request is drained while the last value is collected. -/
theorem gathers_collect {polls passes : Nat} (hpasses : polls ≤ passes) {f : Fetch P A V E}
    (hspent : f.spent = false) (hplan : f.call.plan = .policy policy)
    (hahead : f.call.stage.ahead < polls)
    (hlatest : f.call.stage.ahead = 0 → ∃ result before, f.latest = some result ∧
      r.2 = before ++ [.yielded (Item.ofResult false result)])
    (hopen : .ended ∉ r.2) (hget : r.1.tasks.get? id = some (.call false f.call)) :
    Gathers policy id (f.collect polls r.1.cache) (drain (pollRecorded id id) passes r).2 ∧
      Minds id r (drain (pollRecorded id id) passes r).2 := by
  -- By induction on the polls that are left: each result that is yielded leaves fewer ahead.
  induction polls generalizing passes f r with
  | zero => exact absurd hahead (Nat.not_lt_zero _)
  | succ polls ih =>
    obtain ⟨passes, rfl⟩ : ∃ more, passes = more + 1 := Nat.exists_eq_add_of_le' (by omega)
    rw [drain_succ]
    rcases Nat.eq_zero_or_pos f.call.stage.ahead with hnone | hsome
    · obtain ⟨result, before, hresult, hyielded⟩ := hlatest hnone
      have hdone := Call.poll_of_spent hnone r.1.cache
      have hpoll : (Task.call false f.call).poll r.1.cache =
          (.answer .done, .ended, r.1.cache) := by
        unfold Task.poll
        dsimp only
        rw [hdone]
        rfl
      have htrace : r.1.cache.env.trace = r.1.cache.env.trace ++ [] := (List.append_nil _).symm
      rw [Fetch.collect_of_spent polls hnone hresult, pollRecorded_of_get hget hpoll htrace]
      have hbefore : .ended ∉ before := fun hmem => hopen (hyielded ▸ List.mem_append_left _ hmem)
      refine ⟨.tells rfl hnone rfl hbefore ?_ (Table.get?_insert_self _ _ _),
        minds_poll .done htrace⟩
      dsimp only
      rw [hyielded, List.append_assoc]
      rfl
    · obtain ⟨events, htrace⟩ := (f.call.moves_poll r.1.cache 0).trace
      have hadvances : Call.Advances (fun _ => True) f.call (f.call.poll r.1.cache) :=
        Call.advances_poll (fun _ => trivial) (fun _ _ _ _ _ => trivial) (fun _ => trivial) hsome
          fun _ _ => trivial
      generalize hpoll : f.call.poll r.1.cache = polled at hadvances htrace
      cases hadvances with
      | panics hjudged => cases hplan.symm.trans hjudged
      | @waits stage c hwaits =>
        have htask : (Task.call false f.call).poll r.1.cache =
            (.answer .pending, .call false { f.call with stage }, c) := by
          unfold Task.poll
          dsimp only
          rw [hpoll]
          rfl
        rw [Fetch.collect_of_pending polls hpoll, pollRecorded_of_get hget htask htrace]
        refine ⟨.waits hspent hplan hwaits rfl ?_ (Table.get?_insert_self _ _ _),
          minds_poll .pending htrace⟩
        exact not_ended_append hopen events nofun
      | @yields result stage c _ hfewer =>
        have htask : (Task.call false f.call).poll r.1.cache =
            (.answer (.item (Item.ofResult false result)), .call false { f.call with stage },
              c) := by
          unfold Task.poll
          dsimp only
          rw [hpoll]
          rfl
        rw [Fetch.collect_of_item polls hpoll, pollRecorded_of_get hget htask htrace]
        have hleft : stage.ahead < polls := Nat.lt_of_lt_of_le hfewer (Nat.le_of_lt_succ hahead)
        -- The rest of the drain goes on from where the item was yielded.
        let item : Answer (Item P V E) := .item (Item.ofResult false result)
        let left : Call P A V E := { f.call with stage }
        let after : Recorded P A V E :=
          ({ r.1 with cache := c, tasks := r.1.tasks.insert id (.call false left) },
            r.2 ++ (did events ++ Act.ofAnswer item))
        have hyielded : after.2 = (r.2 ++ did events) ++ [.yielded (Item.ofResult false result)] :=
          (List.append_assoc _ _ _).symm
        have hstill : .ended ∉ after.2 := not_ended_append hopen events nofun
        obtain ⟨hgathers, hminds⟩ := ih (r := after) (Nat.le_of_succ_le_succ hpasses)
          (f := ⟨left, some result, f.spent⟩) hspent hplan hleft
          (fun _ => ⟨result, _, rfl, hyielded⟩) hstill (Table.get?_insert_self _ _ _)
        exact ⟨hgathers, (minds_poll _ htrace).trans hminds⟩

/-! ## Both sessions -/

/-- The first session has a task of which only the last value matters, the second one the request
itself, with what they have done and yielded. All else is the same. -/
abbrev Shadows (policy : Policy) (id : String) (r r' : Recorded P A V E) : Prop :=
  SideBySide Environment.Same (Gathering policy r.2 r'.2) id r.1 r'.1

/-- Nothing happens but that a task that has ended, or is not there, is asked. -/
structure Stays (r r' : Recorded P A V E) : Prop where
  cache : r'.1.cache = r.1.cache
  closed : r'.1.closed = r.1.closed
  tasks : ∀ id, r'.1.tasks.get? id = r.1.tasks.get? id
  acts : r'.2 = r.2

omit [DecidableEq P] [DecidableEq A] [DecidableEq V] in
/-- Where nothing happens, nobody is asked. -/
theorem Stays.refl (r : Recorded P A V E) : Stays r r := ⟨rfl, rfl, fun _ => rfl, rfl⟩

omit [DecidableEq P] [DecidableEq A] [DecidableEq V] in
/-- The sessions stay beside each other when tasks are asked that have ended. -/
theorem SideBySide.stays {r₁ r₁' : Recorded P A V E} (h : Shadows policy id r r')
    (hstays : Stays r r₁)
    (hstays' : Stays r' r₁') : Shadows policy id r₁ r₁' := by
  refine ⟨?_, ?_, fun id' hne => ?_, ?_⟩
  · rw [hstays.cache, hstays'.cache]
    exact h.cache
  · rw [hstays.closed, hstays'.closed, h.closed]
  · rw [hstays.tasks, hstays'.tasks, h.others id' hne]
  · rw [hstays.tasks, hstays'.tasks, hstays.acts, hstays'.acts]
    exact h.own

/-- A task that has ended or is not there answers so, and nothing happens. -/
theorem stays_pollRecorded
    (hget : r.1.tasks.get? id = none ∨ r.1.tasks.get? id = some .ended) :
    (pollRecorded id id r).1.mayContinue = false ∧ Stays r (pollRecorded id id r).2 := by
  have hacts : ∀ trace : List (Event P A V E),
      r.2 ++ did (trace.drop trace.length) = r.2 := fun trace => by
    rw [List.drop_length, did_nil, List.append_nil]
  rcases hget with hnone | hended
  · have hpoll : r.1.pollTask id = (.unknown, r.1) := by
      unfold pollTask
      rw [hnone]
    unfold pollRecorded
    rw [hpoll]
    dsimp only
    rw [if_pos rfl]
    exact ⟨rfl, rfl, rfl, fun _ => rfl, hacts _⟩
  · have hpoll : r.1.pollTask id =
        (.finished, { r.1 with tasks := r.1.tasks.insert id .ended }) := by
      unfold pollTask
      rw [hended]
      rfl
    unfold pollRecorded
    rw [hpoll]
    dsimp only
    rw [if_pos rfl]
    refine ⟨rfl, rfl, rfl, fun id' => ?_, hacts _⟩
    dsimp only
    by_cases hid : id' = id
    · rw [hid, Table.get?_insert_self, hended]
    · rw [Table.get?_insert_of_ne _ _ hid]

/-- The same of a drain. -/
theorem stays_drain (hget : r.1.tasks.get? id = none ∨ r.1.tasks.get? id = some .ended)
    (polls : Nat) : Stays r (drain (pollRecorded id id) (polls + 1) r).2 := by
  obtain ⟨hlast, hstays⟩ := stays_pollRecorded hget
  rw [drain_succ, hlast]
  exact hstays

omit [DecidableEq P] [DecidableEq A] [DecidableEq V] in
/-- A task alone is waited for by its own patience. -/
theorem patience_of_get {s : Session P A V E} {task : Task P A V E}
    (hget : s.tasks.get? id = some task) : s.patience [id] = task.patience s.cache * 2 + 1 := by
  unfold patience
  simp only [List.map_cons, List.map_nil, hget]
  rfl

namespace SideBySide

/-- The end is told after the last value. -/
theorem finish {f : Fetch P A V E} (h : Shadows policy id r r')
    (hget : r.1.tasks.get? id = some (.fetch f)) (hspent : f.spent = true) :
    (pollRecorded id id r).1.mayContinue = false ∧
      Shadows policy id (pollRecorded id id r).2 r' := by
  have hdone : f.poll r.1.cache = (.done, f, r.1.cache) := by
    unfold Fetch.poll
    rw [if_pos hspent]
  have hpoll : (Task.fetch f).poll r.1.cache = (.answer .done, .ended, r.1.cache) := by
    unfold Task.poll
    dsimp only
    rw [hdone]
    rfl
  have hown := h.own
  rw [hget] at hown
  rw [pollRecorded_of_get hget hpoll (List.append_nil _).symm]
  refine ⟨rfl, h.cache, h.closed, fun id' hne => ?_, ?_⟩
  · dsimp only
    rw [Table.get?_insert_of_ne _ _ hne, h.others id' hne]
  · dsimp only
    rw [Table.get?_insert_self]
    generalize r'.1.tasks.get? id = o' at hown
    cases hown with
    | running hrunning => cases hspent.symm.trans hrunning
    | told _ _ hbefore hended hacts =>
      refine .finished hbefore hended ?_
      rw [hacts, List.append_assoc]
      rfl

omit [DecidableEq P] [DecidableEq A] [DecidableEq V] in
/-- The first task is polled, and the second session goes on to where its task is drained. -/
theorem gathered {left : Task P A V E} {c : Cache P A V E} {acts : List (Act P A V E)}
    (h : Shadows policy id r r') (hminds : Minds id r' r'') (hcache : r''.1.cache = c)
    (hown : Gathering policy acts r''.2 (some left) (r''.1.tasks.get? id)) :
    Shadows policy id ({ r.1 with cache := c, tasks := r.1.tasks.insert id left }, acts) r'' := by
  refine ⟨⟨congrArg Cache.env hcache, congrArg Cache.flights hcache⟩, ?_, fun id' hne => ?_, ?_⟩
  · rw [hminds.closed, h.closed]
  · dsimp only
    rw [Table.get?_insert_of_ne _ _ hne, hminds.others id' hne, h.others id' hne]
  · dsimp only
    rwa [Table.get?_insert_self]

/-- One poll of the task of which only the last value matters goes as far as the request does while
it is drained. -/
theorem gather (h : Shadows policy id r r') :
    Shadows policy id (pollRecorded id id r).2
        (drain (pollRecorded id id) (r'.1.patience [id]) r').2 ∧
      ((pollRecorded id id r).1.mayContinue = true → ∃ f : Fetch P A V E,
        (pollRecorded id id r).2.1.tasks.get? id = some (.fetch f) ∧ f.spent = true) := by
  obtain ⟨polls, hpatience⟩ : ∃ polls, r'.1.patience [id] = polls + 1 := ⟨_, rfl⟩
  have hown := h.own
  generalize hget : r.1.tasks.get? id = o, hget' : r'.1.tasks.get? id = o' at hown
  cases hown with
  | finished | gone | left =>
    have hidle : r.1.tasks.get? id = none ∨ r.1.tasks.get? id = some .ended := by simp [hget]
    have hidle' : r'.1.tasks.get? id = none ∨ r'.1.tasks.get? id = some .ended := by simp [hget']
    obtain ⟨hlast, hstays⟩ := stays_pollRecorded hidle
    rw [hpatience]
    exact ⟨h.stays hstays (stays_drain hidle' polls), fun hmore => by cases hlast.symm.trans hmore⟩
  | told hspent =>
    obtain ⟨hlast, hshadows⟩ := h.finish hget hspent
    rw [hpatience]
    exact ⟨hshadows.stays (.refl _) (stays_drain (.inr hget') polls),
      fun hmore => by cases hlast.symm.trans hmore⟩
  | @running f hspent hplan hahead hopen hacts =>
    -- Three results are ahead at most: three polls of the one go as far as nine of the other.
    have hpasses : r'.1.patience [id] = 9 := patience_of_get hget'
    have hfew : f.call.stage.ahead < 3 := by
      unfold CallStage.ahead
      split <;> omega
    obtain ⟨hgathers, hminds⟩ := gathers_collect (r := r') (by omega : 3 ≤ 9) hspent hplan hfew
      (fun hnone => absurd hnone (Nat.ne_of_gt hahead)) hopen hget'
    have hpolled : f.poll r.1.cache = f.collect 3 r'.1.cache := by
      rw [Fetch.poll_of_running hspent, h.cache.eq]
    obtain ⟨events, htrace, hdoings⟩ := hminds.told
    rw [h.cache.eq] at htrace
    rw [hpasses]
    generalize f.collect 3 r'.1.cache = polled at hgathers hpolled
    generalize (drain (pollRecorded id id) 9 r').2 = last at hgathers hminds htrace hdoings
    cases hgathers with
    | @waits f' c _ hspent' hplan' hahead' hcache hopen' hlast =>
      have htask : (Task.fetch f).poll r.1.cache = (.answer .pending, .fetch f', c) := by
        unfold Task.poll
        dsimp only
        rw [hpolled]
        rfl
      rw [pollRecorded_of_get hget htask (hcache ▸ htrace)]
      refine ⟨h.gathered hminds hcache ?_, fun h => by cases h⟩
      rw [hlast]
      refine .running hspent' hplan' hahead' hopen' ?_
      rw [hdoings, did_append, ← hacts]
      exact congrArg (r.2 ++ ·) (List.append_nil _)
    | @tells result f' c _ before hspent' hnone hcache hbefore hended hlast =>
      have htask : (Task.fetch f).poll r.1.cache =
          (.answer (.item (Item.ofResult false result)), .fetch f', c) := by
        unfold Task.poll
        dsimp only
        rw [hpolled]
        rfl
      rw [pollRecorded_of_get hget htask (hcache ▸ htrace)]
      refine ⟨h.gathered hminds hcache ?_, fun _ => ⟨f', Table.get?_insert_self _ _ _, hspent'⟩⟩
      rw [hlast]
      refine .told hspent' hnone hbefore hended ?_
      rw [hdoings, did_append, ← hacts, List.append_assoc]
      rfl

/-- The same where both are drained. -/
theorem gather_drain (h : Shadows policy id r r') :
    Shadows policy id (drain (pollRecorded id id) (r.1.patience [id]) r).2
      (drain (pollRecorded id id) (r'.1.patience [id]) r').2 := by
  obtain ⟨hshadows, hmore⟩ := h.gather
  obtain ⟨polls, hpatience⟩ : ∃ polls, r.1.patience [id] = polls + 1 := ⟨_, rfl⟩
  rw [hpatience, drain_succ]
  split
  · rename_i hcontinues
    obtain ⟨f, hget, hspent⟩ := hmore hcontinues
    -- The task goes on only to tell its end.
    cases polls with
    | zero => exact hshadows
    | succ polls =>
      obtain ⟨hlast, hfinished⟩ := hshadows.finish hget hspent
      rw [drain_succ, hlast]
      exact hfinished
  · exact hshadows

end SideBySide

/-! ## Steps -/

/-- Whether a step polls or drops a task by name. -/
def Step.handles (id : String) : Step P A V → Bool
  | .poll id' | .drain id' | .drop id' => id' = id
  | .join ids => id ∈ ids
  | _ => false

/-- The step that drains the task with the name, in the place of one that polls it. -/
def Step.collecting (id : String) : Step P A V → Step P A V
  | .poll id' => if id' = id then .drain id' else .poll id'
  | st => st

/-- A report, but for the answer of a step that handles the task with the name. -/
def Report.hushed (id : String) (st : Step P A V) (report : Report P A V E) : Report P A V E :=
  if st.handles id then { report with response := .nothing } else report

variable {s s' : Session P A V E} {st : Step P A V} {steps : List (Step P A V)}

/-- A step that does not poll the task records nothing of it. -/
theorem stepRecorded_of_not_polled (hpolls : ∀ ids, st.polled = some ids → id ∉ ids)
    (r : Recorded P A V E) : stepRecorded id r st = ((r.1.step st).2, r.2) := by
  have hother : ∀ polled, polled ≠ id → ∀ r' : Recorded P A V E, r'.2 = r.2 →
      (pollRecorded id polled r').2.2 = r.2 := by
    intro polled hne r' hsame
    unfold pollRecorded
    dsimp only
    rwa [if_neg hne]
  refine Prod.ext (fst_stepRecorded id r st) ?_
  cases st with
  | poll polled =>
    have hne : polled ≠ id := fun heq => hpolls _ rfl (by rw [heq]; exact List.mem_singleton_self _)
    exact hother polled hne _ rfl
  | drain polled =>
    have hne : polled ≠ id := fun heq => hpolls _ rfl (by rw [heq]; exact List.mem_singleton_self _)
    exact drain_keeps (K := fun r' : Recorded P A V E => r'.2 = r.2) (hother polled hne) _ rfl
  | join ids =>
    refine join_keeps (K := fun r' : Recorded P A V E => r'.2 = r.2) (fun polled hmem => ?_) _ rfl
    exact hother polled fun heq => hpolls ids rfl (heq ▸ hmem)
  | _ => rfl

/-- A step that looks at the state of the session sees its cache. -/
theorem response_of_inspects (hinspects : st.inspects = true) (hcache : s'.cache = s.cache) :
    (s'.perform st).1 = (s.perform st).1 := by
  cases st with
  | ask query =>
    unfold perform ask
    rw [hcache]
  | overview =>
    unfold perform summary
    rw [hcache]
  | _ => cases hinspects

namespace SideBySide

omit [DecidableEq P] [DecidableEq A] [DecidableEq V] in
/-- Both traces may be emptied. -/
theorem unheard (h : Shadows policy id r r') :
    Shadows policy id (r.1.fresh, r.2) (r'.1.fresh, r'.2) := by
  refine ⟨⟨?_, h.cache.flights⟩, h.closed, h.others, h.own⟩
  have henv : r'.1.cache.env = r.1.cache.env := h.cache.env
  unfold Session.fresh
  dsimp only
  rw [henv]

/-- A step that does not poll the two tasks is the same in both sessions. -/
theorem step_other (h : Shadows policy id r r') (hbegins : ¬ st.begins id)
    (hpolls : ∀ ids, st.polled = some ids → id ∉ ids) :
    Shadows policy id ((r.1.step st).2, r.2) ((r'.1.step st).2, r'.2) ∧
      (st.handles id = false → (r'.1.step st).1.response = (r.1.step st).1.response) := by
  have hfresh := h.unheard
  have hpaired : TaskPair Environment.Same (Gathering policy r.2 r'.2) := taskPair_gathering
  dsimp only [Shadows]
  rw [response_step, response_step, step_snd, step_snd, h.closed]
  split
  · exact ⟨hfresh, fun _ => rfl⟩
  · cases hpolled : st.polled with
    | none =>
      obtain ⟨hanswers, hafter⟩ := SideBySide.perform hpaired hfresh hbegins hpolled
      refine ⟨hafter, fun hhandles => ?_⟩
      cases hinspects : st.inspects with
      | true => exact response_of_inspects hinspects hfresh.cache.eq
      | false =>
        refine hanswers hinspects fun hdrop => ?_
        rw [hdrop] at hhandles
        exact absurd hhandles (by simp [Step.handles])
    | some ids =>
      have hnot := hpolls ids hpolled
      have hne : ∀ id' ∈ ids, id' ≠ id := fun id' hmem heq => hnot (heq ▸ hmem)
      have hpatience := hfresh.patience hpaired.accord fun id' hmem heq => absurd heq (hne id' hmem)
      obtain ⟨hanswer, hafter⟩ := perform_polls hpolled
        (fun id' hmem _ _ hrel => hrel.pollTask_other hpaired.accord (hne id' hmem))
        hpatience hfresh
      exact ⟨hafter, fun _ => hanswer⟩

/-- A step of the first session, and the step of the second one that drains the request where the
first polls its task. -/
theorem step_collecting (h : Shadows policy id r r') (hbegins : ¬ st.begins id)
    (hmixes : st.mixes (· = id) = false) :
    Shadows policy id (stepRecorded id r st) (stepRecorded id r' (st.collecting id)) ∧
      (st.handles id = false →
        (r'.1.step (st.collecting id)).1.response = (r.1.step st).1.response) := by
  by_cases hpoll : st = .poll id
  · subst hpoll
    have hcollecting : (Step.poll id : Step P A V).collecting id = .drain id := if_pos rfl
    rw [hcollecting]
    exact ⟨h.unheard.gather.1, fun hhandles => absurd hhandles (by simp [Step.handles])⟩
  have hcollecting : st.collecting id = st := by
    cases st with
    | poll id' => exact if_neg fun heq => hpoll (by rw [heq])
    | _ => rfl
  rw [hcollecting]
  by_cases hdrain : st = .drain id
  · subst hdrain
    exact ⟨h.unheard.gather_drain, fun hhandles => absurd hhandles (by simp [Step.handles])⟩
  have hpolls : ∀ ids, st.polled = some ids → id ∉ ids := by
    intro ids hpolled hmem
    cases st with
    | poll id' =>
      cases hpolled
      exact hpoll (by rw [List.mem_singleton.mp hmem])
    | drain id' =>
      cases hpolled
      exact hdrain (by rw [List.mem_singleton.mp hmem])
    | join ids' =>
      cases hpolled
      have hnone : ∀ id' ∈ ids, id' ≠ id := by simpa [Step.mixes] using hmixes
      exact hnone id hmem rfl
    | _ => cases hpolled
  rw [stepRecorded_of_not_polled hpolls, stepRecorded_of_not_polled hpolls]
  exact h.step_other hbegins hpolls

/-- Sessions that are left so have reported the same, if they have answered the same. -/
theorem hushed {st' : Step P A V}
    (h : Shadows policy id ((s.step st).2, acts) ((s'.step st').2, acts'))
    (hresponse : st.handles id = false → (s'.step st').1.response = (s.step st).1.response) :
    (s'.step st').1.hushed id st = (s.step st).1.hushed id st := by
  have hreport : ∀ (s : Session P A V E) (st : Step P A V), (s.step st).1 =
      { response := (s.step st).1.response
        calls := (s.step st).2.cache.env.called.length
        cancelled := (s.step st).2.cache.env.cancelled
        ongoing := if (s.step st).2.closed then none else some (s.step st).2.cache.ongoing
        events := (s.step st).2.cache.env.trace } := fun _ _ => rfl
  have hcache : (s'.step st').2.cache = (s.step st).2.cache := h.cache.eq
  have hclosed : (s'.step st').2.closed = (s.step st).2.closed := h.closed
  unfold Report.hushed
  rw [hreport s', hreport s, hcache, hclosed]
  split
  · rfl
  · rename_i hhandles
    rw [hresponse (Bool.eq_false_of_not_eq_true hhandles)]

/-- All the steps of a run. -/
theorem run_collecting (h : Shadows policy id r r') (hbegins : ∀ st ∈ steps, ¬ st.begins id)
    (hmixes : ∀ st ∈ steps, st.mixes (· = id) = false) :
    Shadows policy id (steps.foldl (stepRecorded id) r)
        ((steps.map (Step.collecting id)).foldl (stepRecorded id) r') ∧
      List.zipWith (Report.hushed id) steps (r'.1.run (steps.map (Step.collecting id))).1 =
        List.zipWith (Report.hushed id) steps (r.1.run steps).1 := by
  induction steps generalizing r r' with
  | nil => exact ⟨h, rfl⟩
  | cons st rest ih =>
    have hst : st ∈ st :: rest := List.mem_cons_self ..
    obtain ⟨hafter, hresponse⟩ := h.step_collecting (hbegins st hst) (hmixes st hst)
    obtain ⟨hlast, hreports⟩ :=
      ih hafter (fun st' hst' => hbegins st' (List.mem_cons_of_mem _ hst'))
        fun st' hst' => hmixes st' (List.mem_cons_of_mem _ hst')
    rw [fst_stepRecorded, fst_stepRecorded] at hreports
    refine ⟨hlast, ?_⟩
    have hreport : (r'.1.step (st.collecting id)).1.hushed id st =
        (r.1.step st).1.hushed id st := by
      dsimp only [Shadows] at hafter
      rw [fst_stepRecorded, fst_stepRecorded] at hafter
      exact hafter.hushed hresponse
    exact congrArg₂ List.cons hreport hreports

end SideBySide

end Session

end ReadThrough
