import ReadThrough.Proofs.Call.Collecting
import ReadThrough.Proofs.Load.Source
import ReadThrough.Proofs.Session.Conformance
import ReadThrough.Proofs.Session.Effects
/-!
# Proofs: who reports that nothing is stored

No work comes to the report that nothing usable is stored, whatever the source does, so that no load
and no watch does. A request makes it only if it asks for nothing but what is stored. All others
never do, under their names (`Session.never_notCached`) or made at once
(`Session.never_notCached_runTask`).
-/

namespace ReadThrough

variable {P A V E : Type}

/-- A result does not report that nothing usable is stored. -/
def Genuine (result : Result V E) : Prop := result ≠ .error .notCached

/-- A delivery does not report that nothing is stored. -/
theorem genuine_ok (delivery : Delivery V) : Genuine (.ok delivery : Result V E) := nofun

/-! ## Loads -/

/-- Whatever a call of the source comes to, it does not report that nothing is stored. -/
theorem Work.Fits.genuine {behaviour : Behaviour V E} {outcome : Outcome (Result V E)}
    (h : Work.Fits behaviour outcome) : Genuine (Load.resultOf outcome) := by
  intro hresult
  have hfailure : outcome.failure? = some .notCached := by
    cases outcome with
    | panicked message => cases hresult
    | value result =>
      obtain rfl : result = .error .notCached := hresult
      rfl
  rw [h.published] at hfailure
  cases behaviour with
  | refuses message => cases hfailure
  | replies reply =>
    have hending : reply.ending.failure? = some .notCached := hfailure
    cases hreply : reply.ending with
    | value value => rw [hreply] at hending; cases hending
    | error error => rw [hreply] at hending; cases hending
    | panic message => rw [hreply] at hending; cases hending

/-- No outcome of an execution reports that nothing is stored. -/
def Flights.Genuine (f : Flights (Key P A) (Work P A V E) (Result V E)) : Prop :=
  ∀ e outcome, f.stage? e = some (.settled outcome) → ReadThrough.Genuine (Load.resultOf outcome)

variable [DecidableEq P] [DecidableEq A]

/-- Whatever the source does, work ends with no report that nothing is stored. -/
theorem Work.genuine_pollAs {execution : Option Nat} {work : Work P A V E}
    {env env' : Environment P A V E} {outcome : Outcome (Result V E)}
    (h : work.pollAs execution env = (.finished outcome, env')) :
    Genuine (Load.resultOf outcome) := by
  obtain ⟨source, hcomes⟩ := exists_comes work env
  unfold pollAs at h
  rcases hpoll : work.poll env with ⟨rest | outcome', env₁⟩ <;> rw [hpoll] at h hcomes
  · cases h
  · cases h
    exact Fits.genuine hcomes

namespace Flights.Genuine

variable {w w' : World P A V E} {events : List (Event P A V E)}

omit [DecidableEq P] [DecidableEq A] in
/-- Where no settled outcome is new, none is a report that nothing is stored. -/
theorem settledAlike {f f' : Flights (Key P A) (Work P A V E) (Result V E)} (h : f.Genuine)
    (hsettled : f.SettledAlike f') : f'.Genuine :=
  fun e outcome hstage => h e outcome ((hsettled e outcome).mp hstage)

/-- A move settles no execution with the report that nothing is stored. -/
theorem does (h : w.cache.flights.Genuine) (hdoes : Does w events w') :
    w'.cache.flights.Genuine := by
  cases hdoes with
  | looks _ _ hflights => rwa [hflights]
  | clears => exact h
  | rests _ _ hsettled => exact h.settledAlike hsettled
  | receives _ _ hsettled => exact h.settledAlike hsettled
  | @polls _ execution work rest progress env' _ _ _ hpoll _ _ _ hadvanced =>
    cases execution with
    | none =>
      have hsame : w'.cache.flights = w.cache.flights := hadvanced
      rwa [hsame]
    | some e =>
      obtain ⟨-, hnow, hothers⟩ := hadvanced
      intro e' outcome hstage
      by_cases he : e' = e
      · rw [he, hnow] at hstage
        cases progress with
        | waiting left => cases hstage
        | finished outcome' =>
          obtain rfl : outcome' = outcome := Stage.settled.inj (Option.some.inj hstage)
          exact Work.genuine_pollAs hpoll
      · rw [hothers e' he] at hstage
        exact h e' outcome hstage

/-- Moves settle no execution with the report that nothing is stored. -/
theorem moves (hmoves : Moves w w') (h : w.cache.flights.Genuine) : w'.cache.flights.Genuine := by
  induction hmoves with
  | refl => exact h
  | tail _ hlast ih =>
    obtain ⟨events, -, hdoes⟩ := hlast.reaches
    exact ih.does hdoes

end Flights.Genuine

/-- Whoever waits for an execution receives no report that nothing is stored. -/
theorem Load.genuine_pollAttached {c : Cache P A V E} (h : c.flights.Genuine) {e : Nat}
    {result : Result V E} (hresult : (pollAttached e c).1 = .finished result) : Genuine result := by
  have hcases := Flights.poll_cases (Work.pollAs (some e)) c.flights e c.env
  unfold pollAttached at hresult
  generalize c.flights.poll (Work.pollAs (some e)) e c.env = polled at hcases hresult
  rcases hcases with ⟨-, rfl⟩ | hpolls
  · cases hresult
  · cases hpolls with
    | waits => cases hresult
    | settles hx hs hw =>
      cases hresult
      exact Work.genuine_pollAs hw
    | @receives x outcome hx hs =>
      cases hresult
      exact h e outcome (hs ▸ Flights.stage?_of_getElem? hx)

/-- A load of a single caller ends with no report that nothing is stored. -/
theorem Load.genuine_pollAlone {c : Cache P A V E} {work : Work P A V E} {result : Result V E}
    (hresult : (pollAlone work c).1 = .finished result) : Genuine result := by
  unfold pollAlone at hresult
  rcases hpoll : work.pollAs none c.env with ⟨rest | outcome, env⟩ <;> rw [hpoll] at hresult
  · cases hresult
  · cases hresult
    exact Work.genuine_pollAs hpoll

/-- Where no outcome of an execution reports that nothing is stored, no load does. -/
theorem Flights.Genuine.earns {f : Flights (Key P A) (Work P A V E) (Result V E)} (h : f.Genuine) :
    Load.Earns ReadThrough.Genuine f := by
  rintro c load result rfl hresult
  cases load with
  | attached e => exact Load.genuine_pollAttached h hresult
  | alone work => exact Load.genuine_pollAlone hresult
  | unstarted key share =>
    cases share with
    | false => exact Load.genuine_pollAlone hresult
    | true =>
      have hentered := h.settledAlike (c.flights.settledAlike_enter key (.fresh key))
      exact Load.genuine_pollAttached hentered hresult

/-- A poll of a load leaves no such report among the outcomes, and ends with none. -/
theorem Load.genuine_poll (load : Load P A V E) {c : Cache P A V E} (h : c.flights.Genuine) :
    (load.poll c).2.flights.Genuine := by
  have hmoves := load.moves_poll c 0
  exact Flights.Genuine.moves hmoves h

/-- A poll of a request leaves no such report among the outcomes. -/
theorem Call.genuine_poll (call : Call P A V E) {c : Cache P A V E} (h : c.flights.Genuine) :
    (call.poll c).2.2.flights.Genuine := by
  have hmoves := call.moves_poll c 0
  exact Flights.Genuine.moves hmoves h

/-! ## Watches -/

/-- A load that is tried again leaves no such report among the outcomes, and ends with none. -/
theorem Load.genuine_pollRetrying (key : Key P A) (retries remaining : Nat) (load : Load P A V E)
    {c : Cache P A V E} (h : c.flights.Genuine) :
    (load.pollRetrying key retries remaining c).2.flights.Genuine ∧
      ∀ result, (load.pollRetrying key retries remaining c).1 = .finished result →
        Genuine result := by
  -- By induction on the tries that remain.
  induction remaining generalizing load c with
  | zero =>
    have hresult := h.earns c load
    have hafter := load.genuine_poll h
    unfold pollRetrying
    rcases hpoll : load.poll c with ⟨rest | ⟨failure | delivery⟩, c'⟩ <;>
      rw [hpoll] at hresult hafter
    · exact ⟨hafter, fun _ h => by cases h⟩
    · exact ⟨hafter, fun result heq => by cases heq; exact hresult _ rfl rfl⟩
    · exact ⟨hafter, fun result heq => by cases heq; exact genuine_ok delivery⟩
  | succ remaining ih =>
    have hafter := load.genuine_poll h
    unfold pollRetrying
    rcases hpoll : load.poll c with ⟨rest | ⟨failure | delivery⟩, c'⟩ <;> rw [hpoll] at hafter
    · exact ⟨hafter, fun _ h => by cases h⟩
    · have hnoted : (c'.note (.retried (retries - remaining) retries)).flights.Genuine := hafter
      exact ih _ hnoted
    · exact ⟨hafter, fun result heq => by cases heq; exact genuine_ok delivery⟩

namespace Watch

variable {w : Watch P A V E} {c : Cache P A V E}

/-- A watch is not answered by its call that nothing is stored. -/
theorem genuine_nextAnswer (h : c.flights.Genuine) :
    (w.nextAnswer c).2.2.flights.Genuine ∧ (w.nextAnswer c).1 ≠ some (.error .notCached) := by
  unfold nextAnswer
  cases w.inquiry with
  | answered => exact ⟨h, nofun⟩
  | loading remaining load =>
    obtain ⟨hafter, hresult⟩ :=
      Load.genuine_pollRetrying (Key.ofParams w.params) w.retries remaining load h
    dsimp only
    rcases hpoll : load.pollRetrying (Key.ofParams w.params) w.retries remaining c with
      ⟨rest | result, c'⟩ <;> rw [hpoll] at hafter hresult
    · exact ⟨hafter, nofun⟩
    · refine ⟨hafter, fun hanswer => hresult result rfl ?_⟩
      have hmapped : result.map (·.value) = .error .notCached := Option.some.inj hanswer
      cases result with
      | ok delivery => cases hmapped
      | error failure =>
        cases hmapped
        rfl

omit [DecidableEq A] in
/-- A watch reads in no update that nothing is stored. -/
theorem genuine_nextUpdate (h : c.flights.Genuine) :
    (w.nextUpdate c).2.2.flights.Genuine ∧ (w.nextUpdate c).1 ≠ some (.error .notCached) := by
  have hmissed : ∀ missed, (c.noteMissed "updates" missed).flights.Genuine := fun missed => by
    unfold Cache.noteMissed
    split
    · exact h
    · exact h
  unfold nextUpdate
  dsimp only
  split
  · exact ⟨hmissed _, nofun⟩
  · exact ⟨hmissed _, nofun⟩
  · exact ⟨hmissed _, nofun⟩

/-- A watch takes no item that says that nothing is stored. -/
theorem genuine_next (h : c.flights.Genuine) :
    (w.next c).2.2.flights.Genuine ∧ (w.next c).1 ≠ some (.error .notCached) := by
  unfold next
  dsimp only
  split
  · have hfirst := genuine_nextUpdate (w := { w with turn := w.turn.other }) h
    rcases hnext : Watch.nextUpdate { w with turn := w.turn.other } c with
      ⟨_ | item, w', c'⟩ <;> rw [hnext] at hfirst
    · exact genuine_nextAnswer hfirst.1
    · exact hfirst
  · have hfirst := genuine_nextAnswer (w := { w with turn := w.turn.other }) h
    rcases hnext : Watch.nextAnswer { w with turn := w.turn.other } c with
      ⟨_ | item, w', c'⟩ <;> rw [hnext] at hfirst
    · exact genuine_nextUpdate hfirst.1
    · exact hfirst

variable [DecidableEq V]

/-- A watch does not report that nothing is stored. -/
theorem genuine_showNext (asks : Nat) (h : c.flights.Genuine) :
    (w.showNext asks c).2.2.flights.Genuine ∧
      (w.showNext asks c).1 ≠ .item (.error .notCached) := by
  induction asks generalizing w c with
  | zero => exact ⟨h, fun h => by cases h⟩
  | succ asks ih =>
    have hnext := genuine_next (w := w) h
    unfold showNext
    rcases hasked : w.next c with ⟨_ | ⟨failure | value⟩, w', c'⟩ <;> rw [hasked] at hnext
    · exact ⟨hnext.1, fun h => by cases h⟩
    · refine ⟨hnext.1, fun hanswer => hnext.2 ?_⟩
      cases hanswer
      rfl
    · dsimp only
      split
      · exact ih hnext.1
      · exact ⟨hnext.1, fun h => by cases h⟩

end Watch

/-! ## Tasks -/

/-- Whether a request asks for nothing but what is stored. -/
def Request.onlyLooks : Request P A V → Bool
  | .stream _ _ (.policy .only) _ | .fetch _ .only _ => true
  | _ => false

omit [DecidableEq P] [DecidableEq A] in
/-- A result that makes no such report is answered by no such item. -/
theorem Genuine.answer {result : Result V E} (h : Genuine result) (whole : Bool) :
    TaskAnswer.answer ((Answer.item result).map (Item.ofResult whole)) ≠
      .answer (.item (.failure .notCached : Item P V E)) := by
  intro hanswer
  have hitem : (Item.ofResult whole result : Item P V E) = .failure .notCached :=
    Answer.item.inj (TaskAnswer.answer.inj hanswer)
  cases result with
  | error failure =>
    cases hitem
    exact h rfl
  | ok delivery => cases whole <;> cases hitem

namespace Task

/-- A task does not ask for nothing but what is stored, and does not report it later either. -/
def Candid : Task P A V E → Prop
  | .call _ request => request.plan ≠ .policy .only ∧ request.stage.Earned Genuine
  | .fetch request => request.spent = false → ∃ policy, policy ≠ .only ∧
      request.call.plan = .policy policy ∧ 0 < request.call.stage.ahead ∧
      request.call.stage.Earned Genuine
  | .watch _ | .updates _ | .errors _ | .ended => True

variable {task : Task P A V E} {c : Cache P A V E}

omit [DecidableEq P] [DecidableEq A] in
/-- A new task is candid, unless its request asks for nothing but what is stored. -/
theorem candid_create {request : Request P A V} (h : request.onlyLooks = false)
    (c : Cache P A V E) :
    (create c request).1.Candid ∧ (create c request).2.flights = c.flights := by
  have hstage : ∀ (key : Key P A) (plan : Plan V) (terms : Terms),
      (Call.create key plan terms : Call P A V E).stage.Earned Genuine ∧
        0 < (Call.create key plan terms : Call P A V E).stage.ahead := by
    intro key plan terms
    unfold Call.create
    dsimp only
    split
    · exact ⟨nofun, Nat.two_pos⟩
    · exact ⟨nofun, Nat.one_pos⟩
  cases request with
  | stream whole key plan terms =>
    refine ⟨⟨fun honly => ?_, (hstage key plan terms).1⟩, rfl⟩
    have hplan : plan = .policy .only := honly
    rw [hplan] at h
    cases h
  | fetch params policy terms =>
    obtain ⟨hearned, hahead⟩ := hstage (Key.ofParams params) (.policy policy) terms
    refine ⟨fun _ => ⟨policy, fun honly => ?_, rfl, hahead, hearned⟩, rfl⟩
    rw [honly] at h
    cases h
  | watch params retries => exact ⟨trivial, rfl⟩
  | updates => exact ⟨trivial, rfl⟩
  | errors => exact ⟨trivial, rfl⟩

variable [DecidableEq V]

/-- A poll of a candid request does not yield the report, and leaves the request candid. -/
theorem candid_pollCall {whole : Bool} {call : Call P A V E} (hflights : c.flights.Genuine)
    (h : (Task.call whole call).Candid) :
    ((Task.call whole call).poll c).1 ≠ .answer (.item (.failure .notCached)) ∧
      ((Task.call whole call).poll c).2.1.Candid := by
  obtain ⟨hplan, hstage⟩ := h
  unfold poll
  dsimp only
  rcases Nat.eq_zero_or_pos call.stage.ahead with hnone | hsome
  · rw [Call.poll_of_spent hnone]
    exact ⟨nofun, trivial⟩
  · have hadvances := Call.advances_poll (c := c) genuine_ok hflights.earns
      (fun honly => absurd honly hplan) hsome hstage
    generalize call.poll c = polled at hadvances
    cases hadvances with
    | waits hahead hstage => exact ⟨nofun, hplan, hstage⟩
    | yields hearned hahead hstage => exact ⟨hearned.answer whole, hplan, hstage⟩
    | panics => exact ⟨nofun, trivial⟩

/-- A poll of a candid fetch does not yield the report, and leaves the fetch candid. -/
theorem candid_pollFetch {f : Fetch P A V E} (hflights : c.flights.Genuine)
    (h : (Task.fetch f).Candid) :
    ((Task.fetch f).poll c).1 ≠ .answer (.item (.failure .notCached)) ∧
      ((Task.fetch f).poll c).2.1.Candid := by
  unfold poll
  dsimp only
  cases hspent : f.spent with
  | true =>
    have hpoll : f.poll c = (.done, f, c) := by
      unfold Fetch.poll
      rw [if_pos hspent]
    rw [hpoll]
    exact ⟨nofun, trivial⟩
  | false =>
    obtain ⟨policy, hpolicy, hplan, hahead, hstage⟩ := h hspent
    have hkept := fun (call : Call P A V E) (c : Cache P A V E) (h : c.flights.Genuine) =>
      call.genuine_poll h
    have hadvances := Fetch.advances_poll genuine_ok Flights.Genuine.earns hkept
      (fun honly => absurd honly hpolicy) hspent hplan hahead hstage hflights
    generalize f.poll c = polled at hadvances
    cases hadvances with
    | waits _ hplan hahead hstage =>
      exact ⟨nofun, fun _ => ⟨policy, hpolicy, hplan, hahead, hstage⟩⟩
    | yields hspent hearned =>
      refine ⟨hearned.answer false, fun hrunning => ?_⟩
      cases hspent.symm.trans hrunning

/-- No poll of such a task reports that nothing is stored. -/
theorem candid_poll (hflights : c.flights.Genuine) (h : task.Candid) :
    (task.poll c).1 ≠ .answer (.item (.failure .notCached)) ∧ (task.poll c).2.1.Candid := by
  cases task with
  | call whole call => exact candid_pollCall hflights h
  | fetch f => exact candid_pollFetch hflights h
  | ended => exact ⟨nofun, trivial⟩
  | watch w =>
    have hshown := Watch.genuine_showNext (w := w)
      ((c.env.updates.unread w.position).length + 3) hflights
    unfold poll Watch.poll
    dsimp only
    generalize w.showNext ((c.env.updates.unread w.position).length + 3) c = shown at hshown
    obtain ⟨answer, w', c'⟩ := shown
    cases answer with
    | pending => exact ⟨nofun, trivial⟩
    | done => exact ⟨nofun, trivial⟩
    | panicked message => exact ⟨nofun, trivial⟩
    | item item =>
      refine ⟨fun hanswer => hshown.2 ?_, trivial⟩
      cases item with
      | ok value => cases hanswer
      | error failure =>
        cases hanswer
        rfl
  | updates position =>
    unfold poll
    dsimp only
    split
    · exact ⟨nofun, trivial⟩
    · exact ⟨nofun, trivial⟩
    · exact ⟨nofun, trivial⟩
  | errors position =>
    unfold poll
    dsimp only
    split
    · exact ⟨nofun, trivial⟩
    · exact ⟨nofun, trivial⟩
    · exact ⟨nofun, trivial⟩

end Task

/-! ## Sessions -/

variable [DecidableEq V]

namespace Session

/-- No outcome of an execution reports that nothing is stored, and all tasks are sound. -/
structure Candid (s : Session P A V E) : Prop where
  sound : s.Sound
  flights : s.cache.flights.Genuine

variable {s s' : Session P A V E} {id : String}

omit [DecidableEq V] in
/-- Moves leave a session candid. -/
theorem Candid.goes (h : s.Candid) (hgoes : Goes s s') : s'.Candid :=
  ⟨hgoes.sound, Flights.Genuine.moves hgoes.moves h.flights⟩

/-- A step leaves a session candid. -/
theorem Candid.step (h : s.Candid) (st : Step P A V) : (s.step st).2.Candid := by
  have hfresh : s.fresh.Candid := ⟨h.sound, h.flights⟩
  cases hput : st.isPut with
  | false => exact hfresh.goes (goes_step h.sound hput)
  | true =>
    obtain ⟨key, entry, rfl⟩ := Step.eq_put_of_isPut hput
    refine ⟨sound_put h.sound key entry, ?_⟩
    rw [step_snd]
    split
    · exact h.flights
    · exact h.flights

/-- A run leaves a session candid. -/
theorem Candid.run (h : s.Candid) (steps : List (Step P A V)) : (s.run steps).2.Candid := by
  induction steps generalizing s with
  | nil => exact h
  | cons st rest ih => exact ih (h.step st)

omit [DecidableEq P] [DecidableEq A] [DecidableEq V] in
/-- A session with a new cache is candid. -/
theorem candid_create (setup : Setup (Store (Key P A) V)) (source : Source P V E) :
    (create (Cache.create setup source)).Candid where
  sound := sound_create _
  flights := fun e outcome hstage => by cases hstage

/-! ## Following a task -/

omit [DecidableEq P] [DecidableEq A] [DecidableEq V] in
/-- What is yielded in a poll is the item of its answer. -/
theorem yielded_of_mem_actsOf {answer : TaskAnswer (Item P V E)} {item : Item P V E}
    (h : .yielded item ∈ actsOf s s' answer) : answer = .answer (.item item) := by
  unfold actsOf at h
  split at h
  · rename_i given
    rcases List.mem_append.mp h with h | h
    · exact absurd h (not_yielded_did item _)
    · cases given with
      | item item' =>
        cases List.mem_singleton.mp h
        rfl
      | done => cases List.mem_singleton.mp h
      | panicked message => cases List.mem_singleton.mp h
      | pending => cases h
  · exact absurd h (not_yielded_did item _)
  · exact absurd h (not_yielded_did item _)

/-- The task with the name, if there is one, has not reported that nothing is stored, and will
not. -/
structure Reticent (id : String) (r : Recorded P A V E) : Prop where
  candid : r.1.Candid
  task : ∀ task, r.1.tasks.get? id = some task → task.Candid
  never : .yielded (.failure .notCached) ∉ r.2

namespace Reticent

/-- A reticent task stays so when it is polled. -/
theorem pollTask {acts : List (Act P A V E)} (h : Reticent id (s, acts)) :
    Reticent id ((s.pollTask id).2, acts ++ actsOf s (s.pollTask id).2 (s.pollTask id).1) := by
  have hcandid : (s.pollTask id).2.Candid := h.candid.goes (goes_pollTask h.candid.sound id)
  have hpoll : (s.pollTask id).1 ≠ .answer (.item (.failure .notCached)) ∧
      ∀ task, (s.pollTask id).2.tasks.get? id = some task → task.Candid := by
    unfold Session.pollTask
    cases hget : s.tasks.get? id with
    | none =>
      refine ⟨nofun, fun task hafter => ?_⟩
      cases hget.symm.trans hafter
    | some task =>
      obtain ⟨hanswer, htask⟩ := Task.candid_poll h.candid.flights (h.task task hget)
      refine ⟨hanswer, fun task' hafter => ?_⟩
      have hnow : some (task.poll s.cache).2.1 = some task' :=
        (Table.get?_insert_self _ _ _).symm.trans hafter
      exact Option.some.inj hnow ▸ htask
  refine ⟨hcandid, hpoll.2, fun hmem => ?_⟩
  rcases List.mem_append.mp hmem with hmem | hmem
  · exact h.never hmem
  · exact hpoll.1 (yielded_of_mem_actsOf hmem)

/-- A task stays reticent whatever happens to the others. -/
theorem lasting (id : String) : Lasting id (Reticent (P := P) (A := A) (V := V) (E := E) id) where
  fresh h := ⟨⟨h.candid.sound, h.candid.flights⟩, h.task, h.never⟩
  self h := h.pollTask
  other polled htask h := by
    have hcandid := h.candid.goes (goes_pollTask h.candid.sound polled)
    exact ⟨hcandid, fun task hget => h.task task (htask.symm.trans hget), h.never⟩
  step st htask h := by
    refine ⟨h.candid.step st, fun task hget => ?_, h.never⟩
    rcases htask with hsame | hgone
    · exact h.task task (hsame.symm.trans hget)
    · cases hgone.symm.trans hget

end Reticent

/-- Requests that do not ask for nothing but what is stored never report that nothing is, however
they are polled. -/
theorem never_notCached (h : s.Candid) (hopen : s.closed = false) (id : String)
    {request : Request P A V} (hrequest : request.onlyLooks = false) {steps : List (Step P A V)}
    (hbegins : ∀ st ∈ steps, ¬ st.begins id) :
    .yielded (.failure .notCached) ∉ (runRecorded id (s.step (.begin id request)).2 steps).2 := by
  have hbegun : Reticent id ((s.step (.begin id request)).2, []) := by
    refine ⟨h.step _, fun task hget => ?_, List.not_mem_nil⟩
    have hnow : (s.step (.begin id request)).2.tasks.get? id =
        some (Task.create s.fresh.cache request).1 := by
      rw [(s.step_of_taken (.begin id request) (.inl hopen)).2]
      exact Table.get?_insert_self _ _ _
    exact Option.some.inj (hnow.symm.trans hget) ▸ (Task.candid_create hrequest _).1
  exact ((Reticent.lasting id).run hbegins hbegun).never

/-- The same of requests that are made at once. -/
theorem never_notCached_runTask (h : s.Candid) {request : Request P A V}
    (hrequest : request.onlyLooks = false) :
    .answer (.item (.failure .notCached)) ∉ (s.runTask request).1 := by
  let Fine (p : Task P A V E × Cache P A V E) : Prop :=
    p.1.Candid ∧ p.1.Sound ∧ p.2.flights.Genuine
  have hpoll : ∀ p : Task P A V E × Cache P A V E, Fine p →
      (p.1.poll p.2).1 ≠ .answer (.item (.failure .notCached)) ∧ Fine (p.1.poll p.2).2 := by
    rintro ⟨task, c⟩ ⟨hcandid, hsound, hflights⟩
    obtain ⟨hanswer, hafter⟩ := Task.candid_poll hflights hcandid
    obtain ⟨hmoves, hsound'⟩ := Task.moves_poll hsound c 0
    exact ⟨hanswer, hafter, hsound', Flights.Genuine.moves hmoves hflights⟩
  obtain ⟨hcandid, hflights⟩ := Task.candid_create hrequest s.cache
  obtain ⟨-, hsound⟩ := Task.moves_create s.cache request 0
  have hfine : Fine (Task.create s.cache request) := by
    refine ⟨hcandid, hsound, ?_⟩
    rw [hflights]
    exact h.flights
  have hanswers : ∀ answer ∈ (s.runTask request).1,
      answer ≠ .answer (.item (.failure .notCached)) := forall_mem_drain hpoll _ hfine
  exact fun hmem => hanswers _ hmem rfl

end Session

end ReadThrough
