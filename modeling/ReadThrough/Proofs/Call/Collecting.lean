import ReadThrough.Fetch
/-!
# Proofs: the results of a request, one after another

A request that has results ahead waits, or yields one of them, which leaves fewer ahead
(`Call.advances_poll`). A request of which only the last value matters waits as the request does
(`Fetch.poll_of_pending`), and yields its last result with the poll that the request yields it
(`Fetch.poll_of_last`): there is one, so that nothing has to be made up (`Fetch.advances_poll`).
-/

namespace ReadThrough

variable {P A V E : Type}

/-- How many results may still be ahead of a request. -/
def CallStage.ahead : CallStage P A V E → Nat
  | .looking => 2
  | .loading _ | .rescuing _ => 1
  | .spent => 0

/-- The failure that a request keeps for later is one of which something holds. -/
def CallStage.Earned (earned : Result V E → Prop) (stage : CallStage P A V E) : Prop :=
  ∀ failure, stage = .rescuing failure → earned (.error failure)

variable [DecidableEq P] [DecidableEq A]

/-- Something holds of all results that loads come to, as the executions are. -/
def Load.Earns (earned : Result V E → Prop)
    (f : Flights (Key P A) (Work P A V E) (Result V E)) : Prop :=
  ∀ (c : Cache P A V E) (load : Load P A V E) (result : Result V E), c.flights = f →
    (load.poll c).1 = .finished result → earned result

/-- A lookup leaves the executions and their registry as they were. -/
theorem Cache.flights_of_lookup {c c' : Cache P A V E} {key : Key P A} {maxAge : Option Duration}
    {found : Option (Delivery V)} (h : c.lookup key maxAge = some (found, c')) :
    c'.flights = c.flights := by
  unfold lookup at h
  split at h
  · cases h
    rfl
  · cases h

namespace Call

/-- What a poll comes to of a request that has results ahead. Of each result that it yields
something holds. -/
inductive Advances (earned : Result V E → Prop) (call : Call P A V E) : Polled P A V E → Prop where
  | waits {stage : CallStage P A V E} {c : Cache P A V E} (hahead : 0 < stage.ahead)
      (hstage : stage.Earned earned) : Advances earned call (.pending, { call with stage }, c)
  | yields {result : Result V E} {stage : CallStage P A V E} {c : Cache P A V E}
      (hearned : earned result) (hahead : stage.ahead < call.stage.ahead)
      (hstage : stage.Earned earned) : Advances earned call (.item result, { call with stage }, c)
  | panics {test : V → Verdict} {message : String} {c : Cache P A V E}
      (hplan : call.plan = .judged test) :
      Advances earned call (.panicked message, { call with stage := .spent }, c)

variable {earned : Result V E → Prop} {call : Call P A V E} {c : Cache P A V E}

omit [DecidableEq P] [DecidableEq A] in
/-- A request that yields its last result has nothing ahead any more. -/
theorem advances_yieldLast (hahead : 0 < call.stage.ahead) {result : Result V E}
    (hearned : earned result) : Advances earned call (call.yieldLast result c) :=
  .yields hearned hahead nofun

/-- The rescue of a failed load waits with the failure kept, or yields the stored value or the
failure as the last result. -/
theorem advances_rescue (hok : ∀ delivery, earned (.ok delivery)) (hahead : 0 < call.stage.ahead)
    {failure : Failure E} (hearned : earned (.error failure)) :
    Advances earned call (call.rescue failure c) := by
  unfold rescue
  split
  · refine .waits Nat.one_pos fun failure' heq => ?_
    cases heq
    exact hearned
  · exact advances_yieldLast hahead (hok _)
  · exact advances_yieldLast hahead hearned

/-- Whatever a load comes to, the request yields a result of which something holds and goes on. -/
theorem advances_settle (hok : ∀ delivery, earned (.ok delivery)) (hahead : 0 < call.stage.ahead)
    {result : Result V E} (hearned : earned result) :
    Advances earned call (call.settle result c) := by
  unfold settle
  split
  · exact advances_rescue hok hahead hearned
  · exact advances_yieldLast hahead hearned

section Loads

variable (hok : ∀ delivery, earned (.ok delivery)) (hloads : Load.Earns earned c.flights)
include hok hloads

/-- A request that polls its load either waits on or settles with what the load comes to. -/
theorem advances_pollLoad (hahead : 0 < call.stage.ahead) (load : Load P A V E) :
    Advances earned call (call.pollLoad load c) := by
  have hresult := hloads c load
  unfold pollLoad
  rcases hpoll : load.poll c with ⟨rest | result, c'⟩ <;> rw [hpoll] at hresult
  · exact .waits Nat.one_pos nofun
  · exact advances_settle hok hahead (hresult result rfl rfl)

/-- A request that begins its load polls it at once. -/
theorem advances_beginLoad (hahead : 0 < call.stage.ahead) :
    Advances earned call (call.beginLoad c) :=
  advances_pollLoad hok hloads hahead _

/-- A request that finds a usable entry yields it, and goes on to its load only if its policy says
so. -/
theorem advances_useStored (hstage : call.stage = .looking) (delivery : Delivery V) :
    Advances earned call (call.useStored delivery c) := by
  have hahead : 0 < call.stage.ahead := by
    rw [hstage]
    exact Nat.two_pos
  unfold useStored
  split
  · refine .yields (hok delivery) ?_ nofun
    rw [hstage]
    exact Nat.one_lt_two
  · exact advances_yieldLast hahead (hok delivery)
  · rename_i test hplan
    dsimp only
    split
    · exact advances_yieldLast hahead (hok delivery)
    · exact advances_beginLoad hok hloads hahead
    · exact .panics hplan

variable (honly : call.plan = .policy .only → earned (.error .notCached))
include honly

/-- A request that finds no usable entry goes on to its load, or ends without one. -/
theorem advances_goWithout (hahead : 0 < call.stage.ahead) :
    Advances earned call (call.goWithout c) := by
  unfold goWithout
  split
  · rename_i hplan
    exact advances_yieldLast hahead (honly hplan)
  · exact advances_beginLoad hok hloads hahead

/-- A request that looks into the store goes on with the usable entry or without it. -/
theorem advances_look (hstage : call.stage = .looking) : Advances earned call (call.look c) := by
  have hahead : 0 < call.stage.ahead := by
    rw [hstage]
    exact Nat.two_pos
  unfold look
  rcases hlook : c.lookup call.key call.terms.maxAge with _ | ⟨_ | delivery, c'⟩
  · exact .waits hahead (by rw [hstage]; exact nofun)
  · rw [← Cache.flights_of_lookup hlook] at hloads
    exact advances_goWithout hok hloads honly hahead
  · rw [← Cache.flights_of_lookup hlook] at hloads
    exact advances_useStored hok hloads hstage delivery

/-- A poll of a request that has results ahead. -/
theorem advances_poll (hahead : 0 < call.stage.ahead) (hstage : call.stage.Earned earned) :
    Advances earned call (call.poll c) := by
  unfold poll
  cases hnow : call.stage with
  | looking => exact advances_look hok hloads honly hnow
  | loading load => exact advances_pollLoad hok hloads hahead load
  | rescuing failure => exact advances_rescue hok hahead (hstage failure hnow)
  | spent =>
    rw [hnow] at hahead
    exact absurd hahead (Nat.lt_irrefl 0)

end Loads

/-- A request that has yielded its last result. -/
theorem poll_of_spent (hahead : call.stage.ahead = 0) (c : Cache P A V E) :
    call.poll c = (.done, call, c) := by
  unfold poll
  cases hstage : call.stage with
  | spent => rfl
  | looking | loading | rescuing =>
    rw [hstage] at hahead
    cases hahead

end Call

namespace Fetch

variable {f : Fetch P A V E} {call : Call P A V E} {c c' : Cache P A V E} {result : Result V E}

/-- Collecting stops when the request waits. -/
theorem collect_of_pending (n : Nat) (hpoll : f.call.poll c = (.pending, call, c')) :
    f.collect (n + 1) c = (.pending, { f with call }, c') := by
  unfold collect
  rw [hpoll]

/-- Collecting takes an item over the one it has, and asks for the next. -/
theorem collect_of_item (n : Nat) (hpoll : f.call.poll c = (.item result, call, c')) :
    f.collect (n + 1) c = collect n { f with call, latest := some result } c' := by
  rw [collect, hpoll]

/-- Behind the last result, the next poll finds the end. -/
theorem collect_of_spent (n : Nat) (hahead : f.call.stage.ahead = 0)
    (hlatest : f.latest = some result) :
    f.collect (n + 1) c = (.item result, { f with spent := true }, c) := by
  have hdone := Call.poll_of_spent hahead c
  unfold collect
  rw [hdone, hlatest]
  rfl

/-- What a poll comes to of a request that has results ahead and of which only the last one
matters. -/
inductive Advances (earned : Result V E → Prop) (policy : Policy) : Polled P A V E → Prop where
  | waits {f : Fetch P A V E} {c : Cache P A V E} (hspent : f.spent = false)
      (hplan : f.call.plan = .policy policy) (hahead : 0 < f.call.stage.ahead)
      (hstage : f.call.stage.Earned earned) : Advances earned policy (.pending, f, c)
  | yields {result : Result V E} {f : Fetch P A V E} {c : Cache P A V E} (hspent : f.spent = true)
      (hearned : earned result) : Advances earned policy (.item result, f, c)

section Advances

variable {earned : Result V E → Prop} {policy : Policy}
  {kept : Flights (Key P A) (Work P A V E) (Result V E) → Prop}

/-- The polls suffice for all results that are ahead, and there is a last one. -/
theorem advances_collect (hok : ∀ delivery, earned (.ok delivery))
    (hearns : ∀ {f}, kept f → Load.Earns earned f)
    (hkept : ∀ (call : Call P A V E) (c : Cache P A V E), kept c.flights →
      kept (call.poll c).2.2.flights)
    (honly : policy = .only → earned (.error .notCached)) {polls : Nat}
    (hspent : f.spent = false) (hplan : f.call.plan = .policy policy)
    (hahead : f.call.stage.ahead < polls) (hstage : f.call.stage.Earned earned)
    (hlatest : f.call.stage.ahead = 0 → ∃ result, f.latest = some result ∧ earned result)
    (hflights : kept c.flights) : Advances earned policy (collect polls f c) := by
  -- By induction on the polls that are left: each result that is yielded leaves fewer ahead.
  induction polls generalizing f c with
  | zero => exact absurd hahead (Nat.not_lt_zero _)
  | succ polls ih =>
    rcases Nat.eq_zero_or_pos f.call.stage.ahead with hnone | hsome
    · obtain ⟨result, hresult, hearned⟩ := hlatest hnone
      rw [collect_of_spent polls hnone hresult]
      exact .yields rfl hearned
    · have hcallOnly : f.call.plan = .policy .only → earned (.error .notCached) := fun heq =>
        honly (Plan.policy.inj (hplan.symm.trans heq))
      have hafter := hkept f.call c hflights
      have hadvances := Call.advances_poll hok (hearns hflights) hcallOnly hsome hstage
      generalize hpoll : f.call.poll c = polled at hadvances hafter
      cases hadvances with
      | waits hwaits hrescue =>
        rw [collect_of_pending polls hpoll]
        exact .waits hspent hplan hwaits hrescue
      | @yields result stage c' hearned hfewer hrescue =>
        rw [collect_of_item polls hpoll]
        have hleft : stage.ahead < polls := Nat.lt_of_lt_of_le hfewer (Nat.le_of_lt_succ hahead)
        exact ih hspent hplan hleft hrescue (fun _ => ⟨result, rfl, hearned⟩) hafter
      | panics hjudged => cases hplan.symm.trans hjudged

/-- A fetch that is not spent collects at most three answers in a poll. -/
theorem poll_of_running (hspent : f.spent = false) : f.poll c = f.collect 3 c := by
  unfold poll
  rw [if_neg (by rw [hspent]; exact Bool.false_ne_true)]

/-- A poll of a fetch waits, or ends with the last result of its request, and something holds of
that result. -/
theorem advances_poll (hok : ∀ delivery, earned (.ok delivery))
    (hearns : ∀ {f}, kept f → Load.Earns earned f)
    (hkept : ∀ (call : Call P A V E) (c : Cache P A V E), kept c.flights →
      kept (call.poll c).2.2.flights)
    (honly : policy = .only → earned (.error .notCached)) (hspent : f.spent = false)
    (hplan : f.call.plan = .policy policy) (hahead : 0 < f.call.stage.ahead)
    (hstage : f.call.stage.Earned earned) (hflights : kept c.flights) :
    Advances earned policy (f.poll c) := by
  have hfew : f.call.stage.ahead < 3 := by
    unfold CallStage.ahead
    split <;> omega
  rw [poll_of_running hspent]
  exact advances_collect hok hearns hkept honly hspent hplan hfew hstage
    (fun hnone => absurd hnone (Nat.ne_of_gt hahead)) hflights

end Advances

/-- A fetch waits as long as its request waits. -/
theorem poll_of_pending (hspent : f.spent = false) (hpoll : f.call.poll c = (.pending, call, c')) :
    f.poll c = (.pending, { f with call }, c') := by
  rw [poll_of_running hspent, collect_of_pending 2 hpoll]

/-- A fetch whose request yields its last item in a poll returns this item. -/
theorem poll_of_last (hspent : f.spent = false)
    (hpoll : f.call.poll c = (.item result, call, c')) (hlast : call.stage = .spent) :
    f.poll c = (.item result, ⟨call, some result, true⟩, c') := by
  have hahead : call.stage.ahead = 0 := by
    rw [hlast]
    rfl
  rw [poll_of_running hspent, collect_of_item 2 hpoll, collect_of_spent 1 hahead rfl]

end Fetch

end ReadThrough
