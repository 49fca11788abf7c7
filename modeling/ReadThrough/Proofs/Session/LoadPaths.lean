import ReadThrough.Proofs.Session.Moves
/-!
# Proofs: what a session does, step by step as its loads see it

Seen from the loads, a session does four things: it begins a load, polls one, drops one, and does
something besides that leaves them alone (`LoadStep`). What it does besides, and which loads it may
begin, are left open. A path is a sequence of such steps, with a list of the visits that they pay to
loads (`LoadPath`). However requests, fetches and watches are polled, they go along a path. Every
step is made up of moves.
-/

namespace ReadThrough

variable {P A V E : Type}

/-- A visit that is paid to a load by polling it. -/
structure Visit where
  /-- The shared execution that the load waits for, or none if it does its work alone. -/
  execution : Option Nat
  /-- Whether it is the first poll of the load. -/
  first : Bool
  deriving DecidableEq

variable [DecidableEq P] [DecidableEq A]

/-- The visit that a poll of a load is. -/
def Load.visit (c : Cache P A V E) : Load P A V E → Visit
  | .unstarted key true => ⟨some (c.flights.enter key (.fresh key)).1, true⟩
  | .unstarted _ false => ⟨none, true⟩
  | .attached e => ⟨some e, false⟩
  | .alone _ => ⟨none, false⟩

/-- What a request does besides its load. -/
inductive CallActs : World P A V E → World P A V E → Prop where
  | looks {c c' : Cache P A V E} {loads : Multiset (Load P A V E)} {key : Key P A}
      {maxAge : Option Duration} {found : Option (Delivery V)}
      (hlook : c.lookup key maxAge = some (found, c')) : CallActs ⟨c, loads⟩ ⟨c', loads⟩
  | judges {c : Cache P A V E} {loads : Multiset (Load P A V E)} :
      CallActs ⟨c, loads⟩ ⟨{ c with env.asked := c.env.asked + 1 }, loads⟩
  | notes {c : Cache P A V E} {loads : Multiset (Load P A V E)} {event : Event P A V E}
      (hremark : event.isRemark = true) : CallActs ⟨c, loads⟩ ⟨c.note event, loads⟩

/-- What a session does besides the loads of its tasks. -/
inductive SessionActs : World P A V E → World P A V E → Prop where
  | acts {c c' : Cache P A V E} {loads : Multiset (Load P A V E)} (hacts : Acts c c') :
      SessionActs ⟨c, loads⟩ ⟨c', loads⟩
  | closes {c : Cache P A V E} : SessionActs ⟨c, 0⟩ ⟨c.close, 0⟩

/-- What a session does besides the loads of its tasks, but for questions to the store. -/
inductive OwnActs : World P A V E → World P A V E → Prop where
  | ofCall {w w' : World P A V E} (hacts : CallActs w w') : OwnActs w w'
  /-- The store and the trace are left alone. -/
  | tends {c : Cache P A V E} {env : Environment P A V E} {loads : Multiset (Load P A V E)}
      (hacts : Acts c { c with env }) (hstore : env.store = c.env.store)
      (htrace : env.trace = c.env.trace) : OwnActs ⟨c, loads⟩ ⟨{ c with env }, loads⟩
  | clears {c : Cache P A V E} {loads : Multiset (Load P A V E)} :
      OwnActs ⟨c, loads⟩ ⟨c.clear, loads⟩
  | closes {c : Cache P A V E} : OwnActs ⟨c, 0⟩ ⟨c.close, 0⟩

/-- From one world to another in a single step, with the visit that it pays to a load, if any. -/
inductive LoadStep (rests : World P A V E → World P A V E → Prop) (starts : Key P A → Bool → Prop) :
    World P A V E → List Visit → World P A V E → Prop where
  | rests {w w' : World P A V E} (hrests : rests w w') : LoadStep rests starts w [] w'
  | begins {c : Cache P A V E} {loads : Multiset (Load P A V E)} {key : Key P A} {share : Bool}
      (hstarts : starts key share) :
      LoadStep rests starts ⟨c, loads⟩ [] ⟨c, .unstarted key share ::ₘ loads⟩
  | polls {c : Cache P A V E} {loads : Multiset (Load P A V E)} (load : Load P A V E) :
      LoadStep rests starts ⟨c, load ::ₘ loads⟩ [load.visit c]
        ⟨(load.poll c).2, held (load.poll c).1.rest? loads⟩
  | drops {c : Cache P A V E} {loads : Multiset (Load P A V E)} (load : Load P A V E) :
      LoadStep rests starts ⟨c, load ::ₘ loads⟩ [] ⟨load.drop c, loads⟩

/-- Any number of steps, with all visits in order. -/
inductive LoadPath (rests : World P A V E → World P A V E → Prop) (starts : Key P A → Bool → Prop)
    (w : World P A V E) : List Visit → World P A V E → Prop where
  | refl : LoadPath rests starts w [] w
  | tail {visits visits' : List Visit} {w' w'' : World P A V E}
      (h : LoadPath rests starts w visits w') (hlast : LoadStep rests starts w' visits' w'') :
      LoadPath rests starts w (visits ++ visits') w''

/-- A path leads from one world to another. -/
def LoadReaches (rests : World P A V E → World P A V E → Prop) (starts : Key P A → Bool → Prop)
    (w w' : World P A V E) : Prop :=
  ∃ visits, LoadPath rests starts w visits w'

section LoadReaches

variable {rests rests' : World P A V E → World P A V E → Prop}
  {starts starts' : Key P A → Bool → Prop} {w w' w'' : World P A V E} {visits visits' : List Visit}
  {c c' : Cache P A V E} {loads : Multiset (Load P A V E)}

/-- Two paths one after the other are one path, with the visits of both. -/
theorem LoadPath.trans (h : LoadPath rests starts w visits w')
    (h' : LoadPath rests starts w' visits' w'') :
    LoadPath rests starts w (visits ++ visits') w'' := by
  induction h' with
  | refl =>
    rw [List.append_nil]
    exact h
  | tail _ hlast ih =>
    rw [← List.append_assoc]
    exact ih.tail hlast

/-- A step stays one if more may be done besides the loads and more loads may be begun. -/
theorem LoadStep.mono (hrests : ∀ {w w'}, rests w w' → rests' w w')
    (hstarts : ∀ {key share}, starts key share → starts' key share)
    (h : LoadStep rests starts w visits w') : LoadStep rests' starts' w visits w' := by
  cases h with
  | rests hquiet => exact .rests (hrests hquiet)
  | begins hbegun => exact .begins (hstarts hbegun)
  | polls load => exact .polls load
  | drops load => exact .drops load

/-- A path stays one if more may be done besides the loads and more loads may be begun. -/
theorem LoadPath.mono (hrests : ∀ {w w'}, rests w w' → rests' w w')
    (hstarts : ∀ {key share}, starts key share → starts' key share)
    (h : LoadPath rests starts w visits w') : LoadPath rests' starts' w visits w' := by
  induction h with
  | refl => exact .refl
  | tail _ hlast ih => exact ih.tail (hlast.mono hrests hstarts)

/-- A step is made of moves if what is done besides the loads is. -/
theorem LoadStep.moves (hrests : ∀ {w w'}, rests w w' → Moves w w')
    (h : LoadStep rests starts w visits w') : Moves w w' := by
  cases h with
  | rests hquiet => exact hrests hquiet
  | begins => exact .single (.begins _ _)
  | polls load => exact load.moves_poll _ _
  | drops load => exact .single (.drops load)

namespace LoadReaches

/-- No step at all leads from a world to itself. -/
theorem refl (w : World P A V E) : LoadReaches rests starts w w := ⟨[], .refl⟩

/-- Two paths one after the other lead to the end of the second. -/
theorem trans (h : LoadReaches rests starts w w') (h' : LoadReaches rests starts w' w'') :
    LoadReaches rests starts w w'' := by
  obtain ⟨visits, hpath⟩ := h
  obtain ⟨visits', hpath'⟩ := h'
  exact ⟨visits ++ visits', hpath.trans hpath'⟩

/-- A single step is a path. -/
theorem single (h : LoadStep rests starts w visits w') : LoadReaches rests starts w w' :=
  ⟨[] ++ visits, .tail .refl h⟩

/-- A world that is reached stays reachable if more is allowed on the way. -/
theorem mono (hrests : ∀ {w w'}, rests w w' → rests' w w')
    (hstarts : ∀ {key share}, starts key share → starts' key share)
    (h : LoadReaches rests starts w w') : LoadReaches rests' starts' w w' := by
  obtain ⟨visits, hpath⟩ := h
  exact ⟨visits, hpath.mono hrests hstarts⟩

/-- Whatever is reached along a path is reached by moves. -/
theorem moves (hrests : ∀ {w w'}, rests w w' → Moves w w') (h : LoadReaches rests starts w w') :
    Moves w w' := by
  obtain ⟨visits, hpath⟩ := h
  induction hpath with
  | refl => exact .refl
  | tail _ hlast ih => exact ih.trans (hlast.moves hrests)

/-- What a request does besides its load is a path that visits nothing. -/
theorem callActs (h : CallActs w w') : LoadReaches CallActs starts w w' := single (.rests h)

/-- To note a remark is a path that visits nothing. -/
theorem note {event : Event P A V E} (hremark : event.isRemark = true) :
    LoadReaches CallActs starts ⟨c, loads⟩ ⟨c.note event, loads⟩ := callActs (.notes hremark)

/-- To note what a subscriber has missed is a path that visits nothing. -/
theorem noteMissed (channel : String) (missed : Nat) :
    LoadReaches CallActs starts ⟨c, loads⟩ ⟨c.noteMissed channel missed, loads⟩ := by
  unfold Cache.noteMissed
  split
  · exact refl _
  · exact note rfl

/-- What a session does to its cache besides the loads is a path that visits nothing. -/
theorem act (hacts : Acts c c') : LoadReaches SessionActs starts ⟨c, loads⟩ ⟨c', loads⟩ :=
  single (.rests (.acts hacts))

/-- What a session does to its environment, the store and the trace aside, is a path that visits
nothing. -/
theorem tend {env : Environment P A V E} (hacts : Acts c { c with env })
    (hstore : env.store = c.env.store) (htrace : env.trace = c.env.trace) :
    LoadReaches OwnActs starts ⟨c, loads⟩ ⟨{ c with env }, loads⟩ :=
  single (.rests (.tends hacts hstore htrace))

/-- To drop a load, if there is one, is a path that visits nothing. -/
theorem drop (load : Option (Load P A V E)) :
    LoadReaches rests starts ⟨c, held load loads⟩ ⟨load.elim c (·.drop c), loads⟩ := by
  cases load with
  | none => exact refl _
  | some load => exact single (.drops load)

end LoadReaches

/-- What a request does besides its load is among what a session does. -/
theorem CallActs.sessionActs (h : CallActs w w') : SessionActs w w' := by
  cases h with
  | looks hlook => exact .acts (.looks hlook)
  | judges => exact .acts .judges
  | notes hremark => exact .acts (.notes hremark)

/-- What a session does but for questions to the store is among what it does. -/
theorem OwnActs.sessionActs (h : OwnActs w w') : SessionActs w w' := by
  cases h with
  | ofCall hacts => exact hacts.sessionActs
  | tends hacts => exact .acts hacts
  | clears => exact .acts .clears
  | closes => exact .closes

/-- What a session does besides the loads of its tasks is made of moves. -/
theorem SessionActs.moves (h : SessionActs w w') : Moves w w' := by
  cases h with
  | acts hacts => exact .act hacts
  | closes => exact .single .closes

/-- A session may do all that a request does. -/
theorem LoadReaches.ownActs (h : LoadReaches CallActs starts w w') :
    LoadReaches OwnActs starts w w' :=
  h.mono .ofCall id

/-- A path without questions to the store is a path of a session. -/
theorem LoadReaches.sessionActs (h : LoadReaches OwnActs starts w w') :
    LoadReaches SessionActs starts w w' :=
  h.mono OwnActs.sessionActs id

end LoadReaches

/-! ## Requests -/

namespace Call

/-- A poll of a request follows a path from a world. The request stays what it is, and once it has
told its end it holds no load. -/
structure Pursued (starts : Key P A → Bool → Prop) (loads : Multiset (Load P A V E))
    (w : World P A V E) (call : Call P A V E) (polled : Polled P A V E) : Prop where
  reaches : LoadReaches CallActs starts w ⟨polled.2.2, held polled.2.1.load? loads⟩
  ended : polled.1.isLast = true → polled.2.1.load? = none
  key : polled.2.1.key = call.key
  terms : polled.2.1.terms = call.terms

/-- The loads of a request may be begun. -/
def Allowed (starts : Key P A → Bool → Prop) (call : Call P A V E) : Prop :=
  starts call.key call.terms.share

variable {starts : Key P A → Bool → Prop} {w w' : World P A V E} {call : Call P A V E}
  {c : Cache P A V E} {loads : Multiset (Load P A V E)} {polled : Polled P A V E}

/-- A poll that follows a path from a world follows one from every world that leads there. -/
theorem Pursued.after (h : Pursued starts loads w' call polled)
    (hreach : LoadReaches CallActs starts w w') : Pursued starts loads w call polled :=
  ⟨hreach.trans h.reaches, h.ended, h.key, h.terms⟩

/-- A poll leaves a request to which the same loads are allowed. -/
theorem Pursued.allowed (h : Pursued starts loads w call polled) (hallowed : call.Allowed starts) :
    polled.2.1.Allowed starts := by
  unfold Allowed
  rw [h.key, h.terms]
  exact hallowed

omit [DecidableEq P] [DecidableEq A] in
/-- A request that does not look into the store first begins with a load. -/
theorem load?_create (key : Key P A) (plan : Plan V) (terms : Terms) :
    (create key plan terms : Call P A V E).load? =
      if plan.looksFirst then none else some (.unstarted key terms.share) := by
  unfold create load?
  cases plan.looksFirst with
  | true => rfl
  | false => rfl

/-- A request that yields its last result needs no step. -/
theorem pursued_yieldLast (call : Call P A V E) (result : Result V E) (c : Cache P A V E) :
    Pursued starts loads ⟨c, loads⟩ call (call.yieldLast result c) := ⟨.refl _, nofun, rfl, rfl⟩

/-- The lookup that rescues a failed load is a path. -/
theorem pursued_rescue (call : Call P A V E) (failure : Failure E) (c : Cache P A V E) :
    Pursued starts loads ⟨c, loads⟩ call (call.rescue failure c) := by
  unfold rescue
  rcases hlook : c.lookup call.key call.terms.maxAge with _ | ⟨_ | delivery, c'⟩
  · exact ⟨.refl _, nofun, rfl, rfl⟩
  · exact (pursued_yieldLast call _ c').after (.callActs (.looks hlook))
  · exact (pursued_yieldLast call _ _).after
      ((LoadReaches.callActs (.looks hlook)).trans (.note rfl))

/-- What a request makes of the result of its load is a path. -/
theorem pursued_settle (call : Call P A V E) (result : Result V E) (c : Cache P A V E) :
    Pursued starts loads ⟨c, loads⟩ call (call.settle result c) := by
  unfold settle
  split
  · exact pursued_rescue call _ c
  · exact pursued_yieldLast call _ c

/-- To poll the load of a request is a path that visits the load. -/
theorem pursued_pollLoad (call : Call P A V E) (load : Load P A V E) (c : Cache P A V E) :
    Pursued starts loads ⟨c, load ::ₘ loads⟩ call (call.pollLoad load c) := by
  have hpolls : LoadReaches CallActs starts ⟨c, load ::ₘ loads⟩ _ := .single (.polls load)
  unfold pollLoad
  rcases hpoll : load.poll c with ⟨rest | result, c'⟩ <;> rw [hpoll] at hpolls
  · exact ⟨hpolls, nofun, rfl, rfl⟩
  · exact (pursued_settle call result c').after hpolls

/-- A request begins its load, which must be allowed, and polls it. -/
theorem pursued_beginLoad (hallowed : call.Allowed starts) (c : Cache P A V E) :
    Pursued starts loads ⟨c, loads⟩ call (call.beginLoad c) :=
  (pursued_pollLoad call _ c).after (.single (.begins hallowed))

/-- A request that uses a stored value goes on to its load at most. -/
theorem pursued_useStored (hallowed : call.Allowed starts) (delivery : Delivery V)
    (c : Cache P A V E) : Pursued starts loads ⟨c, loads⟩ call (call.useStored delivery c) := by
  unfold useStored
  split
  · exact ⟨.single (.begins hallowed), nofun, rfl, rfl⟩
  · exact pursued_yieldLast call _ c
  · have hjudges : LoadReaches CallActs starts ⟨c, loads⟩ _ := .callActs .judges
    simp only
    split
    · exact (pursued_yieldLast call _ _).after hjudges
    · exact (pursued_beginLoad hallowed _).after (hjudges.trans (.note rfl))
    · exact ⟨hjudges, fun _ => rfl, rfl, rfl⟩

/-- A request without a stored value goes on to its load at most. -/
theorem pursued_goWithout (hallowed : call.Allowed starts) (c : Cache P A V E) :
    Pursued starts loads ⟨c, loads⟩ call (call.goWithout c) := by
  unfold goWithout
  split
  · exact (pursued_yieldLast call _ _).after (.note rfl)
  · exact pursued_beginLoad hallowed c

/-- A request looks into the store and goes on with what it finds. -/
theorem pursued_look (hallowed : call.Allowed starts) (hstage : call.stage = .looking)
    (c : Cache P A V E) : Pursued starts loads ⟨c, loads⟩ call (call.look c) := by
  unfold look
  rcases hlook : c.lookup call.key call.terms.maxAge with _ | ⟨_ | delivery, c'⟩
  · have hnone : call.load? = none := by rw [load?, hstage]
    exact ⟨by rw [hnone]; exact .refl _, nofun, rfl, rfl⟩
  · exact (pursued_goWithout hallowed c').after (.callActs (.looks hlook))
  · exact (pursued_useStored hallowed delivery c').after (.callActs (.looks hlook))

/-- A poll of a request follows a path, whatever its stage. -/
theorem pursued_poll (hallowed : call.Allowed starts) (c : Cache P A V E) :
    Pursued starts loads ⟨c, held call.load? loads⟩ call (call.poll c) := by
  unfold poll load?
  cases hstage : call.stage with
  | looking => exact pursued_look hallowed hstage c
  | loading load => exact pursued_pollLoad call load c
  | rescuing failure => exact pursued_rescue call failure c
  | spent =>
    have hnone : call.load? = none := by rw [load?, hstage]
    exact ⟨by rw [hnone]; exact .refl _, fun _ => hnone, rfl, rfl⟩

/-- The same in moves, whatever loads may be begun. -/
theorem moves_poll (call : Call P A V E) (c : Cache P A V E) (loads : Multiset (Load P A V E)) :
    Moves ⟨c, held call.load? loads⟩
      ⟨(call.poll c).2.2, held (call.poll c).2.1.load? loads⟩ := by
  have hallowed : call.Allowed fun _ _ => True := trivial
  have hpursued : Pursued _ loads _ call _ := pursued_poll hallowed c
  exact hpursued.reaches.moves fun h => h.sessionActs.moves

/-- To drop a request is to drop its load, if it holds one. -/
theorem reaches_drop (call : Call P A V E) (c : Cache P A V E) :
    LoadReaches CallActs starts ⟨c, held call.load? loads⟩ ⟨call.drop c, loads⟩ := by
  unfold drop load?
  cases call.stage with
  | loading load => exact .drop (some load)
  | _ => exact .refl _

end Call

/-! ## Fetches -/

namespace Fetch

/-- Once the last result has been yielded, no load is held. -/
def Sound (f : Fetch P A V E) : Prop := f.spent = true → f.call.load? = none

/-- A poll of a sound request follows a path from a world, and leaves the request sound. -/
structure Pursued (starts : Key P A → Bool → Prop) (loads : Multiset (Load P A V E))
    (w : World P A V E) (f : Fetch P A V E) (polled : Polled P A V E) : Prop where
  reaches : LoadReaches CallActs starts w ⟨polled.2.2, held polled.2.1.call.load? loads⟩
  ended : polled.1.isLast = true → polled.2.1.call.load? = none
  sound : polled.2.1.Sound
  key : polled.2.1.call.key = f.call.key
  terms : polled.2.1.call.terms = f.call.terms

variable {starts : Key P A → Bool → Prop} {loads : Multiset (Load P A V E)} {f : Fetch P A V E}

/-- A poll leaves a fetch to which the same loads are allowed. -/
theorem Pursued.allowed {w : World P A V E} {polled : Polled P A V E}
    (h : Pursued starts loads w f polled) (hallowed : f.call.Allowed starts) :
    polled.2.1.call.Allowed starts := by
  unfold Call.Allowed
  rw [h.key, h.terms]
  exact hallowed

/-- The polls of one collection are paths one after the other. -/
theorem pursued_collect (hallowed : f.call.Allowed starts) (hspent : f.spent = false) (polls : Nat)
    (c : Cache P A V E) :
    Pursued starts loads ⟨c, held f.call.load? loads⟩ f (collect polls f c) := by
  induction polls generalizing f c with
  | zero => exact ⟨.refl _, nofun, fun h => absurd (hspent.symm.trans h) nofun, rfl, rfl⟩
  | succ polls ih =>
    have hpursued : Call.Pursued starts loads _ _ _ := Call.pursued_poll hallowed c
    have hallowed' := hpursued.allowed hallowed
    simp only [collect]
    rcases hpoll : f.call.poll c with ⟨answer, call, c'⟩
    rw [hpoll] at hpursued hallowed'
    obtain ⟨hreach, hended, hkey, hterms⟩ := hpursued
    cases answer with
    | pending => exact ⟨hreach, nofun, fun h => absurd (hspent.symm.trans h) nofun, hkey, hterms⟩
    | item result =>
      have hrest := ih (f := { f with call, latest := some result }) hallowed' hspent c'
      exact ⟨hreach.trans hrest.reaches, hrest.ended, hrest.sound, hrest.key.trans hkey,
        hrest.terms.trans hterms⟩
    | done => exact ⟨hreach, nofun, fun _ => hended rfl, hkey, hterms⟩
    | panicked message =>
      exact ⟨hreach, fun _ => hended rfl, fun _ => hended rfl, hkey, hterms⟩

/-- A poll of a fetch follows a path. -/
theorem pursued_poll (hallowed : f.call.Allowed starts) (hsound : f.Sound) (c : Cache P A V E) :
    Pursued starts loads ⟨c, held f.call.load? loads⟩ f (f.poll c) := by
  unfold poll
  cases hspent : f.spent with
  | true => exact ⟨.refl _, fun _ => hsound hspent, hsound, rfl, rfl⟩
  | false => exact pursued_collect hallowed hspent 3 c

end Fetch

/-! ## Watches -/

/-- A load that is tried again is a path, with a load begun for each try. -/
theorem Load.reaches_pollRetrying {starts : Key P A → Bool → Prop} {key : Key P A}
    (hstarts : starts key true) (retries remaining : Nat) (load : Load P A V E)
    (c : Cache P A V E) (loads : Multiset (Load P A V E)) :
    LoadReaches CallActs starts ⟨c, load ::ₘ loads⟩ ⟨(load.pollRetrying key retries remaining c).2,
      held ((load.pollRetrying key retries remaining c).1.rest?.map (·.2)) loads⟩ := by
  induction remaining generalizing load c with
  | zero =>
    have hpolls : LoadReaches CallActs starts ⟨c, load ::ₘ loads⟩ _ := .single (.polls load)
    unfold pollRetrying
    rcases hpoll : load.poll c with ⟨rest | (failure | delivery), c'⟩ <;> rw [hpoll] at hpolls
    · exact hpolls
    · exact hpolls
    · exact hpolls
  | succ remaining ih =>
    have hpolls : LoadReaches CallActs starts ⟨c, load ::ₘ loads⟩ _ := .single (.polls load)
    unfold pollRetrying
    rcases hpoll : load.poll c with ⟨rest | (failure | delivery), c'⟩ <;> rw [hpoll] at hpolls
    · exact hpolls
    · have hretry := ih (.unstarted key true) (c'.note (.retried (retries - remaining) retries))
      have hnote : LoadReaches CallActs starts ⟨c', loads⟩
          ⟨c'.note (.retried (retries - remaining) retries), loads⟩ := .note rfl
      exact ((hpolls.trans hnote).trans (.single (.begins hstarts))).trans hretry
    · exact hpolls

namespace Watch

/-- The loads of a watch may be begun. -/
def Allowed (starts : Key P A → Bool → Prop) (w : Watch P A V E) : Prop :=
  starts (Key.ofParams w.params) true

variable {starts : Key P A → Bool → Prop} {loads : Multiset (Load P A V E)} {w : Watch P A V E}

omit [DecidableEq A] in
/-- Asking the channel leaves the watch's own request alone. -/
theorem inquiry_nextUpdate (w : Watch P A V E) (c : Cache P A V E) :
    (w.nextUpdate c).2.1.inquiry = w.inquiry := by
  unfold nextUpdate
  simp only
  split <;> rfl

omit [DecidableEq A] in
/-- A watch reads updates for the same parameters all the time. -/
theorem params_nextUpdate (w : Watch P A V E) (c : Cache P A V E) :
    (w.nextUpdate c).2.1.params = w.params := by
  unfold nextUpdate
  simp only
  split <;> rfl

/-- A watch asks its call for the same parameters all the time. -/
theorem params_nextAnswer (w : Watch P A V E) (c : Cache P A V E) :
    (w.nextAnswer c).2.1.params = w.params := by
  unfold nextAnswer
  split
  · rcases Load.pollRetrying _ _ _ _ c with ⟨⟨remaining, load⟩ | result, c'⟩ <;> rfl
  · rfl

/-- A watch takes items for the same parameters all the time. -/
theorem params_next (w : Watch P A V E) (c : Cache P A V E) :
    (w.next c).2.1.params = w.params := by
  unfold next
  cases w.turn with
  | updates =>
    have hfirst := params_nextUpdate { w with turn := Side.updates.other } c
    simp only
    rcases hask : nextUpdate { w with turn := Side.updates.other } c with ⟨_ | item, w', c'⟩ <;>
      rw [hask] at hfirst
    · exact (params_nextAnswer w' c').trans hfirst
    · exact hfirst
  | request =>
    have hfirst := params_nextAnswer { w with turn := Side.request.other } c
    simp only
    rcases hask : nextAnswer { w with turn := Side.request.other } c with ⟨_ | item, w', c'⟩ <;>
      rw [hask] at hfirst
    · exact (params_nextUpdate w' c').trans hfirst
    · exact hfirst

/-- A watch that reads the next update leaves its load alone. -/
theorem reaches_nextUpdate (w : Watch P A V E) (c : Cache P A V E) :
    LoadReaches CallActs starts ⟨c, held w.load? loads⟩
      ⟨(w.nextUpdate c).2.2, held (w.nextUpdate c).2.1.load? loads⟩ := by
  have hload : (w.nextUpdate c).2.1.load? = w.load? := by
    unfold load?
    rw [inquiry_nextUpdate]
  have hcache : (w.nextUpdate c).2.2 = c.noteMissed "updates"
      (c.env.updates.receive (·.1 = w.params) w.position).1 := by
    unfold nextUpdate
    simp only
    split <;> rfl
  rw [hload, hcache]
  exact .noteMissed _ _

/-- A watch asks its call along a path. -/
theorem reaches_nextAnswer (hallowed : w.Allowed starts) (c : Cache P A V E) :
    LoadReaches CallActs starts ⟨c, held w.load? loads⟩
      ⟨(w.nextAnswer c).2.2, held (w.nextAnswer c).2.1.load? loads⟩ := by
  unfold nextAnswer
  cases hinquiry : w.inquiry with
  | answered => exact .refl _
  | loading remaining load =>
    have hload : w.load? = some load := by rw [load?, hinquiry]
    have hreach := load.reaches_pollRetrying hallowed w.retries remaining c loads
    rw [hload]
    simp only
    rcases hpoll : load.pollRetrying (Key.ofParams w.params) w.retries remaining c with
      ⟨⟨remaining', load'⟩ | result, c'⟩ <;> rw [hpoll] at hreach
    · exact hreach
    · exact hreach

/-- A watch takes the next item along a path, whichever side is first. -/
theorem reaches_next (hallowed : w.Allowed starts) (c : Cache P A V E) :
    LoadReaches CallActs starts ⟨c, held w.load? loads⟩
      ⟨(w.next c).2.2, held (w.next c).2.1.load? loads⟩ := by
  unfold next
  cases w.turn with
  | updates =>
    have hfirst : LoadReaches CallActs starts ⟨c, held w.load? loads⟩ _ :=
      reaches_nextUpdate { w with turn := Side.updates.other } c
    have hparams := params_nextUpdate { w with turn := Side.updates.other } c
    simp only
    rcases hask : nextUpdate { w with turn := Side.updates.other } c with ⟨_ | item, w', c'⟩ <;>
      rw [hask] at hfirst hparams
    · have hallowed' : w'.Allowed starts := by rwa [Allowed, hparams]
      exact hfirst.trans (reaches_nextAnswer hallowed' c')
    · exact hfirst
  | request =>
    have hturned : Allowed starts { w with turn := Side.request.other } := hallowed
    have hfirst : LoadReaches CallActs starts ⟨c, held w.load? loads⟩ _ :=
      reaches_nextAnswer hturned c
    simp only
    rcases hask : nextAnswer { w with turn := Side.request.other } c with ⟨_ | item, w', c'⟩ <;>
      rw [hask] at hfirst
    · exact hfirst.trans (reaches_nextUpdate w' c')
    · exact hfirst

variable [DecidableEq V]

/-- A poll of a watch follows a path. The watch stays on its parameters and does not end. -/
structure Pursued (starts : Key P A → Bool → Prop) (loads : Multiset (Load P A V E))
    (world : World P A V E) (w : Watch P A V E)
    (polled : Answer (Item V E) × Watch P A V E × Cache P A V E) : Prop where
  reaches : LoadReaches CallActs starts world ⟨polled.2.2, held polled.2.1.load? loads⟩
  endless : polled.1.isLast = false
  params : polled.2.1.params = w.params

/-- A watch looks for an item to show along a path. -/
theorem pursued_showNext (hallowed : w.Allowed starts) (asks : Nat) (c : Cache P A V E) :
    Pursued starts loads ⟨c, held w.load? loads⟩ w (w.showNext asks c) := by
  induction asks generalizing w c with
  | zero => exact ⟨.refl _, rfl, rfl⟩
  | succ asks ih =>
    have hreach : LoadReaches CallActs starts ⟨c, held w.load? loads⟩ _ := reaches_next hallowed c
    have hparams := params_next w c
    unfold showNext
    rcases hnext : w.next c with ⟨_ | (failure | value), w', c'⟩ <;> rw [hnext] at hreach hparams
    · exact ⟨hreach, rfl, hparams⟩
    · exact ⟨hreach, rfl, hparams⟩
    · simp only
      split
      · have hallowed' : w'.Allowed starts := by rwa [Allowed, hparams]
        have hrest := ih hallowed' c'
        exact ⟨hreach.trans hrest.reaches, hrest.endless, hrest.params.trans hparams⟩
      · exact ⟨hreach, rfl, hparams⟩

/-- A poll of a watch follows a path. -/
theorem pursued_poll (hallowed : w.Allowed starts) (c : Cache P A V E)
    (loads : Multiset (Load P A V E)) :
    Pursued starts loads ⟨c, held w.load? loads⟩ w (w.poll c) :=
  pursued_showNext hallowed ((c.env.updates.unread w.position).length + 3) c

omit [DecidableEq V] in
/-- To drop a watch is to drop its load and its subscription. -/
theorem reaches_drop (w : Watch P A V E) (c : Cache P A V E) :
    LoadReaches OwnActs starts ⟨c, held w.load? loads⟩ ⟨w.drop c, loads⟩ := by
  have hleave : LoadReaches OwnActs starts ⟨c, held w.load? loads⟩
      ⟨{ c with env.updates := c.env.updates.unsubscribe }, held w.load? loads⟩ :=
    .tend .unsubscribesUpdates rfl rfl
  refine hleave.trans ?_
  unfold drop load?
  cases w.inquiry with
  | answered => exact .refl _
  | loading remaining load => exact .drop (some load)

end Watch

end ReadThrough
