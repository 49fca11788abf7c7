import ReadThrough.Load
import ReadThrough.Proofs.Flights.Stages
import ReadThrough.Proofs.Load.Work
/-!
# Proofs: the course of a load

What a load adds to the trace from its first poll to its last, whatever else happens to the cache
between the polls. A load that may share goes to the registry first, one that may not calls the
source first; nothing in between is a lookup, and the load ends when its caller receives the
result.
-/

namespace ReadThrough

variable {P A V E : Type}

/-- Whether an event can stand between the beginning and the end of a load. -/
def Event.isLoading : Event P A V E → Bool
  | .called _ _ | .settled _ _ _ _ => true
  | .registry notice => notice.removed?.isSome
  | event => event.isWork

/-- What work tells can be told in the course of a load. -/
theorem Event.isLoading_of_isWork {event : Event P A V E} (h : event.isWork = true) :
    event.isLoading = true := by
  cases event with
  | called => cases h
  | settled => cases h
  | registry => cases h
  | _ => exact h

/-- The events of a load that has ended, with its result. -/
inductive Loads (key : Key P A) : Bool → List (Event P A V E) → Result V E → Prop where
  /-- It came to an execution through the registry. -/
  | shared {e : Nat} {notice : Notice} {events : List (Event P A V E)} {result : Result V E}
      (hentered : notice.entered? = some e)
      (hloading : ∀ event ∈ events, event.isLoading = true) :
      Loads key true (.registry notice :: events ++ [.received (some e) result]) result
  | alone {number : Nat} {events : List (Event P A V E)} {result : Result V E}
      (hloading : ∀ event ∈ events, event.isLoading = true) :
      Loads key false (.called number key :: events ++ [.received none result]) result

/-- The events so far of a load under way. -/
inductive Loading (key : Key P A) : Bool → Load P A V E → List (Event P A V E) → Prop where
  | unstarted {share : Bool} : Loading key share (.unstarted key share) []
  /-- It came to an execution through the registry. -/
  | attached {e : Nat} {notice : Notice} {events : List (Event P A V E)}
      (hentered : notice.entered? = some e)
      (hloading : ∀ event ∈ events, event.isLoading = true) :
      Loading key true (.attached e) (.registry notice :: events)
  | alone {work : Work P A V E} {number : Nat} {events : List (Event P A V E)}
      (hloading : ∀ event ∈ events, event.isLoading = true) :
      Loading key false (.alone work) (.called number key :: events)

/-- A load under way can end. -/
theorem Loading.loads {key : Key P A} {share : Bool} {load : Load P A V E}
    {events : List (Event P A V E)} (h : Loading key share load events) (result : Result V E) :
    ∃ rest, Loads key share (events ++ rest) result := by
  cases h with
  | unstarted =>
    cases share with
    | true =>
      have hentered : (Notice.started 0 0).entered? = some 0 := rfl
      exact ⟨_, .shared hentered (List.forall_mem_nil _)⟩
    | false =>
      have halone : Loads key false ([.called 0 key] ++ [.received none result]) result :=
        .alone (List.forall_mem_nil _)
      exact ⟨_, halone⟩
  | attached hentered hloading => exact ⟨_, .shared hentered hloading⟩
  | alone hloading => exact ⟨_, .alone hloading⟩

namespace Work

variable [DecidableEq P] [DecidableEq A]

/-- A poll of work tells of its call of the source first, and then what can be told in a load. -/
theorem isLoading_pollAs (execution : Option Nat) (work : Work P A V E)
    (env : Environment P A V E) :
    ∃ events, (work.pollAs execution env).2.trace = env.trace ++ (work.calls env ++ events) ∧
      ∀ event ∈ events, event.isLoading = true := by
  obtain ⟨events, h⟩ := tells_poll work env
  refine ⟨_, pollAs_trace execution h, fun event he => ?_⟩
  rcases List.mem_append.mp he with he | he
  · exact Event.isLoading_of_isWork (h.isWork event he)
  · unfold closing at he
    split at he
    · cases he
    · rw [List.mem_singleton.mp he]
      rfl

/-- A call of the source may be among the events of a load. -/
theorem isLoading_pollAs_all (execution : Option Nat) (work : Work P A V E)
    (env : Environment P A V E) :
    ∃ events, (work.pollAs execution env).2.trace = env.trace ++ events ∧
      ∀ event ∈ events, event.isLoading = true := by
  obtain ⟨events, htrace, hloading⟩ := isLoading_pollAs execution work env
  refine ⟨_, htrace, fun event he => ?_⟩
  rcases List.mem_append.mp he with he | he
  · cases work with
    | fresh key =>
      rw [List.mem_singleton.mp he]
      rfl
    | calling key number reply => cases he
    | storing key number value now => cases he
  · exact hloading event he

end Work

namespace Load

/-- A poll of a load by a caller of the execution `who` adds events of a load, and at last that the
caller has received the result. A load that waits is one of the `kept`. -/
inductive Adds (kept : Load P A V E → Prop) (who : Option Nat) (c : Cache P A V E)
    (events : List (Event P A V E)) : Polled P A V E → Prop where
  | waits {load : Load P A V E} {c' : Cache P A V E} (hkept : kept load)
      (htrace : c'.env.trace = c.env.trace ++ events) : Adds kept who c events (.waiting load, c')
  | ends {result : Result V E} {c' : Cache P A V E}
      (htrace : c'.env.trace = c.env.trace ++ (events ++ [.received who result])) :
      Adds kept who c events (.finished result, c')

/-- What a poll leaves of a load, by the events of the load so far. -/
def Leaves (key : Key P A) (share : Bool) (events : List (Event P A V E)) :
    Progress (Load P A V E) (Result V E) → Prop
  | .waiting load => Loading key share load events
  | .finished result => Loads key share events result

/-- A poll takes a load further on its course that has begun with the event `first`. -/
theorem Adds.leaves {key : Key P A} {share : Bool} {kept : Load P A V E → Prop} {who : Option Nat}
    {first : Event P A V E}
    (hwaits : ∀ load events, kept load → (∀ event ∈ events, event.isLoading = true) →
      Loading key share load (first :: events))
    (hends : ∀ result events, (∀ event ∈ events, event.isLoading = true) →
      Loads key share (first :: events ++ [.received who result]) result)
    {c : Cache P A V E} {before events : List (Event P A V E)} {polled : Polled P A V E}
    (h : Adds kept who c events polled)
    (hbefore : ∀ event ∈ before, event.isLoading = true)
    (hloading : ∀ event ∈ events, event.isLoading = true) :
    ∃ events', polled.2.env.trace = c.env.trace ++ events' ∧
      Leaves key share (first :: before ++ events') polled.1 := by
  have hall : ∀ event ∈ before ++ events, event.isLoading = true := fun event he =>
    (List.mem_append.mp he).elim (hbefore event) (hloading event)
  cases h with
  | waits hkept htrace => exact ⟨events, htrace, hwaits _ _ hkept hall⟩
  | ends htrace =>
    refine ⟨_, htrace, ?_⟩
    rw [List.cons_append, ← List.append_assoc]
    exact hends _ _ hall

variable [DecidableEq P] [DecidableEq A]

/-- A poll of an attached caller adds events of the load, and its receipt if the execution has
ended. -/
theorem adds_pollAttached (e : Nat) (c : Cache P A V E) :
    ∃ events, (∀ event ∈ events, event.isLoading = true) ∧
      Adds (· = .attached e) (some e) c events (pollAttached e c) := by
  obtain ⟨hworks, hnotices⟩ := Flights.poll_works (Work.pollAs (some e)) c.flights e c.env
  unfold pollAttached
  rcases hpoll : c.flights.poll (Work.pollAs (some e)) e c.env with ⟨answer, f', env', ns⟩
  rw [hpoll] at hworks hnotices
  have hadds : ∃ events, env'.trace = c.env.trace ++ events ∧
      ∀ event ∈ events, event.isLoading = true := by
    rcases hworks with hsame | ⟨work, -, hwork⟩
    · exact ⟨[], by rw [show env' = c.env from hsame, List.append_nil], List.forall_mem_nil _⟩
    · obtain ⟨events, htrace, hloading⟩ := Work.isLoading_pollAs_all (some e) work c.env
      exact ⟨events, by rw [show env' = _ from hwork, htrace], hloading⟩
  obtain ⟨events, htrace, hloading⟩ := hadds
  have hregistry : (env'.noteRegistry ns).trace = c.env.trace ++ (events ++ ns.map .registry) := by
    rw [← List.append_assoc, ← htrace]
    rfl
  refine ⟨events ++ ns.map .registry, fun event he => ?_, ?_⟩
  · rcases List.mem_append.mp he with he | he
    · exact hloading event he
    · obtain ⟨n, hn, rfl⟩ := List.mem_map.mp he
      exact Option.isSome_of_eq_some (hnotices n hn)
  · cases answer with
    | none => exact .waits rfl hregistry
    | some outcome =>
      refine .ends ?_
      rw [← List.append_assoc, ← hregistry]
      rfl

/-- A poll of work that is done alone adds events of the load, and the receipt at its end. -/
theorem adds_pollAlone {work : Work P A V E} {c : Cache P A V E} {events : List (Event P A V E)}
    (h : (work.pollAs none c.env).2.trace = c.env.trace ++ events) :
    Adds (fun load => ∃ rest, load = .alone rest) none c events (pollAlone work c) := by
  unfold pollAlone
  rcases hpoll : work.pollAs none c.env with ⟨rest | outcome, env'⟩ <;> rw [hpoll] at h
  · exact .waits ⟨rest, rfl⟩ h
  · refine .ends ?_
    rw [← List.append_assoc, ← h]
    rfl

/-- A load that is attached goes on with its events, or ends with its receipt. -/
theorem leaves_pollAttached (key : Key P A) {e : Nat} {notice : Notice}
    (hentered : notice.entered? = some e) {before : List (Event P A V E)}
    (hbefore : ∀ event ∈ before, event.isLoading = true) (c : Cache P A V E) :
    ∃ events, (pollAttached e c).2.env.trace = c.env.trace ++ events ∧
      Leaves key true (.registry notice :: before ++ events) (pollAttached e c).1 := by
  obtain ⟨events, hloading, h⟩ := adds_pollAttached e c
  refine h.leaves (fun load events hload hall => ?_) (fun _ _ => .shared hentered) hbefore hloading
  rw [hload]
  exact .attached hentered hall

/-- Every poll takes a load further on its course, whatever has become of the cache since the poll
before. -/
theorem leaves_poll {key : Key P A} {share : Bool} {load : Load P A V E}
    {before : List (Event P A V E)} (h : Loading key share load before) (c : Cache P A V E) :
    ∃ events, (load.poll c).2.env.trace = c.env.trace ++ events ∧
      Leaves key share (before ++ events) (load.poll c).1 := by
  cases h with
  | attached hentered hloading => exact leaves_pollAttached key hentered hloading c
  | alone hloading =>
    rename_i work number events
    obtain ⟨events', htrace, hloading'⟩ := Work.isLoading_pollAs_all none work c.env
    refine (adds_pollAlone htrace).leaves (fun load events hload hall => ?_)
      (fun _ _ => .alone) hloading hloading'
    obtain ⟨rest, rfl⟩ := hload
    exact .alone hall
  | unstarted =>
    cases share with
    | true =>
      let entered := c.flights.enter key (.fresh key)
      have hpoll : (unstarted key true).poll c =
          pollAttached entered.1 ⟨c.env.noteRegistry [entered.2.2], entered.2.1⟩ := rfl
      obtain ⟨events, htrace, hleaves⟩ := leaves_pollAttached key
        (c.flights.entered?_enter key (.fresh key)) (List.forall_mem_nil _)
        (⟨c.env.noteRegistry [entered.2.2], entered.2.1⟩ : Cache P A V E)
      rw [hpoll]
      refine ⟨.registry entered.2.2 :: events, ?_, hleaves⟩
      rw [htrace]
      exact List.append_assoc _ [_] _
    | false =>
      have hpoll : (unstarted key false).poll c = pollAlone (.fresh key) c := rfl
      obtain ⟨events, htrace, hloading⟩ := Work.isLoading_pollAs none (.fresh key) c.env
      have hadds := adds_pollAlone htrace
      rw [hpoll]
      generalize pollAlone (.fresh key) c = polled at hadds
      cases hadds with
      | waits hkept htrace' =>
        obtain ⟨rest, rfl⟩ := hkept
        exact ⟨_, htrace', .alone hloading⟩
      | ends htrace' => exact ⟨_, htrace', .alone hloading⟩

end Load

end ReadThrough
