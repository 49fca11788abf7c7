import ReadThrough.Proofs.Session.Effects
/-!
# Proofs: who attends to an execution

The executions of a cache have exactly the callers that the loads of its tasks make, and its
registry holds exactly the running ones (`Attended`). Every move keeps this, and so does every run.
A load for a key without a running execution therefore calls the source.
-/

namespace ReadThrough

variable {P A V E : Type}

/-- The shared execution that a load waits for. -/
def Load.execution? : Load P A V E → Option Nat
  | .attached e => some e
  | .unstarted _ _ | .alone _ => none

/-- How many loads wait for a shared execution. -/
def waitingAmong (loads : Multiset (Load P A V E)) (e : Nat) : Nat :=
  loads.countP fun load => load.execution? = some e

section Waiting

variable (loads : Multiset (Load P A V E))

/-- A load that waits for no shared execution is not counted. -/
theorem waitingAmong_cons {load : Load P A V E} (h : load.execution? = none) :
    waitingAmong (load ::ₘ loads) = waitingAmong loads := by
  funext e
  refine Multiset.countP_cons_of_neg _ ?_
  rw [h]
  exact nofun

/-- One load more waits for the execution that it is attached to. -/
theorem waitingAmong_attached (e : Nat) :
    waitingAmong (.attached e ::ₘ loads) = Flights.more (waitingAmong loads) e := by
  funext e'
  by_cases he : e' = e
  · subst he
    rw [Flights.more, Function.update_self]
    exact Multiset.countP_cons_of_pos loads rfl
  · rw [Flights.more, Function.update_of_ne he]
    refine Multiset.countP_cons_of_neg _ fun heq => he ?_
    exact (Option.some.inj heq).symm

/-- Without its load an execution has one caller less. -/
theorem waitingAmong_less (e : Nat) :
    Flights.less (waitingAmong (.attached e ::ₘ loads)) e = waitingAmong loads := by
  funext e'
  rw [waitingAmong_attached]
  by_cases he : e' = e
  · subst he
    rw [Flights.less, Function.update_self, Flights.more, Function.update_self]
    exact Nat.add_sub_cancel _ 1
  · rw [Flights.less, Function.update_of_ne he, Flights.more, Function.update_of_ne he]

/-- The execution that a load is attached to is waited for. -/
theorem waitingAmong_attached_pos (e : Nat) : 0 < waitingAmong (.attached e ::ₘ loads) e := by
  rw [waitingAmong_attached, Flights.more, Function.update_self]
  exact Nat.succ_pos _

end Waiting

variable [DecidableEq P] [DecidableEq A]

/-- The executions have the callers that the loads make, and the registry holds the running ones. -/
structure Attended (w : World P A V E) : Prop where
  tracked : w.cache.flights.Tracked (waitingAmong w.loads)
  registered : w.cache.flights.Registered

variable {c c' : Cache P A V E} {w w' : World P A V E} {loads loads' : Multiset (Load P A V E)}

/-- What a session does besides its loads leaves the executions as they are. -/
theorem Acts.flights_eq (h : Acts c c') : c'.flights = c.flights := by
  cases h with
  | looks hlook =>
    unfold Cache.lookup at hlook
    split at hlook
    · cases hlook
      rfl
    · cases hlook
  | _ => rfl

/-- A load of a single caller leaves the shared executions as they are. -/
theorem Load.flights_pollAlone (work : Work P A V E) (c : Cache P A V E) :
    (pollAlone work c).2.flights = c.flights := by
  unfold pollAlone
  rcases work.pollAs none c.env with ⟨rest | outcome, env'⟩ <;> rfl

/-- A shared load polls its execution, and nothing else of the registry. -/
theorem Load.flights_pollAttached (e : Nat) (c : Cache P A V E) :
    (pollAttached e c).2.flights = (c.flights.poll (Work.pollAs (some e)) e c.env).2.1 := by
  unfold pollAttached
  rcases c.flights.poll (Work.pollAs (some e)) e c.env with ⟨_ | outcome, f', env', ns⟩ <;> rfl

/-- A shared load that is dropped leaves its execution, and nothing else of the registry. -/
theorem Load.flights_drop_attached (e : Nat) (c : Cache P A V E) :
    (drop (.attached e) c).flights = (c.flights.leave e).2.1 := by
  unfold drop
  simp only
  rcases c.flights.leave e with ⟨_ | left, f', ns⟩ <;> rfl

namespace Attended

/-- The executions and the callers stay as they are. -/
theorem of_eq (h : Attended ⟨c, loads⟩) (hflights : c'.flights = c.flights)
    (hloads : waitingAmong loads' = waitingAmong loads) : Attended ⟨c', loads'⟩ := by
  obtain ⟨htracked, hregistered⟩ := h
  refine ⟨?_, ?_⟩
  · show c'.flights.Tracked (waitingAmong loads')
    rw [hflights, hloads]
    exact htracked
  · show c'.flights.Registered
    rw [hflights]
    exact hregistered

/-- A load that begins is one caller more of the execution for its key. -/
theorem enters {key : Key P A} (h : Attended ⟨c, .unstarted key true ::ₘ loads⟩)
    (env : Environment P A V E) :
    Attended ⟨⟨env, (c.flights.enter key (.fresh key)).2.1⟩,
      .attached (c.flights.enter key (.fresh key)).1 ::ₘ loads⟩ := by
  have htracked := h.tracked
  rw [waitingAmong_cons loads rfl] at htracked
  refine ⟨?_, ?_⟩
  · rw [waitingAmong_attached]
    exact htracked.enter h.registered key (.fresh key)
  · exact h.registered.enter htracked key (.fresh key)

/-- A shared load that is polled stays a caller until it has received the outcome. -/
theorem pollsAttached {e : Nat} (h : Attended ⟨c, .attached e ::ₘ loads⟩) :
    Attended ⟨(Load.pollAttached e c).2, held (Load.pollAttached e c).1.rest? loads⟩ := by
  obtain ⟨htracked, hregistered⟩ := h
  have hpolls := Flights.polls_of_waiting (Work.pollAs (some e)) htracked
    (waitingAmong_attached_pos loads e) c.env
  unfold Load.pollAttached
  rcases hpoll : c.flights.poll (Work.pollAs (some e)) e c.env with ⟨_ | outcome, f', env', ns⟩ <;>
    rw [hpoll] at hpolls
  · exact ⟨hpolls.tracked htracked, (hpolls.registered htracked hregistered).1⟩
  · have hless := hpolls.tracked htracked
    rw [Option.isSome_some, if_pos rfl, waitingAmong_less] at hless
    exact ⟨hless, (hpolls.registered htracked hregistered).1⟩

/-- A load that is dropped is one caller less. -/
theorem drops {load : Load P A V E} (h : Attended ⟨c, load ::ₘ loads⟩) :
    Attended ⟨load.drop c, loads⟩ := by
  unfold Load.drop
  cases load with
  | unstarted key share => exact h.of_eq rfl (waitingAmong_cons loads rfl).symm
  | alone work => exact h.of_eq rfl (waitingAmong_cons loads rfl).symm
  | attached e =>
    obtain ⟨htracked, hregistered⟩ := h
    have hleaves := Flights.leaves_of_waiting htracked (waitingAmong_attached_pos loads e)
    simp only
    rcases hleft : c.flights.leave e with ⟨answer, f', ns⟩
    rw [hleft] at hleaves
    have hless := hleaves.tracked htracked
    rw [waitingAmong_less] at hless
    have hregistered' := (hleaves.registered htracked hregistered).1
    cases answer with
    | none => exact ⟨hless, hregistered'⟩
    | some work => exact ⟨hless, hregistered'⟩

/-- Nothing runs once there are no loads, so that the registry may go away. -/
theorem closes (h : Attended ⟨c, 0⟩) : Attended ⟨c.close, 0⟩ := by
  refine ⟨⟨h.tracked.sound, h.tracked.known⟩, fun key ticket => ?_⟩
  constructor
  · intro hget
    cases hget
  · rintro ⟨-, x, hx, -, hrun⟩
    have hwanted : 0 < waitingAmong (0 : Multiset (Load P A V E)) ticket.execution :=
      (h.tracked.sound hx).wanted hrun
    exact absurd hwanted (Nat.lt_irrefl 0)

/-- A move keeps the callers and the registry in agreement. -/
theorem move (hmove : Move w w') (h : Attended w) : Attended w' := by
  cases hmove with
  | acts hacts => exact h.of_eq hacts.flights_eq rfl
  | begins key share => exact h.of_eq rfl (waitingAmong_cons _ rfl)
  | enters key => exact h.enters _
  | @detours c loads key =>
    refine h.of_eq rfl ?_
    exact (waitingAmong_cons loads rfl).trans (waitingAmong_cons loads rfl).symm
  | pollsAttached e => exact h.pollsAttached
  | @pollsAlone c loads work =>
    refine h.of_eq (Load.flights_pollAlone work c) ?_
    have hsame : waitingAmong (.alone work ::ₘ loads) = waitingAmong loads :=
      waitingAmong_cons loads rfl
    rw [hsame]
    unfold Load.pollAlone
    rcases work.pollAs none c.env with ⟨rest | outcome, env'⟩
    · exact waitingAmong_cons loads rfl
    · rfl
  | drops load => exact h.drops
  | closes => exact h.closes

/-- Moves keep the callers and the registry in agreement. -/
theorem moves (hmoves : Moves w w') (h : Attended w) : Attended w' := by
  induction hmoves with
  | refl => exact h
  | tail _ hlast ih => exact ih.move hlast

/-! ## Registered executions -/

/-- An execution that is registered runs, and a load waits for it. -/
theorem runs_of_registered (h : Attended w) {key : Key P A} {ticket : Ticket}
    (hget : w.cache.flights.registry.get? key = some ticket) :
    (∃ x work, w.cache.flights.executions[ticket.execution]? = some x ∧ x.key = key ∧
      x.stage = .running work) ∧ .attached ticket.execution ∈ w.loads := by
  obtain ⟨-, x, hx, hkey, hrun⟩ := (h.registered key ticket).mp hget
  refine ⟨?_, ?_⟩
  · cases hstage : x.stage with
    | running work => exact ⟨x, work, hx, hkey, hstage⟩
    | settled outcome =>
      rw [hstage] at hrun
      cases hrun
    | abandoned =>
      rw [hstage] at hrun
      cases hrun
  · -- It has callers, and these are loads.
    obtain ⟨load, hload, hwaits⟩ := Multiset.countP_pos.mp ((h.tracked.sound hx).wanted hrun)
    cases load with
    | unstarted | alone => cases hwaits
    | attached e =>
      rw [← Option.some.inj hwaits]
      exact hload

/-- An execution that does not run is not registered. -/
theorem not_registered (h : Attended w) {e : Nat} {stage : Stage (Work P A V E) (Result V E)}
    (hstage : w.cache.flights.stage? e = some stage) (hover : stage.isRunning = false)
    {key : Key P A} {ticket : Ticket}
    (hget : w.cache.flights.registry.get? key = some ticket) : ticket.execution ≠ e := by
  rintro rfl
  obtain ⟨⟨x, work, hx, -, hrunning⟩, -⟩ := h.runs_of_registered hget
  rw [Flights.stage?_of_getElem? hx, Option.some.injEq] at hstage
  rw [← hstage, hrunning] at hover
  cases hover

end Attended

/-- A poll of a running execution polls its work, and only tells about it afterwards. -/
theorem Load.env_pollAttached {e : Nat} {work : Work P A V E}
    (h : c.flights.stage? e = some (.running work)) :
    ∃ events, (pollAttached e c).2.env =
      (work.pollAs (some e) c.env).2.noteAll events := by
  obtain ⟨x, hx, hstage⟩ := Flights.exists_of_stage? h
  unfold pollAttached Flights.poll
  simp only [hx, hstage]
  rcases work.pollAs (some e) c.env with ⟨rest | outcome, env'⟩
  · exact ⟨_, rfl⟩
  · simp only
    rcases Flights.release _ e with ⟨f', ns⟩
    refine ⟨ns.map .registry ++ [.received (some e) (resultOf outcome)], ?_⟩
    simp [receive, Cache.note, Environment.note, Environment.noteRegistry, Environment.noteAll]

/-- A load that may share calls the source at its first poll, if nothing runs for its key. -/
theorem Attended.calls (h : Attended w) {key : Key P A} (hvacant : w.cache.flights.Vacant key) :
    let polled := ((Load.unstarted key true).poll w.cache).2.env
    polled.called = w.cache.env.called ++ [key.params] ∧
      .called (w.cache.env.called.length + 1) key ∈ polled.trace := by
  rcases Flights.enter_cases h.tracked h.registered key (.fresh key) with
    ⟨e, x, hx, hkey, hrun, -⟩ | ⟨-, hstart⟩
  · exact absurd hkey (hvacant hx hrun)
  -- The load begins an execution, and the first poll of its work calls the source.
  have hrunning := w.cache.flights.stage?_start_self key (.fresh key)
  show _ ∧ _
  unfold Load.poll
  simp only [hstart]
  obtain ⟨events, hpolled⟩ := Load.env_pollAttached
    (c := ⟨w.cache.env.noteRegistry [(w.cache.flights.start key (.fresh key)).2.2], _⟩) hrunning
  obtain ⟨told, htrace, hbooks, -, hcalled, -⟩ := Work.books_pollAs
    (some w.cache.flights.executions.length) (.fresh key)
    (w.cache.env.noteRegistry [(w.cache.flights.start key (.fresh key)).2.2])
  have hmem : (w.cache.env.called.length + 1, key) ∈ (books told).calls := by
    rw [hbooks]
    exact List.mem_singleton_self _
  obtain ⟨event, hevent, hcall⟩ := List.mem_filterMap.mp hmem
  have hevent' : event = .called (w.cache.env.called.length + 1) key := by
    cases event with
    | called number key' =>
      cases hcall
      rfl
    | _ => cases hcall
  rw [show (w.cache.flights.start key (.fresh key)).1 = w.cache.flights.executions.length from rfl,
    hpolled]
  refine ⟨hcalled, ?_⟩
  show _ ∈ _ ++ events
  rw [htrace, ← hevent']
  exact List.mem_append_left _ (List.mem_append_right _ hevent)

end ReadThrough
