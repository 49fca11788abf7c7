import ReadThrough.Proofs.Flights.Keeps
import ReadThrough.Proofs.Load.Lives
import ReadThrough.Proofs.Session.Attendance
import ReadThrough.Proofs.Session.Contents
import ReadThrough.Proofs.Session.Deliveries
/-!
# Proofs: what loads are addressed to

A load is for the key that it was begun for, however it shares its work (`Load.Addressed`): the work
of an execution is for the key of the execution, and so is the end that the books have of it. So a
load that ends does so with the result of an execution for exactly its key.
-/

namespace ReadThrough

variable {P A V E : Type}

/-- Running work is for the key of its execution. -/
def Keyed (f : Flights (Key P A) (Work P A V E) (Result V E)) : Prop :=
  ∀ ⦃e : Nat⦄ ⦃x : Execution (Key P A) (Work P A V E) (Result V E)⦄ ⦃work : Work P A V E⦄,
    f.executions[e]? = some x → x.stage = .running work → work.key = x.key

/-- The books have executions under their keys. -/
def Filed (T : List (Event P A V E)) (f : Flights (Key P A) (Work P A V E) (Result V E)) : Prop :=
  ∀ s ∈ (books T).settled, ∀ e, s.execution = some e →
    ∃ x, f.executions[e]? = some x ∧ x.key = s.key

/-- A load is for a key. -/
def Load.Addressed (f : Flights (Key P A) (Work P A V E) (Result V E)) (key : Key P A) :
    Load P A V E → Prop
  | .unstarted key' _ => key' = key
  | .attached e => ∃ x, f.executions[e]? = some x ∧ x.key = key
  | .alone work => work.key = key

/-- A load is for its key as long as the executions are kept. -/
theorem Load.Addressed.kept {f f' : Flights (Key P A) (Work P A V E) (Result V E)} {key : Key P A}
    {load : Load P A V E} (h : load.Addressed f key) (hkeeps : f.Keeps f') :
    load.Addressed f' key := by
  cases load with
  | unstarted key' share => exact h
  | alone work => exact h
  | attached e =>
    obtain ⟨x, hx, hkey⟩ := h
    obtain ⟨y, hy, hsame, -⟩ := hkeeps hx
    exact ⟨y, hy, hsame.trans hkey⟩

section Keyed

variable {f : Flights (Key P A) (Work P A V E) (Result V E)}

/-- Running work stays for the key of its execution when the execution is replaced by one for the
same key. -/
theorem Keyed.set (h : Keyed f) {e : Nat}
    {x y : Execution (Key P A) (Work P A V E) (Result V E)} (hx : f.executions[e]? = some x)
    (hkey : y.key = x.key) (hwork : ∀ work, y.stage = .running work → work.key = x.key) :
    Keyed (f.set e y) := by
  intro e' z work hz hstage
  rcases Flights.executions_set hx hz with ⟨-, rfl⟩ | ⟨-, hz⟩
  · rw [hkey]
    exact hwork work hstage
  · exact h hz hstage

variable [DecidableEq P] [DecidableEq A]

/-- To release an execution changes no work. -/
theorem Keyed.release (h : Keyed f) (e : Nat) : Keyed (f.release e).1 := by
  intro e' z work hz hstage
  cases hx : f.executions[e]? with
  | none =>
    have hnothing : (f.release e).1 = f := by simp only [Flights.release, hx]
    rw [hnothing] at hz
    exact h hz hstage
  | some x =>
    cases hrel : x.released with
    | true =>
      rw [Flights.release_of_released hx hrel] at hz
      exact h hz hstage
    | false =>
      rw [Flights.release_executions hx hrel] at hz
      have hset : Keyed (f.set e { x with released := true }) :=
        h.set hx rfl fun work hrunning => h hx hrunning
      exact hset hz hstage

/-- Work that is begun is for the key of its execution. -/
theorem Keyed.enter (h : Keyed f) (key : Key P A) : Keyed (f.enter key (.fresh key)).2.1 := by
  unfold Flights.enter
  cases hjoin : f.joinable? key with
  | some found =>
    have hx := Flights.executions_of_joinable? hjoin
    exact h.set hx rfl fun work hrunning => h hx hrunning
  | none =>
    intro e x work hx hstage
    rcases Flights.executions_start_cases hx with hx | ⟨-, rfl⟩
    · exact h hx hstage
    · cases hstage
      rfl

/-- A poll leaves work for the key that it was for. -/
theorem Keyed.poll (h : Keyed f) (e : Nat) (env : Environment P A V E) :
    Keyed (f.poll (Work.pollAs (some e)) e env).2.1 := by
  rcases Flights.poll_cases (Work.pollAs (some e)) f e env with ⟨-, hidle⟩ | hpolls
  · rw [hidle]
    exact h
  generalize f.poll (Work.pollAs (some e)) e env = polled at hpolls
  cases hpolls with
  | @waits x work left env' hx hstage hwork =>
    refine h.set hx rfl fun work' hrunning => ?_
    obtain rfl : left = work' := Stage.running.inj hrunning
    rw [← h hx hstage]
    refine work.keepsKey_poll env left ?_
    rw [Work.pollAs_eq] at hwork
    exact congrArg Prod.fst hwork
  | @settles x work outcome env' hx hstage hwork =>
    have hset : Keyed (f.set e { x with stage := .settled outcome, callers := x.callers - 1 }) :=
      h.set hx rfl nofun
    exact hset.release e
  | receives hx hstage => exact h.set hx rfl fun work hrunning => h hx hrunning

/-- A caller that leaves changes no work but to cancel it. -/
theorem Keyed.leave (h : Keyed f) (e : Nat) : Keyed (f.leave e).2.1 := by
  unfold Flights.leave Flights.detach
  cases hx : f.executions[e]? with
  | none => exact h
  | some x =>
    cases hstage : x.stage with
    | running work =>
      simp only [hstage]
      by_cases hlast : x.callers - 1 = 0
      · have hset : Keyed (f.set e { x with callers := 0, stage := .abandoned }) :=
          h.set hx rfl nofun
        simp only [hlast, if_true]
        exact hset.release e
      · simp only [hlast, if_false]
        exact h.set hx rfl fun work' hrunning => h hx (hstage.trans hrunning)
    | settled outcome =>
      simp only [hstage]
      exact h.set hx rfl nofun
    | abandoned =>
      simp only [hstage]
      exact h.set hx rfl nofun

end Keyed

/-! ## Moves -/

variable [DecidableEq P] [DecidableEq A]

section Moves

variable {w w' : World P A V E} {c : Cache P A V E} {T events : List (Event P A V E)}
  {source : Source P V E}

/-- A move keeps the executions. -/
theorem Move.keeps (h : Move w w') : w.cache.flights.Keeps w'.cache.flights := by
  cases h with
  | @acts c c' loads hacts =>
    show c.flights.Keeps c'.flights
    rw [hacts.flights_eq]
    exact .refl _
  | enters key => exact Flights.keeps_enter _ key _
  | @pollsAttached c loads e =>
    show c.flights.Keeps (Load.pollAttached e c).2.flights
    rw [Load.flights_pollAttached]
    exact Flights.keeps_poll _ _ e _
  | @pollsAlone c loads work =>
    show c.flights.Keeps (Load.pollAlone work c).2.flights
    rw [Load.flights_pollAlone]
    exact .refl _
  | @drops c loads load =>
    cases load with
    | unstarted key share => exact .refl _
    | alone work => exact .refl _
    | attached e =>
      show c.flights.Keeps (Load.drop (.attached e) c).flights
      rw [Load.flights_drop_attached]
      exact Flights.keeps_leave _ e
  | _ => exact .refl _

/-- A move leaves running work for the key of its execution. -/
theorem Keyed.move (hmove : Move w w') (h : Keyed w.cache.flights) : Keyed w'.cache.flights := by
  cases hmove with
  | @acts c c' loads hacts =>
    show Keyed c'.flights
    rw [hacts.flights_eq]
    exact h
  | enters key => exact h.enter key
  | @pollsAttached c loads e =>
    show Keyed (Load.pollAttached e c).2.flights
    rw [Load.flights_pollAttached]
    exact h.poll e _
  | @pollsAlone c loads work =>
    show Keyed (Load.pollAlone work c).2.flights
    rw [Load.flights_pollAlone]
    exact h
  | @drops c loads load =>
    cases load with
    | unstarted key share => exact h
    | alone work => exact h
    | attached e =>
      show Keyed (Load.drop (.attached e) c).flights
      rw [Load.flights_drop_attached]
      exact h.leave e
  | _ => exact h

/-- An execution that ends is filed under its key. -/
theorem Filed.does (h : Filed T w.cache.flights) (hkeyed : Keyed w.cache.flights)
    (htold : Told source T w) (hdoes : Does w events w')
    (hkeeps : w.cache.flights.Keeps w'.cache.flights) : Filed (T ++ events) w'.cache.flights := by
  have hkept : ∀ {T' : List (Event P A V E)}, Filed T' w.cache.flights →
      Filed T' w'.cache.flights := by
    intro T' hfiled s hs e he
    obtain ⟨x, hx, hkey⟩ := hfiled s hs e he
    obtain ⟨y, hy, hsame, -⟩ := hkeeps hx
    exact ⟨y, hy, hsame.trans hkey⟩
  have hapart : ∀ {T' events' : List (Event P A V E)}, Apart events' →
      Filed T' w'.cache.flights → Filed (T' ++ events') w'.cache.flights := by
    intro T' events' hapart hfiled s hs
    rw [hapart.settled_append] at hs
    exact hfiled s hs
  cases hdoes with
  | looks hlooks => exact hapart hlooks.apart (hkept h)
  | clears => exact hapart (apart_of_forall (List.forall_mem_singleton.mpr rfl)) (hkept h)
  | rests hquiet => exact hapart (apart_of_quiet hquiet) (hkept h)
  | @receives _ e outcome notices =>
    exact hapart (apart_endEvents notices (some e) (.finished outcome)) (hkept h)
  | @polls _ execution work rest progress env' events' notices hworks hpoll htrace hworks' henv
      hadvanced =>
    obtain ⟨⟨calls, published, hbooks⟩, -, -⟩ := htold.works hworks hpoll htrace
    rw [← List.append_assoc]
    refine hapart (apart_endEvents notices execution progress) (hkept fun s hs e he => ?_)
    rw [books_append, Books.settled_append, hbooks] at hs
    rcases List.mem_append.mp hs with hs | hs
    · exact h s hs e he
    · cases progress with
      | waiting left => cases hs
      | finished outcome =>
        obtain rfl := List.mem_singleton.mp hs
        obtain rfl : execution = some e := he
        obtain ⟨x, hx, hstage⟩ := Flights.exists_of_stage? hadvanced.1
        exact ⟨x, hx, (hkeyed hx hstage).symm⟩

end Moves

/-! ## What is known of a world -/

/-- What the events so far tell of a world, of its store, its executions and their keys. -/
structure Traced (seed : Store (Key P A) V) (source : Source P V E) (T : List (Event P A V E))
    (w : World P A V E) : Prop where
  recounts : Recounts source T w
  stocked : Stocked seed T w.cache.env
  attended : Attended w
  keyed : Keyed w.cache.flights
  filed : Filed T w.cache.flights

section Traced

variable {seed : Store (Key P A) V} {source : Source P V E} {T events : List (Event P A V E)}
  {w w' : World P A V E} {c c' : Cache P A V E} {loads loads' : Multiset (Load P A V E)}

/-- What a move does keeps what is told of the store and the executions. -/
theorem Traced.does (h : Traced seed source T w) (hmove : Move w w') (hdoes : Does w events w') :
    Traced seed source (T ++ events) w' := by
  obtain ⟨⟨htold, hdelivered⟩, hstocked, hattended, hkeyed, hfiled⟩ := h
  exact
    { recounts := ⟨htold.does hdoes, hdelivered.does htold hdoes⟩
      stocked := hstocked.does hdoes
      attended := hattended.move hmove
      keyed := hkeyed.move hmove
      filed := hfiled.does hkeyed htold hdoes hmove.keeps }

/-- What is told of the store and the executions does not depend on the trace before. -/
theorem Traced.fresh {s : Session P A V E}
    (h : Traced seed source T s.world) : Traced seed source T s.fresh.world :=
  ⟨h.recounts.fresh, h.stocked, ⟨h.attended.tracked, h.attended.registered⟩, h.keyed, h.filed⟩

/-- Moves that are told keep what is known, and executions keep their keys. -/
theorem Traced.goes (h : Traced seed source T w) (hmoves : Moves w w')
    (htrace : w'.cache.env.trace = w.cache.env.trace ++ events) :
    Traced seed source (T ++ events) w' ∧ w.cache.flights.Keeps w'.cache.flights := by
  have hkept := kept_moves
    (I := fun T w₁ => Traced seed source T w₁ ∧ w.cache.flights.Keeps w₁.cache.flights)
    (fun hmove ⟨hknown, hkeeps⟩ => by
      obtain ⟨told, htold, hdoes⟩ := hmove.reaches
      exact ⟨told, htold, hknown.does hmove hdoes, hkeeps.trans hmove.keeps⟩)
    hmoves ⟨h, .refl _⟩
  obtain ⟨told, htold, hend⟩ := hkept
  obtain rfl : told = events := List.append_cancel_left (htold.symm.trans htrace)
  exact hend

/-- Moves only add to what was told. -/
theorem Moves.trace (hmoves : Moves w w') :
    ∃ events, w'.cache.env.trace = w.cache.env.trace ++ events := by
  induction hmoves with
  | refl => exact ⟨[], (List.append_nil _).symm⟩
  | tail _ hlast ih =>
    obtain ⟨events, htrace⟩ := ih
    obtain ⟨events', htrace', -⟩ := hlast.reaches
    exact ⟨events ++ events', by rw [htrace', htrace, List.append_assoc]⟩

/-! ## Loads -/

/-- A load that waits for an execution goes on waiting for it. -/
theorem Load.waiting_pollAttached {e : Nat} {left : Load P A V E}
    (h : (pollAttached e c).1 = .waiting left) : left = .attached e := by
  unfold pollAttached at h
  rcases hpoll : c.flights.poll (Work.pollAs (some e)) e c.env with
    ⟨_ | outcome, f', env', ns⟩ <;> rw [hpoll] at h
  · cases h
    rfl
  · cases h

/-- Work that is not shared stays so, and for its key. -/
theorem Load.waiting_pollAlone {work : Work P A V E} {left : Load P A V E}
    (h : (pollAlone work c).1 = .waiting left) :
    ∃ rest : Work P A V E, left = .alone rest ∧ rest.key = work.key := by
  have hkept := work.keepsKey_poll c.env
  have hprogress : (work.pollAs none c.env).1 = (work.poll c.env).1 := by rw [Work.pollAs_eq]
  rw [← hprogress] at hkept
  unfold pollAlone at h
  rcases hpoll : work.pollAs none c.env with ⟨rest | outcome, env'⟩ <;> rw [hpoll] at h hkept
  · cases h
    exact ⟨rest, rfl, hkept rest rfl⟩
  · cases h

/-- A result is that of an execution for the key. -/
def Executed (T : List (Event P A V E)) (key : Key P A) (result : Result V E) : Prop :=
  ∃ s ∈ (books T).settled, s.key = key ∧ result = Load.resultOf s.outcome

/-- What a poll of a load for a key comes to: it goes on for the key, or it ends with the result of
an execution for the key. -/
structure Load.Fulfils (T : List (Event P A V E)) (key : Key P A) (polled : Polled P A V E) :
    Prop where
  waiting : ∀ left, polled.1 = .waiting left → left.Addressed polled.2.flights key
  finished : ∀ result, polled.1 = .finished result → Executed T key result

/-- A shared load ends with the result of its execution, which is for its key. -/
theorem Load.fulfils_pollAttached {e : Nat} {key : Key P A}
    (h : Traced seed source T ⟨c, .attached e ::ₘ loads⟩)
    (haddressed : (Load.attached e).Addressed c.flights key)
    (htrace : (pollAttached e c).2.env.trace = c.env.trace ++ events) :
    Fulfils (T ++ events) key (pollAttached e c) := by
  obtain ⟨hafter, hkeeps⟩ := h.goes (.single (.pollsAttached e)) htrace
  have haddressed' : (Load.attached e).Addressed (pollAttached e c).2.flights key :=
    haddressed.kept hkeeps
  have hpolls := Flights.polls_of_waiting (Work.pollAs (some e)) h.attended.tracked
    (waitingAmong_attached_pos loads e) c.env
  refine ⟨fun left hleft => ?_, fun result hresult => ?_⟩
  · rw [waiting_pollAttached hleft]
    exact haddressed'
  · -- The execution has settled by now, and the books have it under its key.
    have hsettled : ∃ outcome, result = resultOf outcome ∧
        (pollAttached e c).2.flights.stage? e = some (.settled outcome) := by
      rw [flights_pollAttached]
      unfold pollAttached at hresult
      rcases hpoll : c.flights.poll (Work.pollAs (some e)) e c.env with
        ⟨_ | outcome, f', env', ns⟩ <;> rw [hpoll] at hpolls hresult
      · cases hresult
      · cases hresult
        obtain ⟨x, hx, hstage⟩ := hpolls.outcome h.attended.tracked
        exact ⟨outcome, rfl, hstage ▸ Flights.stage?_of_getElem? hx⟩
    obtain ⟨outcome, rfl, hstage⟩ := hsettled
    obtain ⟨s, hs, hexecution, houtcome⟩ :=
      hafter.recounts.told.answered.recorded e outcome hstage
    obtain ⟨x, hx, hkey⟩ := hafter.filed s hs e hexecution
    obtain ⟨y, hy, hykey⟩ := haddressed'
    obtain rfl : x = y := Option.some.inj (hx.symm.trans hy)
    exact ⟨s, hs, hkey.symm.trans hykey, by rw [houtcome]⟩

/-- A load of a single caller ends with the result of its own work. -/
theorem Load.fulfils_pollAlone (work : Work P A V E)
    (htrace : (pollAlone work c).2.env.trace = c.env.trace ++ events) :
    Fulfils (T ++ events) work.key (pollAlone work c) := by
  refine ⟨fun left hleft => ?_, fun result hresult => ?_⟩
  · obtain ⟨rest, rfl, hkey⟩ := waiting_pollAlone hleft
    exact hkey
  · obtain ⟨told, htold, hbooks, -⟩ := Work.books_pollAs none work c.env
    have hprogress : (work.pollAs none c.env).1 = (work.poll c.env).1 := by rw [Work.pollAs_eq]
    rw [← hprogress] at hbooks
    unfold pollAlone at htrace hresult
    rcases hpoll : work.pollAs none c.env with ⟨left | outcome, env'⟩ <;>
      rw [hpoll] at htrace htold hbooks hresult
    · cases hresult
    · cases hresult
      have happend : c.env.trace ++ events =
          c.env.trace ++ (told ++ [.received none (resultOf outcome)]) := by
        rw [← List.append_assoc, ← htold, ← htrace]
        rfl
      have hevents := List.append_cancel_left happend
      refine ⟨⟨none, work.callNumber c.env, work.key, outcome⟩, ?_, rfl, rfl⟩
      rw [hevents, books_append, books_append, hbooks]
      refine List.mem_append_right _ (List.mem_append_left _ ?_)
      exact List.mem_singleton_self _

/-- A poll of any load for a key goes on for the key or ends with a result of an execution for it.
-/
theorem Load.fulfils_poll {load : Load P A V E} {key : Key P A}
    (h : Traced seed source T ⟨c, load ::ₘ loads⟩) (haddressed : load.Addressed c.flights key)
    (htrace : (load.poll c).2.env.trace = c.env.trace ++ events) :
    Fulfils (T ++ events) key (load.poll c) := by
  cases load with
  | attached e => exact fulfils_pollAttached h haddressed htrace
  | alone work =>
    obtain rfl : work.key = key := haddressed
    exact fulfils_pollAlone work htrace
  | unstarted key' share =>
    obtain rfl : key' = key := haddressed
    cases share with
    | false => exact fulfils_pollAlone (.fresh key') htrace
    | true =>
      -- The load first comes to an execution of its key.
      obtain ⟨hentered, hkeeps⟩ := h.goes (.single (.enters key')) rfl
      have hkey : (Load.attached (c.flights.enter key' (.fresh key')).1).Addressed
          (c.flights.enter key' (.fresh key')).2.1 key' := by
        rcases Flights.enter_cases h.attended.tracked h.attended.registered key' (.fresh key') with
          ⟨e, x, hx, hkey, -, henter⟩ | ⟨-, hstart⟩
        · rw [henter]
          exact ⟨_, Flights.executions_set_self hx, hkey⟩
        · rw [hstart]
          exact ⟨_, Flights.executions_start_self c.flights key' _, rfl⟩
      obtain ⟨told, htold⟩ := Moves.trace (Load.moves_poll (.attached _) _ loads)
      have hfulfils := fulfils_pollAttached hentered hkey htold
      rw [List.append_assoc] at hfulfils
      have happend : c.env.trace ++ ([.registry (c.flights.enter key' (.fresh key')).2.2] ++ told) =
          c.env.trace ++ events := by
        rw [← List.append_assoc, ← htrace]
        exact htold.symm
      rw [← List.append_cancel_left happend]
      exact hfulfils

end Traced

end ReadThrough
