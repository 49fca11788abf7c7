import ReadThrough.Proofs.Session.Addresses
import ReadThrough.Proofs.Session.Conformance
import ReadThrough.Proofs.Session.Endings
/-!
# Proofs: what tasks load

A task loads one key all its life, and its loads are shared or not as it was begun (`Task.aim?`).
Wherever only such loads are begun, all loads have come of them (`Load.Suits`), be they executions
of other callers that they have come to. So what a named task holds is a load of its own
(`Session.Steady`), in every run.
-/

namespace ReadThrough

variable {P A V E : Type}

/-! ## Loads -/

/-- A load may be begun, or it has come of one that may be. -/
def Load.Suits (starts : Key P A → Bool → Prop)
    (f : Flights (Key P A) (Work P A V E) (Result V E)) : Load P A V E → Prop
  | .unstarted key share => starts key share
  | .attached e => ∃ x, f.executions[e]? = some x ∧ starts x.key true
  | .alone work => starts work.key false

section Suits

variable {starts starts' : Key P A → Bool → Prop} {load : Load P A V E}
  {f f' : Flights (Key P A) (Work P A V E) (Result V E)}

/-- A load has come of one that may be begun as long as the executions are kept. -/
theorem Load.Suits.kept (h : load.Suits starts f) (hkeeps : f.Keeps f') :
    load.Suits starts f' := by
  cases load with
  | unstarted key share => exact h
  | alone work => exact h
  | attached e =>
    obtain ⟨x, hx, hstarts⟩ := h
    obtain ⟨y, hy, hkey, -⟩ := hkeeps hx
    exact ⟨y, hy, hkey.symm ▸ hstarts⟩

/-- A load has come of one that may be begun if more may be begun. -/
theorem Load.Suits.mono (h : load.Suits starts f)
    (hstarts : ∀ {key share}, starts key share → starts' key share) : load.Suits starts' f := by
  cases load with
  | unstarted key share => exact hstarts h
  | alone work => exact hstarts h
  | attached e =>
    obtain ⟨x, hx, hmay⟩ := h
    exact ⟨x, hx, hstarts hmay⟩

end Suits

variable [DecidableEq P] [DecidableEq A]

namespace Load

variable {starts : Key P A → Bool → Prop} {load left : Load P A V E} {c : Cache P A V E}

/-- A poll leaves a load that has come of the same one. -/
theorem suits_poll (hlabelled : c.flights.Labelled) (h : load.Suits starts c.flights)
    (hleft : (load.poll c).1 = .waiting left) : left.Suits starts (load.poll c).2.flights := by
  have hattached : ∀ {e : Nat} {c : Cache P A V E}, (attached e).Suits starts c.flights →
      (pollAttached e c).1 = .waiting left → left.Suits starts (pollAttached e c).2.flights := by
    intro e c h hleft
    rw [waiting_pollAttached hleft, flights_pollAttached]
    exact h.kept (Flights.keeps_poll _ _ e _)
  have halone : ∀ work : Work P A V E, starts work.key false →
      (pollAlone work c).1 = .waiting left → left.Suits starts (pollAlone work c).2.flights := by
    intro work h hleft
    obtain ⟨rest, rfl, hkey⟩ := waiting_pollAlone hleft
    show starts rest.key false
    rw [hkey]
    exact h
  cases load with
  | attached e => exact hattached h hleft
  | alone work => exact halone work h hleft
  | unstarted key share =>
    cases share with
    | false => exact halone (.fresh key) h hleft
    | true =>
      obtain ⟨-, x, hx, rfl⟩ := hlabelled.enter key (.fresh key)
      exact hattached ⟨x, hx, h⟩ hleft

end Load

/-! ## Worlds -/

/-- The registry names executions for their keys, and all loads may be begun or have come of loads
that may be. -/
structure Suited (starts : Key P A → Bool → Prop) (w : World P A V E) : Prop where
  labelled : w.cache.flights.Labelled
  suits : ∀ load ∈ w.loads, load.Suits starts w.cache.flights

section Suited

variable {starts : Key P A → Bool → Prop} {w w' : World P A V E} {visits : List Visit}

/-- Moves keep the executions. -/
theorem Moves.keeps (h : Moves w w') : w.cache.flights.Keeps w'.cache.flights := by
  induction h with
  | refl => exact .refl _
  | tail _ hlast ih => exact ih.trans hlast.keeps

/-- A move keeps the executions under the keys that they are loaded for. -/
theorem Move.labelled (hmove : Move w w') (h : w.cache.flights.Labelled) :
    w'.cache.flights.Labelled := by
  cases hmove with
  | @acts c c' loads hacts =>
    show c'.flights.Labelled
    rw [hacts.flights_eq]
    exact h
  | enters key => exact (h.enter key _).1
  | @pollsAttached c loads e =>
    show (Load.pollAttached e c).2.flights.Labelled
    rw [Load.flights_pollAttached]
    exact h.poll _ e _
  | @pollsAlone c loads work =>
    show (Load.pollAlone work c).2.flights.Labelled
    rw [Load.flights_pollAlone]
    exact h
  | @drops c loads load =>
    cases load with
    | unstarted key share => exact h
    | alone work => exact h
    | attached e =>
      show (Load.drop (.attached e) c).flights.Labelled
      rw [Load.flights_drop_attached]
      exact h.leave e
  | closes => exact fun key ticket hget => by cases hget
  | begins | detours => exact h

/-- Moves keep the executions under the keys that they are loaded for. -/
theorem Moves.labelled (hmoves : Moves w w') (h : w.cache.flights.Labelled) :
    w'.cache.flights.Labelled := by
  induction hmoves with
  | refl => exact h
  | tail _ hlast ih => exact hlast.labelled ih

/-- A load step begins only loads that may be begun, so that all loads have come of such. -/
theorem Suited.loadStep (hloadStep : LoadStep SessionActs starts w visits w')
    (h : Suited starts w) :
    Suited starts w' := by
  have hmoves := hloadStep.moves SessionActs.moves
  have hkeeps := hmoves.keeps
  refine ⟨hmoves.labelled h.labelled, fun load hload => ?_⟩
  cases hloadStep with
  | rests hrests =>
    cases hrests with
    | acts => exact (h.suits load hload).kept hkeeps
    | closes => exact absurd hload (Multiset.notMem_zero load)
  | begins hstarts =>
    rcases Multiset.mem_cons.mp hload with rfl | hload
    · exact hstarts
    · exact h.suits load hload
  | @polls c loads polled =>
    have hrest : ∀ load ∈ loads, load.Suits starts (polled.poll c).2.flights := fun load hload =>
      (h.suits load (Multiset.mem_cons_of_mem hload)).kept hkeeps
    have hsuits := h.suits polled (Multiset.mem_cons_self ..)
    rcases hpoll : (polled.poll c).1 with left | result <;> rw [hpoll] at hload
    · rcases Multiset.mem_cons.mp hload with rfl | hload
      · exact Load.suits_poll h.labelled hsuits hpoll
      · exact hrest load hload
    · exact hrest load hload
  | drops dropped => exact (h.suits load (Multiset.mem_cons_of_mem hload)).kept hkeeps

/-- Along a path all loads have come of such that may be begun. -/
theorem Suited.reaches (hreach : LoadReaches SessionActs starts w w') (h : Suited starts w) :
    Suited starts w' := by
  obtain ⟨visits, hpath⟩ := hreach
  induction hpath with
  | refl => exact h
  | tail _ hlast ih => exact ih.loadStep hlast

end Suited

/-! ## Tasks -/

namespace Task

/-- The load of a task is for its key, and shared only if it may be. -/
def Suited (f : Flights (Key P A) (Work P A V E) (Result V E)) (task : Task P A V E) : Prop :=
  ∀ load, task.load? = some load → load.Suits (fun key share => task.aim? = some (key, share)) f

variable {task : Task P A V E} {c : Cache P A V E}
  {f f' : Flights (Key P A) (Work P A V E) (Result V E)}

omit [DecidableEq P] [DecidableEq A]

/-- The load of a task is its own as long as the executions are kept. -/
theorem Suited.kept (h : task.Suited f) (hkeeps : f.Keeps f') : task.Suited f' :=
  fun load hload => (h load hload).kept hkeeps

/-- Whoever holds a load has something to load. -/
theorem exists_aim {load : Load P A V E} (hload : task.load? = some load) :
    ∃ key share, task.aim? = some (key, share) := by
  cases task with
  | call whole request => exact ⟨_, _, rfl⟩
  | fetch request => exact ⟨_, _, rfl⟩
  | watch w => exact ⟨_, _, rfl⟩
  | updates | errors | ended => cases hload

/-- The load of a new task is its own. -/
theorem suited_create (c : Cache P A V E) (request : Request P A V) :
    (create c request).1.Suited f := by
  intro load hload
  rw [aim?_create]
  have hcall : ∀ (key : Key P A) (plan : Plan V) (terms : Terms),
      (Call.create key plan terms : Call P A V E).load? = some load →
      load.Suits (fun key' share => some (key, terms.share) = some (key', share)) f := by
    intro key plan terms hload
    rw [Call.load?_create] at hload
    split at hload
    · cases hload
    · cases hload
      rfl
  cases request with
  | stream whole key plan terms => exact hcall key plan terms hload
  | fetch params policy terms => exact hcall _ _ terms hload
  | watch params retries =>
    cases hload
    rfl
  | updates | errors => cases hload

variable [DecidableEq P] [DecidableEq A] [DecidableEq V]

/-- A poll leaves a task with a load of its own. -/
theorem Suited.poll (h : task.Suited c.flights) (hsound : task.Sound)
    (hlabelled : c.flights.Labelled) : (task.poll c).2.1.Suited (task.poll c).2.2.flights := by
  intro load hload
  -- By itself, the task follows a path that begins only loads of its own.
  let own (key : Key P A) (share : Bool) : Prop := task.aim? = some (key, share)
  have hfit : task.Fit own := ⟨hsound, fun _ _ haim => haim⟩
  have hbefore : ReadThrough.Suited own ⟨c, held task.load? 0⟩ := by
    refine ⟨hlabelled, fun load' hload' => ?_⟩
    cases hheld : task.load? with
    | none =>
      rw [hheld] at hload'
      exact absurd hload' (Multiset.notMem_zero load')
    | some load₀ =>
      rw [hheld] at hload'
      obtain rfl := Multiset.mem_singleton.mp hload'
      exact h load' hheld
  obtain ⟨hreach, hfit'⟩ := reaches_poll hfit c 0
  have hmem : load ∈ held (task.poll c).2.1.load? 0 := by
    rw [hload]
    exact Multiset.mem_singleton_self load
  have hafter := (hbefore.reaches hreach.sessionActs).suits load hmem
  -- The task loads the same as before.
  obtain ⟨key, share, haim⟩ := exists_aim hload
  refine hafter.mono fun {key' share'} hown => ?_
  rw [haim, ← hown]
  exact (hfit'.allowed key share haim).symm

end Task

/-! ## Sessions -/

namespace Session

/-- All tasks are sound, the executions have the callers that they make, and their loads are their
own. -/
structure Steady (s : Session P A V E) : Prop where
  sound : s.Sound
  attended : Attended s.world
  aimed : ∀ ⦃id : String⦄ ⦃task : Task P A V E⦄, s.tasks.get? id = some task →
    task.Suited s.cache.flights

variable {s s' : Session P A V E}

/-- An empty trace leaves a session steady. -/
theorem Steady.fresh (h : s.Steady) : s.fresh.Steady :=
  ⟨h.sound, ⟨h.attended.tracked, h.attended.registered⟩, h.aimed⟩

/-- Moves leave a session steady whose tasks are the old ones or hold loads of their own. -/
theorem Steady.goes (h : s.Steady) (hgoes : Goes s s')
    (htasks : ∀ id task, s'.tasks.get? id = some task →
      s.tasks.get? id = some task ∨ task.Suited s'.cache.flights) : s'.Steady := by
  obtain ⟨hmoves, hsound⟩ := hgoes
  refine ⟨hsound, h.attended.moves hmoves, fun id task hget => ?_⟩
  rcases htasks id task hget with hsame | hsuited
  · exact (h.aimed hsame).kept hmoves.keeps
  · exact hsuited

/-- The same if the tasks stay, unless they are dropped. -/
theorem Steady.goes_of_same (h : s.Steady) (hgoes : Goes s s')
    (htasks : ∀ id, s'.tasks.get? id = s.tasks.get? id ∨ s'.tasks.get? id = none) :
    s'.Steady := by
  refine h.goes hgoes fun id task hget => .inl ?_
  rcases htasks id with hsame | hnone
  · exact hsame.symm.trans hget
  · rw [hnone] at hget
    cases hget

/-- To begin a task leaves a session steady. -/
theorem Steady.begins (h : s.Steady) (id : String) (request : Request P A V) :
    (s.beginTask id request).Steady := by
  have hallowed : request.Allowed fun _ _ => True := fun _ _ _ => trivial
  have hgoes := (travels_beginTask h.sound.fit id hallowed).sessionActs.goes
  refine h.goes hgoes fun id' task hget => ?_
  unfold beginTask at hget ⊢
  rcases hnew : Task.create s.cache request with ⟨new, cache⟩
  rw [hnew] at hget
  by_cases hid : id' = id
  · subst hid
    obtain rfl : new = task := Option.some.inj ((Table.get?_insert_self _ _ _).symm.trans hget)
    have hcreated := Task.suited_create (f := (dropTask id' { s with cache }).cache.flights)
      s.cache request
    rw [hnew] at hcreated
    exact .inr hcreated
  · have hkept : (dropTask id { s with cache }).tasks.get? id' = some task :=
      (Table.get?_insert_of_ne _ _ hid).symm.trans hget
    rw [tasks_dropTask, if_neg hid] at hkept
    exact .inl hkept

variable [DecidableEq V]

/-- To poll a task leaves a session steady. -/
theorem Steady.polls (h : s.Steady) (id : String) : (s.pollTask id).2.Steady := by
  refine h.goes (goes_pollTask h.sound id) fun id' task hget => ?_
  by_cases hid : id' = id
  · subst hid
    unfold pollTask at hget ⊢
    cases hold : s.tasks.get? id' with
    | none =>
      rw [hold] at hget
      exact .inl (hold.symm.trans hget)
    | some old =>
      rw [hold] at hget
      obtain rfl := Option.some.inj ((Table.get?_insert_self _ _ _).symm.trans hget)
      exact .inr ((h.aimed hold).poll (h.sound hold) h.attended.registered.labelled)
  · rw [tasks_pollTask_of_ne s hid] at hget
    exact .inl hget

/-- Every step but a write past the cache leaves a session steady. -/
theorem Steady.performs (h : s.Steady) {st : Step P A V} (hst : st.isPut = false) :
    (s.perform st).2.Steady := by
  have hgoes := (travels_perform h.sound.fit hst st.allowed_all).goes
  have hother : (∀ id, ¬ st.begins id) → (∀ id, st ≠ .poll id) → (∀ id, st ≠ .drain id) →
      (∀ ids, st ≠ .join ids) → (s.perform st).2.Steady := fun hbegins hpoll hdrain hjoin =>
    h.goes_of_same hgoes fun id => tasks_perform s (hbegins id) hpoll hdrain hjoin
  cases st with
  | begin id request => exact h.begins id request
  | poll id => exact h.polls id
  | drain id =>
    exact drain_keeps (K := Steady) (fun _ h => h.polls id) (s.patience [id]) h
  | join ids =>
    exact join_keeps (K := Steady) (fun id (_ : id ∈ ids) _ h => h.polls id) (s.patience ids) h
  | _ => exact hother (fun _ => nofun) (fun _ => nofun) (fun _ => nofun) fun _ => nofun

/-- Every step leaves a session steady. -/
theorem Steady.steps (h : s.Steady) (st : Step P A V) : (s.step st).2.Steady := by
  rw [step_snd]
  split
  · exact h.fresh
  · cases hst : st.isPut with
    | false => exact h.fresh.performs hst
    | true =>
      obtain ⟨key, entry, rfl⟩ := Step.eq_put_of_isPut hst
      exact ⟨h.sound, ⟨h.attended.tracked, h.attended.registered⟩, h.aimed⟩

/-- Every run leaves a session steady. -/
theorem Steady.run (h : s.Steady) (steps : List (Step P A V)) : (s.run steps).2.Steady := by
  induction steps generalizing s with
  | nil => exact h
  | cons st rest ih => exact ih (h.steps st)

/-- A session with a new cache is steady. -/
theorem steady_create (setup : Setup (Store (Key P A) V)) (source : Source P V E) :
    (create (Cache.create setup source)).Steady :=
  ⟨fun _ _ hget => (by cases hget), attended_run setup source [], fun _ _ hget => (by cases hget)⟩

/-- A session is steady throughout every run from the beginning. -/
theorem steady_run (setup : Setup (Store (Key P A) V)) (source : Source P V E)
    (steps : List (Step P A V)) :
    ((create (Cache.create setup source)).run steps).2.Steady :=
  (steady_create setup source).run steps

end Session

end ReadThrough
