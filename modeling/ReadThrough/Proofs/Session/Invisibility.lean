import ReadThrough.Proofs.Session.Seclusion
/-!
# Proofs: subscribers are invisible

Take any subscriptions out of a run, with all that is done with them. Every other step then reports
the same, but for whether anybody heard what was published, and leaves the same store and the same
loads under way (`Session.subscribers_invisible`). It does not matter whether these subscribers ever
read anything, or how much they miss.
-/

namespace ReadThrough

variable {P A V E : Type}

/-- What happens besides subscribers: all but that nobody heard, or that somebody missed
something. -/
def deeds (events : List (Event P A V E)) : List (Event P A V E) :=
  (audible events).filter fun event => !event.isLag

/-- The deeds among two lists of events are those of the first and then those of the second. -/
theorem deeds_append (events events' : List (Event P A V E)) :
    deeds (events ++ events') = deeds events ++ deeds events' := by
  rw [deeds, audible_append]
  exact List.filter_append _ _

/-- To be told of a loss is no deed. -/
theorem deeds_eq_nil {events : List (Event P A V E)} (h : ∀ event ∈ events, event.isLag = true) :
    deeds events = [] := by
  refine List.filter_eq_nil_iff.mpr fun event hevent => ?_
  rw [h event (List.mem_of_mem_filter hevent)]
  exact Bool.false_ne_true

namespace Session

/-- What is reported of the steps that are not those of hidden subscriptions. -/
def overt (hidden : Option String → Bool) (steps : List (Step P A V))
    (reports : List (Report P A V E)) : List (Report P A V E) :=
  ((steps.zip reports).filter fun p => !p.1.isOf hidden).map (·.2)

variable [DecidableEq P] [DecidableEq A] [DecidableEq V]

/-- The runs `steps` and `alone`, which lacks the steps of hidden subscriptions, go alike. -/
structure Unnoticed (hidden : Option String → Bool) (capacity : Nat) (s s' : Session P A V E)
    (steps alone : List (Step P A V)) : Prop where
  reports : (overt hidden steps (s.run steps).1).map Report.muted =
    (s'.run alone).1.map Report.muted
  events : deeds (eventsOf (s.run steps).1) = deeds (eventsOf (s'.run alone).1)
  last : Alongside (hidden ∘ some) capacity (s.run steps).2.fresh (s'.run alone).2.fresh

variable {hidden : Option String → Bool} {capacity : Nat} {s s' : Session P A V E}
  {st : Step P A V} {steps alone : List (Step P A V)}

omit [DecidableEq P] [DecidableEq A] [DecidableEq V] in
/-- Reports that are the same but for who heard have the same deeds. -/
theorem deeds_of_muted {r r' : Report P A V E} (h : r'.muted = r.muted) :
    deeds r'.events = deeds r.events := by
  have haudible : audible r'.events = audible r.events := congrArg Report.events h
  rw [deeds, haudible, deeds]

omit [DecidableEq P] [DecidableEq A] [DecidableEq V] in
/-- The deeds of some reports are those of the first and then those of the rest. -/
theorem deeds_eventsOf_cons (r : Report P A V E) (reports : List (Report P A V E)) :
    deeds (eventsOf (r :: reports)) = deeds r.events ++ deeds (eventsOf reports) := by
  rw [← deeds_append]
  rfl

/-- A step that both runs have. -/
theorem Unnoticed.shared (h : Unnoticed hidden capacity (s.step st).2 (s'.step st).2 steps alone)
    (hvisible : st.isOf hidden = false) (hreport : (s'.step st).1.muted = (s.step st).1.muted) :
    Unnoticed hidden capacity s s' (st :: steps) (st :: alone) where
  reports := by
    have hovert : overt hidden (st :: steps) (s.run (st :: steps)).1 =
        (s.step st).1 :: overt hidden steps ((s.step st).2.run steps).1 := by
      show List.map _ (List.filter _ ((st, (s.step st).1) :: _)) = _
      rw [List.filter_cons_of_pos (by simp [hvisible])]
      rfl
    rw [hovert, List.map_cons, h.reports, ← hreport]
    rfl
  events := by
    show deeds (eventsOf ((s.step st).1 :: ((s.step st).2.run steps).1)) =
      deeds (eventsOf ((s'.step st).1 :: ((s'.step st).2.run alone).1))
    rw [deeds_eventsOf_cons, deeds_eventsOf_cons, h.events, deeds_of_muted hreport]
  last := h.last

/-- A step of hidden subscriptions. -/
theorem Unnoticed.skip (h : Unnoticed hidden capacity (s.step st).2 s' steps alone)
    (hof : st.isOf hidden = true) (hlags : ∀ event ∈ (s.step st).1.events, event.isLag = true) :
    Unnoticed hidden capacity s s' (st :: steps) alone where
  reports := by
    have hovert : overt hidden (st :: steps) (s.run (st :: steps)).1 =
        overt hidden steps ((s.step st).2.run steps).1 := by
      show List.map _ (List.filter _ ((st, (s.step st).1) :: _)) = _
      rw [List.filter_cons_of_neg (by simp [hof])]
      rfl
    rw [hovert, h.reports]
  events := by
    show deeds (eventsOf ((s.step st).1 :: ((s.step st).2.run steps).1)) = _
    rw [deeds_eventsOf_cons, deeds_eq_nil hlags, List.nil_append, h.events]
  last := h.last

/-- Runs without the steps of hidden subscriptions go alike. -/
theorem Alongside.run (h : Alongside (hidden ∘ some) capacity s.fresh s'.fresh)
    (hsingle : ∀ st ∈ steps, st.mixes (hidden ∘ some) = false)
    (hsubscribes : ∀ id request, .begin id request ∈ steps → hidden (some id) = true →
      request.Subscribes) :
    Unnoticed hidden capacity s s' steps (steps.filter fun st => !st.isOf hidden) := by
  induction steps generalizing s s' with
  | nil => exact ⟨rfl, rfl, h⟩
  | cons st rest ih =>
    obtain ⟨hfirst, hrest⟩ := List.forall_mem_cons.mp hsingle
    have hlater : ∀ id request, .begin id request ∈ rest → hidden (some id) = true →
        request.Subscribes := fun id request hmem => hsubscribes id request (.tail _ hmem)
    cases hof : st.isOf hidden with
    | false =>
      obtain ⟨hreport, hafter⟩ := h.step hof hfirst
      rw [List.filter_cons_of_pos (by simp [hof])]
      exact (ih hafter.fresh hrest hlater).shared hof hreport
    | true =>
      have hbegins : ∀ id request, st = .begin id request → request.Subscribes := by
        rintro id request rfl
        exact hsubscribes id request (.head _) hof
      obtain ⟨hlags, hafter⟩ := h.aside hof hbegins
      rw [List.filter_cons_of_neg (by simp [hof])]
      exact (ih hafter hrest hlater).skip hof hlags

/-- A session without tasks lacks no subscribers. -/
theorem alongside_create (hidden : String → Bool) (setup : Setup (Store (Key P A) V))
    (source : Source P V E) :
    let start := create (Cache.create setup source)
    Alongside hidden setup.broadcastCapacity start.fresh start.fresh := by
  intro start
  have haware : ∀ topic, start.Aware topic setup.broadcastCapacity := fun topic =>
    aware_run topic setup source []
  have hmeeting :
      Outputs.Meeting (fun _ _ _ => False) start.cache.env.outputs start.cache.env.outputs := by
    refine ⟨fun topic => ?_, nofun, rfl⟩
    have horderly : (topic.channel start.cache.env.outputs).Orderly :=
      ⟨(haware topic).full, (haware topic).carried⟩
    exact ⟨rfl, rfl, horderly, horderly⟩
  have hnone : ∀ id, start.tasks.get? id = none := fun _ => rfl
  have hcache : Cache.Meeting (fun _ _ _ => False) start.cache start.cache :=
    ⟨⟨_, rfl, hmeeting⟩, rfl⟩
  have hover : Overlooks hidden start start := by
    refine ⟨hcache, rfl, fun id _ => ?_, fun id _ => hnone id, fun id _ _ hget => ?_⟩
    · rw [hnone]
      exact .none
    · rw [hnone] at hget
      cases hget
  have halongside : Alongside hidden setup.broadcastCapacity start start := ⟨hover, haware, haware⟩
  exact halongside.fresh

/-- Subscribers are invisible. Write a run with single polls where a step polls hidden streams
together with other tasks, which does not change it, and take out all steps of hidden subscriptions.
Then all other steps report the same, but for whether anybody heard what was published. All that
happens besides is the same, and in the end so are the calls of the source, the store and the number
of shared loads under way. -/
theorem subscribers_invisible (setup : Setup (Store (Key P A) V)) (source : Source P V E)
    (steps : List (Step P A V)) (hidden : Option String → Bool)
    (hsubscribes : ∀ id request, .begin id request ∈ steps → hidden (some id) = true →
      request.Subscribes) :
    let start := create (Cache.create setup source)
    let single := start.unfolded (hidden ∘ some) steps
    let alone := single.filter fun st => !st.isOf hidden
    let last := (start.run steps).2
    let last' := (start.run alone).2
    Unfolds (hidden ∘ some) start steps single ∧
      (overt hidden single (start.run single).1).map Report.muted =
        (start.run alone).1.map Report.muted ∧
      deeds (eventsOf (start.run steps).1) = deeds (eventsOf (start.run alone).1) ∧
      last'.cache.env.called = last.cache.env.called ∧
      last'.cache.env.store = last.cache.env.store ∧
      last'.cache.ongoing = last.cache.ongoing := by
  intro start single alone last last'
  have hunfolds := unfolds (hidden ∘ some) start steps
  have hstart := alongside_create (hidden ∘ some) setup source
  have hrun : Unnoticed hidden setup.broadcastCapacity start start single alone :=
    hstart.run hunfolds.single fun id request hmem =>
      hsubscribes id request (hunfolds.begins id request hmem)
  refine ⟨hunfolds, hrun.reports, ?_, ?_⟩
  · rw [← hunfolds.events]
    exact hrun.events
  · have hlast := hrun.last.overlooks.cache
    rw [hunfolds.goes] at hlast
    obtain ⟨⟨v, henv, -⟩, hflights⟩ := hlast
    have hcalled := congrArg Environment.called henv
    have hstore := congrArg Environment.store henv
    exact ⟨hcalled, hstore, congrArg Flights.ongoing hflights⟩

/-- A source whose calls return their numbers at once. -/
def promptSource : Source Nat Nat Nat := fun number _ =>
  .replies { wait := {}, took := none, ending := .value number }

def pairSetup : Setup (Store (Key Nat Unit) Nat) :=
  { store := .bounded (Bounded.ofCapacity 1 (by decide)), clock := .counter 5 1,
    broadcastCapacity := 2 }

/-- One subscriber is idle while others come and read. -/
def crowded : List (Step Nat Unit Nat) :=
  [.begin "idle" .updates, .run (.fetch 7 .never {}), .run (.fetch 8 .never {}),
    .run (.fetch 7 .never {}), .begin "reader" .updates, .run (.fetch 7 .never {}),
    .run (.fetch 7 .never {}), .begin "late" (.fetch 8 .never {}),
    .join ["late", "reader", "idle"], .run .errors, .drop "idle", .poll "reader"]

/-- The idle subscriber is taken out, and with it the subscriptions without a name. -/
def withdrawn (name : Option String) : Bool := name = none || name = some "idle"

/-- The idle subscriber misses four results and the reader one. Without the idle one three results
are published that nobody hears. -/
theorem subscribers_invisible_idle :
    let start := create (Cache.create pairSetup promptSource)
    let single := start.unfolded (withdrawn ∘ some) crowded
    let alone := single.filter fun st => !st.isOf withdrawn
    let events := eventsOf (start.run crowded).1
    let events' := eventsOf (start.run alone).1
    (∀ id request, .begin id request ∈ crowded → withdrawn (some id) = true →
        request.Subscribes) ∧
      (single.length, alone.length) = (20, 14) ∧
      (events.countP Event.isLag, events.countP Event.isUnheard) = (2, 0) ∧
      (events'.countP Event.isLag, events'.countP Event.isUnheard) = (1, 3) ∧
      (overt withdrawn single (start.run single).1).map Report.muted =
        (start.run alone).1.map Report.muted ∧
      deeds events = deeds events' := by
  intro start single alone events events'
  have hsubscribes : ∀ id request, .begin id request ∈ crowded → withdrawn (some id) = true →
      request.Subscribes := by
    intro id request hmem hwithdrawn
    obtain rfl : id = "idle" := by simpa [withdrawn] using hwithdrawn
    obtain rfl : request = .updates := by simpa [crowded] using hmem
    exact ⟨.updates, rfl⟩
  have hlengths : (single.length, alone.length) = (20, 14) := by decide +kernel
  have hheard : (events.countP Event.isLag, events.countP Event.isUnheard) = (2, 0) := by
    decide +kernel
  have hheard' : (events'.countP Event.isLag, events'.countP Event.isUnheard) = (1, 3) := by
    decide +kernel
  obtain ⟨-, hreports, hdeeds, -⟩ :=
    subscribers_invisible pairSetup promptSource crowded withdrawn hsubscribes
  exact ⟨hsubscribes, hlengths, hheard, hheard', hreports, hdeeds⟩

end Session

end ReadThrough
