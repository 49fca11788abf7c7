import Mathlib.Data.List.Destutter
import ReadThrough.Proofs.Session.UpToDate
import ReadThrough.Proofs.Session.Attempts
import ReadThrough.Proofs.Session.Topics
/-!
# Proofs: the diary of a watch

A watch could keep a diary of the results that it has read, of the outcomes that its request has
received, and of the items that it has taken from either side (`Diary`). Whatever happens, the diary
agrees with the events and with the state of the watch (`Watch.Minds`), and each poll shows what the
watch takes, without the values that repeat the one before (`unrepeated`).
-/

namespace ReadThrough

variable {P A V E : Type}

/-! ## What a subscriber reads -/

/-- Something that happens, and whether it happens in the polls of the task that is looked at. -/
abbrev Tick (P A V E : Type) := Bool × Event P A V E

/-- What has happened in the polls of the task, but for what it was told to have missed. -/
def efforts (ticks : List (Tick P A V E)) : List (Event P A V E) :=
  ticks.filterMap fun tick => if tick.1 && !tick.2.lags then some tick.2 else none

/-- What a subscriber has read and what it has yet to read, by what has happened since it came. It
hears all results that are published. Those which the ring has no room for any more, it misses when
it next looks, and it is told how many these are. -/
inductive Peruses (room : Nat) :
    List (Tick P A V E) → List (P × Delivery V) → List (P × Delivery V) → Prop where
  | comes : Peruses room [] [] []
  | hears {ticks : List (Tick P A V E)} {read unread : List (P × Delivery V)} {own : Bool}
      {event : Event P A V E} (h : Peruses room ticks read unread)
      (hother : (own && event.lags) = false) :
      Peruses room (ticks ++ [(own, event)]) read (unread ++ updates [event])
  | misses {ticks : List (Tick P A V E)} {read unread : List (P × Delivery V)} {missed : Nat}
      (h : Peruses room ticks read unread) (hmissed : missed = unread.length - room)
      (hsome : 0 < missed) :
      Peruses room (ticks ++ [(true, .lagged "updates" missed)]) read (unread.drop missed)
  | reads {ticks : List (Tick P A V E)} {read unread : List (P × Delivery V)} {m : P × Delivery V}
      (h : Peruses room ticks read (m :: unread)) (hroom : unread.length < room) :
      Peruses room ticks (read ++ [m]) unread

section Peruses

variable {room : Nat} {ticks : List (Tick P A V E)} {read unread : List (P × Delivery V)}
  {events : List (Event P A V E)} {own : Bool}

/-- The efforts of the task go on with what happens. -/
theorem efforts_append (ticks ticks' : List (Tick P A V E)) :
    efforts (ticks ++ ticks') = efforts ticks ++ efforts ticks' := List.filterMap_append

/-- What happens in the polls of the task is its effort, if it is told of no loss. -/
theorem efforts_own (h : ∀ event ∈ events, event.lags = false) :
    efforts (events.map (true, ·)) = events := by
  induction events with
  | nil => rfl
  | cons event rest ih =>
    obtain ⟨hfirst, hrest⟩ := List.forall_mem_cons.mp h
    show efforts ([(true, event)] ++ rest.map (true, ·)) = _
    rw [efforts_append, ih hrest]
    simp [efforts, hfirst]

/-- What happens outside the polls of the task is none of its efforts. -/
theorem efforts_others (events : List (Event P A V E)) : efforts (events.map (false, ·)) = [] := by
  simp [efforts]

/-- A subscriber hears every result that is published, unless it is told of a loss meanwhile. -/
theorem Peruses.hears_all (h : Peruses room ticks read unread)
    (hother : ∀ event ∈ events, (own && event.lags) = false) :
    Peruses room (ticks ++ events.map (own, ·)) read (unread ++ updates events) := by
  induction events generalizing ticks unread with
  | nil =>
    rw [List.map_nil, List.append_nil]
    exact (List.append_nil unread).symm ▸ h
  | cons event rest ih =>
    obtain ⟨hfirst, hrest⟩ := List.forall_mem_cons.mp hother
    have hnext := ih (h.hears hfirst) hrest
    rw [List.append_assoc, List.append_assoc, ← updates_append] at hnext
    exact hnext

/-- A subscriber reads what it has to read in order, while the ring has room for it. -/
theorem Peruses.reads_all {front : List (P × Delivery V)}
    (h : Peruses room ticks read (front ++ unread)) (hroom : (front ++ unread).length ≤ room) :
    Peruses room ticks (read ++ front) unread := by
  induction front generalizing read with
  | nil =>
    rw [List.append_nil]
    exact h
  | cons m rest ih =>
    rw [List.cons_append, List.length_cons] at hroom
    have hrest := ih (h.reads hroom) (Nat.le_of_succ_le hroom)
    rwa [List.append_assoc] at hrest

/-- What was read or is yet to read are published results, in their order. -/
theorem Peruses.sublist (h : Peruses room ticks read unread) :
    (read ++ unread).Sublist (updates (ticks.map (·.2))) := by
  induction h with
  | comes => exact List.Sublist.refl _
  | hears h hother ih =>
    rw [List.map_append, updates_append, ← List.append_assoc]
    exact ih.append_right _
  | misses h hmissed hsome ih =>
    rw [List.map_append, updates_append]
    refine List.Sublist.trans ?_ (ih.trans (List.sublist_append_left _ _))
    exact (List.drop_sublist _ _).append_left _
  | reads h hroom ih =>
    rw [List.append_assoc]
    exact ih

/-- A subscriber that is told of nothing it has missed reads all that is published. -/
theorem Peruses.complete (h : Peruses room ticks read unread)
    (hlags : ∀ tick ∈ ticks, (tick.1 && tick.2.lags) = false) :
    read ++ unread = updates (ticks.map (·.2)) := by
  induction h with
  | comes => rfl
  | hears h hother ih =>
    obtain ⟨hbefore, -⟩ := List.forall_mem_append.mp hlags
    rw [List.map_append, updates_append, ← ih hbefore, List.append_assoc]
    rfl
  | misses h hmissed hsome ih =>
    have hlast := hlags _ (List.mem_append_right _ (List.mem_singleton_self _))
    exact absurd hlast nofun
  | reads h hroom ih =>
    rw [List.append_assoc]
    exact ih hlags

end Peruses

/-! ## Items that are shown -/

/-- The last value, after some items. -/
def lastOk (last : Option V) (items : List (Watch.Item V E)) : Option V :=
  items.foldl (fun last item => match item with
    | .ok value => some value
    | .error _ => last) last

/-- The items, without the values that are equal to the value before them. -/
def unrepeated [DecidableEq V] (last : Option V) : List (Watch.Item V E) → List (Watch.Item V E)
  | [] => []
  | .error failure :: rest => .error failure :: unrepeated last rest
  | .ok value :: rest =>
    if last = some value then unrepeated last rest else .ok value :: unrepeated (some value) rest

section Unrepeated

variable [DecidableEq V] {last : Option V} {items items' : List (Watch.Item V E)} {value : V}

omit [DecidableEq V] in
/-- The last value is carried from item to item. -/
theorem lastOk_append : lastOk last (items ++ items') = lastOk (lastOk last items) items' :=
  List.foldl_append

/-- Items are compared to the value before them, across two parts as well. -/
theorem unrepeated_append : unrepeated last (items ++ items') =
    unrepeated last items ++ unrepeated (lastOk last items) items' := by
  induction items generalizing last with
  | nil => rfl
  | cons item rest ih =>
    rcases item with failure | value
    · simp only [List.cons_append, unrepeated, ih]
      rfl
    · simp only [List.cons_append, unrepeated]
      split
      · rename_i hlast
        rw [ih, hlast]
        rfl
      · rw [ih]
        rfl

/-- Every value that is taken is shown, or was the last one shown before. -/
theorem mem_unrepeated (last : Option V) (h : .ok value ∈ items) :
    last = some value ∨ .ok value ∈ unrepeated last items := by
  induction items generalizing last with
  | nil => cases h
  | cons item rest ih =>
    rcases item with failure | first
    · have hrest : .ok value ∈ rest := (List.mem_cons.mp h).resolve_left nofun
      exact (ih last hrest).imp_right (List.mem_cons_of_mem _)
    · unfold unrepeated
      rcases List.mem_cons.mp h with heq | hrest
      · cases heq
        split
        · exact .inl ‹_›
        · exact .inr (List.mem_cons_self ..)
      · split
        · exact ih last hrest
        · refine .inr ?_
          rcases ih (some first) hrest with hfirst | hmem
          · cases hfirst
            exact List.mem_cons_self ..
          · exact List.mem_cons_of_mem _ hmem

/-- The values of items. -/
def valuesOf (items : List (Watch.Item V E)) : List V := items.filterMap Except.toOption

omit [DecidableEq V] in
/-- A value in front is the first of the values. -/
theorem valuesOf_ok : valuesOf (.ok value :: items) = value :: valuesOf items := rfl

/-- The values that are shown are those taken, each different from the one before. -/
theorem valuesOf_unrepeated_some (value : V) (items : List (Watch.Item V E)) :
    value :: valuesOf (unrepeated (some value) items) =
      (valuesOf items).destutter' (· ≠ ·) value := by
  induction items generalizing value with
  | nil => rfl
  | cons item rest ih =>
    rcases item with failure | next
    · exact ih value
    · unfold unrepeated
      rw [valuesOf_ok]
      by_cases heq : value = next
      · subst heq
        rw [if_pos rfl, List.destutter'_cons_neg _ (not_not_intro rfl)]
        exact ih value
      · rw [if_neg fun h => heq (Option.some.inj h), List.destutter'_cons_pos _ heq, valuesOf_ok,
          ih next]

/-- What is shown of the values: of equal ones in a row, whatever failures are between them, the
first. -/
theorem valuesOf_unrepeated (items : List (Watch.Item V E)) :
    valuesOf (unrepeated none items) = (valuesOf items).destutter (· ≠ ·) := by
  induction items with
  | nil => rfl
  | cons item rest ih =>
    rcases item with failure | value
    · exact ih
    · exact valuesOf_unrepeated_some value rest

/-- The last value that was taken is the last one shown. -/
theorem getLast?_unrepeated (items : List (Watch.Item V E)) :
    (valuesOf (unrepeated none items)).getLast? = lastOk none items := by
  induction items using List.reverseRecOn with
  | nil => rfl
  | append_singleton items item ih =>
    rw [unrepeated_append, lastOk_append, valuesOf, List.filterMap_append, ← valuesOf]
    rcases item with failure | value
    · exact (congrArg List.getLast? (List.append_nil _)).trans ih
    · simp only [unrepeated]
      split
      · rename_i hlast
        exact (congrArg List.getLast? (List.append_nil _)).trans (ih.trans hlast)
      · exact List.getLast?_concat

/-- The failures of results, or of items. -/
def failuresOf {T : Type} (items : List (Except (Failure E) T)) : List (Failure E) :=
  items.filterMap fun item => match item with
    | .ok _ => none
    | .error failure => some failure

omit [DecidableEq V] in
/-- Items have the failures of the results that they are made from. -/
theorem failuresOf_map {T : Type} (f : T → V) (items : List (Except (Failure E) T)) :
    failuresOf (items.map (·.map f)) = failuresOf items := by
  rw [failuresOf, List.filterMap_map, failuresOf]
  congr 1
  funext item
  cases item <;> rfl

omit [DecidableEq V] in
/-- The failures of two lists of items are those of the first and then those of the second. -/
theorem failuresOf_append : failuresOf (items ++ items') = failuresOf items ++ failuresOf items' :=
  List.filterMap_append

/-- Failures are shown as they are taken. -/
theorem failuresOf_unrepeated (last : Option V) (items : List (Watch.Item V E)) :
    failuresOf (unrepeated last items) = failuresOf items := by
  induction items generalizing last with
  | nil => rfl
  | cons item rest ih =>
    rcases item with failure | value
    · exact congrArg (failure :: ·) (ih last)
    · unfold unrepeated
      split
      · exact ih last
      · exact ih (some value)

/-- A value that is taken is not shown exactly if it is the last one shown before. -/
theorem shows_or_repeats (earlier later : List (Watch.Item V E)) (value : V) :
    unrepeated none (earlier ++ .ok value :: later) = unrepeated none earlier ++
      if (valuesOf (unrepeated none earlier)).getLast? = some value then
        unrepeated (some value) later
      else .ok value :: unrepeated (some value) later := by
  rw [unrepeated_append, getLast?_unrepeated]
  congr 1
  by_cases hlast : lastOk none earlier = some value
  · rw [hlast, if_pos rfl, unrepeated, if_pos rfl]
  · rw [if_neg hlast, unrepeated, if_neg hlast]

/-- What is shown is some of what is taken, in order. -/
theorem unrepeated_sublist (last : Option V) (items : List (Watch.Item V E)) :
    (unrepeated last items).Sublist items := by
  induction items generalizing last with
  | nil => exact List.Sublist.refl _
  | cons item rest ih =>
    rcases item with failure | value
    · exact (ih last).cons_cons _
    · unfold unrepeated
      split
      · exact (ih last).cons _
      · exact (ih (some value)).cons_cons _

end Unrepeated

/-! ## The diary -/

/-- What a watch could write down. -/
structure Diary (P V E : Type) where
  /-- The results that it has read. -/
  read : List (P × Delivery V)
  /-- The results that it has yet to read. -/
  unread : List (P × Delivery V)
  /-- The items that it has taken, and from which side. -/
  taken : List (Side × Watch.Item V E)
  /-- The executions whose outcomes its request has received. -/
  received : List Nat
  /-- The result of its request. -/
  outcome : Option (Result V E)

/-- The items that were taken from a side. -/
def Side.items (side : Side) (taken : List (Side × Watch.Item V E)) : List (Watch.Item V E) :=
  (taken.filter (·.1 = side)).map (·.2)

/-- Items of one side are on this side and on no other. -/
theorem Side.items_map (side origin : Side) (items : List (Watch.Item V E)) :
    side.items (items.map (origin, ·)) = if side = origin then items else [] := by
  cases side <;> cases origin <;> simp [Side.items, List.filter_map, Function.comp_def]

/-- What is taken from a side goes on with what is taken. -/
theorem Side.items_append (side : Side) (taken taken' : List (Side × Watch.Item V E)) :
    side.items (taken ++ taken') = side.items taken ++ side.items taken' := by
  simp [Side.items]

/-- An item was taken from a side if it is among what was taken, from that side. -/
theorem Side.mem_items {side : Side} {taken : List (Side × Watch.Item V E)}
    {item : Watch.Item V E} : item ∈ side.items taken ↔ (side, item) ∈ taken := by
  simp [Side.items]

section Diary

variable [DecidableEq P]

/-- A diary agrees with what has happened: the items from the channel are the results for the
parameters that were read, and the one from the request is its result. -/
structure Diary.Holds (room : Nat) (params : P) (retries : Nat) (ticks : List (Tick P A V E))
    (d : Diary P V E) : Prop where
  peruses : Peruses room ticks d.read d.unread
  tries : ∃ inquiry,
    Tries (Key.ofParams params) retries inquiry d.received (efforts ticks) d.outcome
  nodup : ((efforts ticks).filterMap Event.entered?).Nodup
  fromUpdates : Side.updates.items d.taken =
    (d.read.filter (·.1 = params)).map fun m => .ok m.2.value
  fromRequest : Side.request.items d.taken = d.outcome.toList.map (·.map (·.value))

/-- As long as there is a watch, its diary agrees with it as well. -/
structure Watch.Minds (room : Nat) (params : P) (retries : Nat) (ticks : List (Tick P A V E))
    (d : Diary P V E) (w : Watch P A V E) (c : Cache P A V E) : Prop where
  params_eq : w.params = params
  retries_eq : w.retries = retries
  opened : c.env.updates.closed = false
  full : c.env.updates.Full
  length : c.env.updates.length = room
  awaits : c.env.updates.Awaits w.position d.unread
  peruses : Peruses room ticks d.read d.unread
  tries : Tries (Key.ofParams params) retries w.inquiry d.received (efforts ticks) d.outcome
  spends : w.inquiry.Spends d.received c.flights
  fromUpdates : Side.updates.items d.taken =
    (d.read.filter (·.1 = params)).map fun m => .ok m.2.value
  fromRequest : Side.request.items d.taken = d.outcome.toList.map (·.map (·.value))

variable {room : Nat} {params : P} {retries : Nat} {ticks : List (Tick P A V E)}
  {d : Diary P V E}

/-- Others are busy, and no watch is left. -/
theorem Diary.Holds.passed (h : d.Holds room params retries ticks)
    (events : List (Event P A V E)) :
    Diary.Holds room params retries (ticks ++ events.map (false, ·))
      { d with unread := d.unread ++ updates events } := by
  obtain ⟨inquiry, htries⟩ := h.tries
  have hefforts : efforts (ticks ++ events.map (false, ·)) = efforts ticks := by
    rw [efforts_append, efforts_others, List.append_nil]
  refine ⟨h.peruses.hears_all fun _ _ => rfl, ⟨inquiry, ?_⟩, ?_, h.fromUpdates, h.fromRequest⟩
  · rwa [hefforts]
  · rw [hefforts]
    exact h.nodup

namespace Watch.Minds

variable {w : Watch P A V E} {c c' : Cache P A V E} {events : List (Event P A V E)}

/-- A diary that agrees with a watch agrees with what has happened. -/
theorem holds (h : w.Minds room params retries ticks d c) : d.Holds room params retries ticks :=
  ⟨h.peruses, ⟨w.inquiry, h.tries⟩, h.tries.nodup_entered h.spends, h.fromUpdates, h.fromRequest⟩

/-- It does not matter to the diary which side is asked first, and what was shown last. -/
theorem turned (h : w.Minds room params retries ticks d c) (turn : Side) (last : Option V) :
    Watch.Minds room params retries ticks d { w with turn, last } c :=
  ⟨h.params_eq, h.retries_eq, h.opened, h.full, h.length, h.awaits, h.peruses, h.tries, h.spends,
    h.fromUpdates, h.fromRequest⟩

/-- Others are busy, and the watch hears what they publish. -/
theorem passed (h : w.Minds room params retries ticks d c)
    (hopened : c'.env.updates.closed = false) (hfull : c'.env.updates.Full)
    (hlength : c'.env.updates.length = room)
    (hawaits : c'.env.updates.Awaits w.position (d.unread ++ updates events))
    (hsettled : ∀ e outcome, c.flights.stage? e = some (.settled outcome) →
      c'.flights.stage? e = some (.settled outcome)) :
    Watch.Minds room params retries (ticks ++ events.map (false, ·))
      { d with unread := d.unread ++ updates events } w c' := by
  refine ⟨h.params_eq, h.retries_eq, hopened, hfull, hlength, hawaits,
    h.peruses.hears_all fun _ _ => rfl, ?_, h.spends.kept hsettled, h.fromUpdates, h.fromRequest⟩
  rw [efforts_append, efforts_others, List.append_nil]
  exact h.tries

/-- The watch goes on behind what it has missed, and notes how much that is. -/
theorem misses (h : w.Minds room params retries ticks d c) {missed : Nat}
    (hmissed : missed = d.unread.length - room) :
    ∃ events, (c.noteMissed "updates" missed).env.trace = c.env.trace ++ events ∧
      Watch.Minds room params retries (ticks ++ events.map (true, ·))
        { d with unread := d.unread.drop missed } { w with position := w.position + missed }
        (c.noteMissed "updates" missed) := by
  have hawaits := h.awaits.missing missed (hmissed ▸ Nat.sub_le _ _)
  unfold Cache.noteMissed
  split
  · rename_i hnone
    refine ⟨[], (List.append_nil _).symm, ?_⟩
    subst hnone
    rw [List.map_nil, List.append_nil]
    exact ⟨h.params_eq, h.retries_eq, h.opened, h.full, h.length, hawaits, h.peruses, h.tries,
      h.spends, h.fromUpdates, h.fromRequest⟩
  · rename_i hsome
    have hperuses : Peruses room _ d.read (d.unread.drop missed) :=
      h.peruses.misses hmissed (Nat.pos_of_ne_zero hsome)
    refine ⟨[.lagged "updates" missed], rfl, h.params_eq, h.retries_eq, h.opened, h.full, h.length,
      hawaits, hperuses, ?_, h.spends, h.fromUpdates, h.fromRequest⟩
    rw [efforts_append]
    exact (List.append_nil (efforts ticks)).symm ▸ h.tries

/-- The watch reads some results, and takes those that are for its parameters. -/
theorem reads (h : w.Minds room params retries ticks d c) {front rest : List (P × Delivery V)}
    (hunread : d.unread = front ++ rest) (hroom : d.unread.length ≤ room) :
    Watch.Minds room params retries ticks
      { d with
        read := d.read ++ front
        unread := rest
        taken := d.taken ++
          ((front.filter (·.1 = params)).map fun m => .ok m.2.value).map (.updates, ·) }
      { w with position := w.position + front.length } c := by
  have hperuses := h.peruses
  have hawaits := h.awaits
  rw [hunread] at hperuses hawaits hroom
  refine ⟨h.params_eq, h.retries_eq, h.opened, h.full, h.length, hawaits.skip,
    hperuses.reads_all hroom, h.tries, h.spends, ?_, ?_⟩
  · rw [Side.items_append, h.fromUpdates, Side.items_map, if_pos rfl, List.filter_append,
      List.map_append]
  · rw [Side.items_append, h.fromRequest, Side.items_map, if_neg nofun, List.append_nil]

end Watch.Minds

end Diary

/-! ## Asking -/

/-- The item that a poll answers. -/
def Answer.item? {I : Type} : Answer I → Option I
  | .item i => some i
  | .pending | .done | .panicked _ => none

namespace Tries

variable {key : Key P A} {retries : Nat} {inquiry : Inquiry P A V E} {received : List Nat}
  {events : List (Event P A V E)} {outcome : Option (Result V E)} {notice : Notice} {e : Nat}
  {ls : List (Event P A V E)}

/-- An attempt to load tells of no loss. -/
theorem lags_load (hloading : ∀ event ∈ ls, event.isLoading = true) :
    ∀ event ∈ (.registry notice :: ls : List (Event P A V E)), event.lags = false := by
  refine List.forall_mem_cons.mpr ⟨rfl, fun event hevent => ?_⟩
  have hladen := hloading event hevent
  cases event with
  | lagged => cases hladen
  | _ => rfl

/-- The loads of a request tell nothing of what was missed. -/
theorem lags (h : Tries key retries inquiry received events outcome) :
    ∀ event ∈ events, event.lags = false := by
  have hfailures : ∀ {received events}, Fails (P := P) (A := A) (V := V) (E := E) retries received
      events → ∀ event ∈ events, event.lags = false := by
    intro received events hfails
    induction hfails with
    | none => exact List.forall_mem_nil _
    | again hfails hentered hloading hmore ih =>
      refine List.forall_mem_append.mpr ⟨ih, List.forall_mem_append.mpr ⟨lags_load hloading, ?_⟩⟩
      simp [Event.lags]
  cases h with
  | unasked => exact List.forall_mem_nil _
  | trying hfails hcount hentered hloading =>
    exact List.forall_mem_append.mpr ⟨hfailures hfails, lags_load hloading⟩
  | answered hfails hentered hloading hwithin hlast =>
    refine List.forall_mem_append.mpr ⟨hfailures hfails,
      List.forall_mem_append.mpr ⟨lags_load hloading, ?_⟩⟩
    simp [Event.lags]

/-- There is a result exactly when there is nothing more to ask for. -/
theorem outcome_eq_none {remaining : Nat} {load : Load P A V E}
    (h : Tries key retries (.loading remaining load) received events outcome) : outcome = none := by
  cases h <;> rfl

end Tries

section Asking

variable [DecidableEq P] [DecidableEq A] {room : Nat} {params : P} {retries : Nat}
  {ticks : List (Tick P A V E)} {d d' d'' : Diary P V E} {w w' w'' : Watch P A V E}
  {c c' c'' : Cache P A V E} {loads : Multiset (Load P A V E)}
  {events events' : List (Event P A V E)} {item : Option (Watch.Item V E)}

/-- The loads of a request leave the channel as it should be. -/
theorem Load.channel_pollRetrying (key : Key P A) (retries remaining : Nat) (load : Load P A V E)
    (c : Cache P A V E) :
    let channel := (load.pollRetrying key retries remaining c).2.env.updates
    channel.length = c.env.updates.length ∧ channel.closed = c.env.updates.closed ∧
      (c.env.updates.Full → channel.Full) := by
  have halike := Load.alike_pollRetrying (Outputs.Sends.kept c.env.outputs).working key retries
    remaining c.alike_sends load
  obtain ⟨events, -, hrelays⟩ := halike.2.env.outputs.2
  have hsent := hrelays .updates 0
  refine ⟨hsent.length, hsent.closed, fun h => ?_⟩
  exact (Channel.full_map _ _).mp (hsent.full ((Channel.full_map _ _).mpr h))

namespace Watch

/-- What a watch writes down when it is asked for an item. -/
structure Notes (room : Nat) (params : P) (retries : Nat) (ticks : List (Tick P A V E))
    (d : Diary P V E) (c : Cache P A V E) (events : List (Event P A V E))
    (item : Option (Item V E)) (d' : Diary P V E) (w' : Watch P A V E) (c' : Cache P A V E) :
    Prop where
  trace : c'.env.trace = c.env.trace ++ events
  minds : w'.Minds room params retries (ticks ++ events.map (true, ·)) d' c'
  items : d'.taken.map (·.2) = d.taken.map (·.2) ++ item.toList

omit [DecidableEq A] in
/-- The one side has nothing, and the other one is asked. -/
theorem Notes.trans (h : Notes room params retries ticks d c events none d' w' c')
    (h' : Notes room params retries (ticks ++ events.map (true, ·)) d' c' events' item d'' w''
      c'') :
    Notes room params retries ticks d c (events ++ events') item d'' w'' c'' := by
  refine ⟨?_, ?_, ?_⟩
  · rw [h'.trace, h.trace, List.append_assoc]
  · rw [List.map_append, ← List.append_assoc]
    exact h'.minds
  · rw [h'.items, h.items, Option.toList_none, List.append_nil]

omit [DecidableEq A] in
/-- The channel is asked. If it has nothing, all has been read. -/
theorem notes_nextUpdate (h : w.Minds room params retries ticks d c) :
    ∃ events d', Notes room params retries ticks d c events (w.nextUpdate c).1 d'
        (w.nextUpdate c).2.1 (w.nextUpdate c).2.2 ∧
      ((w.nextUpdate c).1 = none → d'.unread = []) := by
  have hparams := h.params_eq
  have hmissed := h.awaits.missed_eq h.full
  have hfinds := h.awaits.finds_drop h.full fun m => m.1 = w.params
  have hended := Channel.receive_ne_ended h.opened (fun m => m.1 = w.params) w.position
  have hroom : (d.unread.drop (d.unread.length - room)).length ≤ room := by
    rw [List.length_drop]
    omega
  have hfirst : (c.env.updates.receive (·.1 = w.params) w.position).1 =
      c.env.updates.missed w.position := rfl
  rw [h.length] at hmissed hfinds
  unfold nextUpdate
  -- What the ring has no room for is missed, and the rest is looked through.
  rcases hreceive : c.env.updates.receive (·.1 = w.params) w.position with ⟨missed, received⟩
  rw [hreceive] at hfinds hended hfirst
  obtain rfl : missed = d.unread.length - room := hfirst.trans hmissed
  obtain ⟨events, htrace, hmisses⟩ := h.misses rfl
  cases received with
  | ended => exact absurd rfl hended
  | nothing position =>
    cases hfinds with
    | nothing hnone =>
      have hunwanted : (d.unread.drop (d.unread.length - room)).filter (·.1 = params) = [] :=
        List.filter_eq_nil_iff.mpr fun m hm => by
          rw [← hparams]
          simpa using hnone m hm
      have hreads := hmisses.reads (List.append_nil _).symm hroom
      refine ⟨events, _, ⟨htrace, hreads, ?_⟩, fun _ => rfl⟩
      rw [hunwanted]
      simp
  | message m position =>
    cases hfinds with
    | @message skipped rest _ hunread hskipped hwanted =>
      have hwants : (skipped ++ [m]).filter (·.1 = params) = [m] := by
        rw [List.filter_append, List.filter_eq_nil_iff.mpr, List.nil_append]
        · rw [← hparams]
          simpa using hwanted
        · intro m' hm'
          rw [← hparams]
          simpa using hskipped m' hm'
      have hfront : d.unread.drop (d.unread.length - room) = (skipped ++ [m]) ++ rest := by
        rw [List.append_assoc]
        exact hunread
      have hreads := hmisses.reads hfront hroom
      rw [hwants, List.length_append, List.length_singleton, ← Nat.add_assoc] at hreads
      exact ⟨events, _, ⟨htrace, hreads, by simp⟩, nofun⟩

/-- The request is asked. If it has nothing, nothing new is there to read, and it waits for a load.
-/
theorem notes_nextAnswer (hattuned : Attuned loads w c)
    (h : w.Minds room params retries ticks d c) :
    ∃ events d', Notes room params retries ticks d c events (w.nextAnswer c).1 d'
        (w.nextAnswer c).2.1 (w.nextAnswer c).2.2 ∧
      ((w.nextAnswer c).1 = none → d'.unread = d.unread ∧
        (w.nextAnswer c).2.1.inquiry.Waits (w.nextAnswer c).2.2.flights) := by
  obtain rfl := h.params_eq
  obtain rfl := h.retries_eq
  have htries := h.tries
  have hspends := h.spends
  unfold nextAnswer
  cases hinquiry : w.inquiry with
  | answered =>
    refine ⟨[], d, ⟨(List.append_nil _).symm, ?_, (List.append_nil _).symm⟩, fun _ => ⟨rfl, ?_⟩⟩
    · rw [List.map_nil, List.append_nil]
      exact h
    · intro remaining load heq
      cases hinquiry.symm.trans heq
  | loading remaining load =>
    have hload : w.load? = some load := by rw [load?, hinquiry]
    have hattended := hattuned.attended
    rw [hload] at hattended
    rw [hinquiry] at htries hspends
    obtain hnone := htries.outcome_eq_none
    rw [hnone] at htries
    obtain ⟨events, haired, hpublishes, -⟩ := Load.bears_pollRetrying 0 w.retries remaining
      hattended hattuned.keyed (hattuned.addressed load hload)
    obtain ⟨events', received, htrace, htries', hspends', hwaits⟩ :=
      Load.attempts_pollRetrying hattended htries hspends
    obtain rfl : events' = events :=
      List.append_cancel_left (htrace.symm.trans haired.trace)
    obtain ⟨hlength, hclosed, hfull⟩ :=
      Load.channel_pollRetrying (Key.ofParams w.params) w.retries remaining load c
    have hlags : ∀ event ∈ events', event.lags = false := fun event hevent =>
      htries'.lags event (List.mem_append_right _ hevent)
    have hawaits := haired.airs.awaits hattuned.heard rfl h.awaits
    have hperuses : Peruses room (ticks ++ events'.map (true, ·)) _ _ :=
      h.peruses.hears_all hlags
    have hefforts : efforts (ticks ++ events'.map (true, ·)) = efforts ticks ++ events' := by
      rw [efforts_append, efforts_own hlags]
    have hsilent := hpublishes.silent
    rw [← hefforts] at htries'
    simp only
    -- The load goes on and publishes nothing, or its result is the item of the request.
    rcases hpoll : load.pollRetrying (Key.ofParams w.params) w.retries remaining c with
      ⟨⟨remaining', load'⟩ | result, c₁⟩ <;>
      rw [hpoll] at htrace htries' hspends' hwaits hlength hclosed hfull hawaits hsilent
    · have hunheard : updates events' = [] := hsilent (fun _ h => by cases h)
      refine ⟨events', { d with received, unread := d.unread ++ updates events' }, ⟨htrace, ?_, ?_⟩,
        fun _ => ⟨?_, hwaits⟩⟩
      · refine ⟨rfl, rfl, hclosed.trans h.opened, hfull h.full, hlength.trans h.length, hawaits,
          hperuses, ?_, hspends', h.fromUpdates, h.fromRequest⟩
        rw [hnone]
        exact htries'
      · exact (List.append_nil _).symm
      · rw [hunheard, List.append_nil]
    · have hitem := h.fromRequest
      rw [hnone] at hitem
      refine ⟨events',
        { d with
          received
          unread := d.unread ++ updates events'
          taken := d.taken ++ [result.map (·.value)].map (.request, ·)
          outcome := some result }, ⟨htrace, ?_, ?_⟩, fun h => by cases h⟩
      · refine ⟨rfl, rfl, hclosed.trans h.opened, hfull h.full, hlength.trans h.length, hawaits,
          hperuses, htries', hspends', ?_, ?_⟩
        · rw [Side.items_append, Side.items_map, if_neg (by decide), List.append_nil]
          exact h.fromUpdates
        · rw [Side.items_append, Side.items_map, if_pos rfl, hitem]
          rfl
      · rw [List.map_append]
        rfl

omit [DecidableEq A] in
/-- The request is not touched when the channel is asked. -/
theorem waits_nextUpdate (h : w.inquiry.Waits c.flights) :
    (w.nextUpdate c).2.1.inquiry.Waits (w.nextUpdate c).2.2.flights := by
  have hflights : ∀ missed, (c.noteMissed "updates" missed).flights = c.flights := fun missed => by
    unfold Cache.noteMissed
    split <;> rfl
  unfold nextUpdate
  rcases c.env.updates.receive (·.1 = w.params) w.position with ⟨missed, received⟩
  rw [← hflights missed] at h
  cases received <;> exact h

/-- A watch is asked. If neither side has anything, all has been read, and the request waits. -/
theorem notes_next (hattuned : Attuned loads w c) (h : w.Minds room params retries ticks d c) :
    ∃ events d', Notes room params retries ticks d c events (w.next c).1 d' (w.next c).2.1
        (w.next c).2.2 ∧
      ((w.next c).1 = none →
        d'.unread = [] ∧ (w.next c).2.1.inquiry.Waits (w.next c).2.2.flights) := by
  unfold next
  cases w.turn with
  | updates =>
    obtain ⟨events, d₁, hnotes, hread⟩ := notes_nextUpdate (h.turned .request w.last)
    obtain ⟨_, hasks⟩ := asks_nextUpdate (hattuned.turned .request) (.inl ⟨rfl, rfl⟩)
    simp only [Side.other]
    rcases hask : nextUpdate { w with turn := .request } c with ⟨_ | item, w₁, c₁⟩ <;>
      rw [hask] at hnotes hread hasks
    · obtain ⟨events', d₂, hnotes', hidle⟩ := notes_nextAnswer hasks.attuned hnotes.minds
      refine ⟨_, d₂, hnotes.trans hnotes', fun hnone => ?_⟩
      obtain ⟨hunread, hwaits⟩ := hidle hnone
      exact ⟨hunread.trans (hread rfl), hwaits⟩
    · exact ⟨events, d₁, hnotes, fun h => by cases h⟩
  | request =>
    obtain ⟨events, d₁, hnotes, hidle⟩ :=
      notes_nextAnswer (hattuned.turned .updates) (h.turned .updates w.last)
    simp only [Side.other]
    rcases hask : nextAnswer { w with turn := .updates } c with ⟨_ | item, w₁, c₁⟩ <;>
      rw [hask] at hnotes hidle
    · obtain ⟨events', d₂, hnotes', hread⟩ := notes_nextUpdate hnotes.minds
      exact ⟨_, d₂, hnotes.trans hnotes',
        fun hnone => ⟨hread hnone, waits_nextUpdate (hidle rfl).2⟩⟩
    · exact ⟨events, d₁, hnotes, fun h => by cases h⟩

/-! ## Showing -/

/-- What a watch writes down when it is polled. It shows what it takes, without the values that
repeat the one before, and has nothing to show only if all has been read. -/
structure Reveals (room : Nat) (params : P) (retries : Nat) (ticks : List (Tick P A V E))
    (d : Diary P V E) (c : Cache P A V E) (events : List (Event P A V E))
    (answer : Answer (Item V E)) (d' : Diary P V E) (w' : Watch P A V E) (c' : Cache P A V E)
    [DecidableEq V] : Prop where
  trace : c'.env.trace = c.env.trace ++ events
  minds : w'.Minds room params retries (ticks ++ events.map (true, ·)) d' c'
  last : w'.last = lastOk none (d'.taken.map (·.2))
  shown : unrepeated none (d'.taken.map (·.2)) =
    unrepeated none (d.taken.map (·.2)) ++ answer.item?.toList
  idle : answer = .pending → d'.unread = [] ∧ w'.inquiry.Waits c'.flights

variable [DecidableEq V]

/-- A watch with enough asks left shows the next item that is no repetition, or finds that all has
been read. -/
theorem reveals_showNext (hattuned : Attuned loads w c) (h : w.Minds room params retries ticks d c)
    (hlast : w.last = lastOk none (d.taken.map (·.2))) {asks : Nat}
    (hasks : c.env.updates.ahead w.position + w.outstanding < asks) :
    ∃ events d', Reveals room params retries ticks d c events (w.showNext asks c).1 d'
      (w.showNext asks c).2.1 (w.showNext asks c).2.2 := by
  -- The asks are enough for the messages ahead, so that an ask that shows nothing finds the end.
  induction asks generalizing w c d ticks with
  | zero => exact absurd hasks (Nat.not_lt_zero _)
  | succ asks ih =>
    obtain ⟨events, d₁, hnotes, hidle⟩ := notes_next hattuned h
    obtain ⟨_, hnext⟩ := asks_next hattuned
    unfold showNext
    rcases hask : w.next c with ⟨_ | (failure | value), w₁, c₁⟩ <;>
      rw [hask] at hnotes hidle hnext <;> have hkept := hnext.last.trans hlast
    · refine ⟨events, d₁, hnotes.trace, hnotes.minds, ?_, ?_, fun _ => hidle rfl⟩
      · rw [hkept, hnotes.items]
        exact congrArg _ (List.append_nil _).symm
      · rw [hnotes.items]
        simp [Answer.item?]
    · refine ⟨events, d₁, hnotes.trace, hnotes.minds, ?_, ?_, fun h => by cases h⟩
      · rw [hkept, hnotes.items, lastOk_append]
        rfl
      · rw [hnotes.items, unrepeated_append]
        rfl
    · simp only
      split
      · -- The value repeats the one before, and there is less left to ask for.
        rename_i hrepeats
        have hcost := hnext.cost
        rw [Option.toList_some, List.length_singleton] at hcost
        have hlast₁ : w₁.last = lastOk none (d₁.taken.map (·.2)) := by
          rw [hnotes.items, lastOk_append, hrepeats]
          rfl
        have hskipped : unrepeated none (d₁.taken.map (·.2)) =
            unrepeated none (d.taken.map (·.2)) := by
          rw [hnotes.items, unrepeated_append, ← hkept, hrepeats]
          simp [unrepeated]
        obtain ⟨events', d', hreveals⟩ := ih hnext.attuned hnotes.minds hlast₁ (by omega)
        have hminds := hreveals.minds
        rw [List.append_assoc, ← List.map_append] at hminds
        refine ⟨events ++ events', d', ?_, hminds, hreveals.last, ?_, hreveals.idle⟩
        · rw [hreveals.trace, hnotes.trace, List.append_assoc]
        · rw [hreveals.shown, hskipped]
      · rename_i hnew
        refine ⟨events, d₁, hnotes.trace, hnotes.minds.turned w₁.turn (some value), ?_, ?_,
          fun h => by cases h⟩
        · rw [hnotes.items, lastOk_append]
          rfl
        · rw [hnotes.items, unrepeated_append, ← hkept]
          simp [unrepeated, hnew, Answer.item?]

/-- A poll of a watch shows what it takes without repetitions, and keeps the diary in agreement. -/
theorem reveals_poll (hattuned : Attuned loads w c) (h : w.Minds room params retries ticks d c)
    (hlast : w.last = lastOk none (d.taken.map (·.2))) :
    ∃ events d', Reveals room params retries ticks d c events (w.poll c).1 d' (w.poll c).2.1
      (w.poll c).2.2 := by
  have hle := w.outstanding_le
  exact reveals_showNext hattuned h hlast (by rw [Channel.ahead]; omega)

end Watch

end Asking

end ReadThrough
