import ReadThrough.Proofs.Session.Chronicle
import ReadThrough.Proofs.Session.Serial
/-!
# Proofs: what is stored for a key never goes back in time

The clock is read before a value is written, and the write may have to wait, so the values that are
written for a key need not be in the order of their timestamps. They are if the loads of the key are
shared and the clock does not go back: from the reading on there is no other work for the key
(`Forward`). Then a stored value is never older than a loaded one that was received before.
-/

namespace ReadThrough

variable {P A V E : Type}

/-- Both entries have timestamps, and the second one has not the earlier one. -/
def Entry.Precedes (e e' : Entry V) : Prop :=
  ∃ t t', e.stamp = some t ∧ e'.stamp = some t' ∧ t ≤ t'

/-- The clock has been read `now`, and all that was written for a key has earlier timestamps or the
same. -/
structure Recent (key : Key P A) (T : List (Event P A V E)) (now : Stamp) : Prop where
  read : now ∈ T.filterMap Event.reading?
  latest : ∀ p ∈ writes T, p.1 = key → ∃ t, p.2.stamp = some t ∧ t ≤ now

/-- The clock has not gone back. -/
def ClockSteady (T : List (Event P A V E)) : Prop := (T.filterMap Event.reading?).Pairwise (· ≤ ·)

/-- A clock that has not gone back in the end has not done so before. -/
theorem ClockSteady.of_append {T events : List (Event P A V E)} (h : ClockSteady (T ++ events)) :
    ClockSteady T := by
  unfold ClockSteady at h
  rw [List.filterMap_append] at h
  exact (List.pairwise_append.mp h).1

/-- A reading of the clock stays recent while nothing is written for the key. -/
theorem Recent.append {key : Key P A} {T events : List (Event P A V E)} {now : Stamp}
    (h : Recent key T now) (hwrites : ∀ p ∈ writes events, p.1 ≠ key) :
    Recent key (T ++ events) now := by
  refine ⟨?_, fun p hp hkey => ?_⟩
  · rw [List.filterMap_append]
    exact List.mem_append_left _ h.read
  · rw [writes_append] at hp
    rcases List.mem_append.mp hp with hp | hp
    · exact h.latest p hp hkey
    · exact absurd hkey (hwrites p hp)

variable [DecidableEq P] [DecidableEq A]

/-- What is stored for a key goes forward in time: the writes for it do, the readings of the clock
that work for it has are recent, and an entry that a lookup finds is not older than what was
delivered before. -/
structure Forward (key : Key P A) (T : List (Event P A V E)) (works : Multiset (Work P A V E)) :
    Prop where
  stamped : ∀ p ∈ writes T, p.1 = key → ∃ t, p.2.stamp = some t ∧ t ∈ T.filterMap Event.reading?
  sorted : ((writes T).filter (·.1 = key)).Pairwise fun p q => p.2.Precedes q.2
  storing : ∀ work ∈ works, work.key = key → ∀ now, work.stamp? = some now → Recent key T now
  found : ∀ before entry after, T = before ++ .hit key entry :: after →
    ∀ p ∈ deliveries before, p.1 = key → p.2.entry.Precedes entry

section Forward

variable {key : Key P A} {T events : List (Event P A V E)}
  {works works' rest : Multiset (Work P A V E)}

omit [DecidableEq P] [DecidableEq A] in
/-- Quiet events find nothing. -/
theorem isFinding_of_isQuiet (h : ∀ event ∈ events, event.isQuiet = true) :
    ∀ event ∈ events, event.isFinding = false := by
  intro event he
  have hquiet := h event he
  cases event with
  | hit | stale => cases hquiet
  | _ => rfl

omit [DecidableEq P] [DecidableEq A] in
/-- The end of an execution finds nothing. -/
theorem isFinding_endEvents (notices : List Notice) (execution : Option Nat)
    (progress : Progress (Work P A V E) (Outcome (Result V E))) :
    ∀ event ∈ (endEvents notices execution progress : List (Event P A V E)),
      event.isFinding = false := by
  have hnotices : ∀ event ∈ (notices.map .registry : List (Event P A V E)),
      event.isFinding = false := isFinding_of_isQuiet (isQuiet_registry notices)
  cases progress with
  | waiting left => exact hnotices
  | finished outcome =>
    exact List.forall_mem_append.mpr ⟨hnotices, List.forall_mem_singleton.mpr rfl⟩

omit [DecidableEq P] [DecidableEq A] in
/-- A lookup that tells of a hit has found the entry. -/
theorem Looks.of_hit {key' : Key P A} {maxAge : Option Duration} {found : Option (Delivery V)}
    {entry : Entry V} (h : Looks key' maxAge events found) (hmem : .hit key entry ∈ events) :
    key' = key ∧ found = some (Delivery.cached entry) := by
  cases h with
  | hit hfresh =>
    simp only [List.mem_cons, Event.hit.injEq, reduceCtorEq, false_or, List.not_mem_nil,
      or_false] at hmem
    obtain ⟨rfl, rfl⟩ := hmem
    exact ⟨rfl, rfl⟩
  | miss => simp at hmem
  | stale => simp at hmem

namespace Forward

/-- Nothing is written for the key, and a lookup of the key finds only what is not older than what
was delivered. -/
theorem extend (h : Forward key T works) (hwrites : ∀ p ∈ writes events, p.1 ≠ key)
    (hfound : ∀ before entry after, events = before ++ .hit key entry :: after →
      ∀ p ∈ deliveries (T ++ before), p.1 = key → p.2.entry.Precedes entry)
    (hworks : ∀ work ∈ works', work.key = key →
      work ∈ works ∨ ∀ now, work.stamp? = some now → Recent key (T ++ events) now) :
    Forward key (T ++ events) works' := by
  have hnone : (writes events).filter (·.1 = key) = [] := by
    refine List.filter_eq_nil_iff.mpr fun p hp hkey => ?_
    exact hwrites p hp (of_decide_eq_true hkey)
  refine ⟨fun p hp hkey => ?_, ?_, fun work hw hkey now hnow => ?_, ?_⟩
  · rw [writes_append] at hp
    rcases List.mem_append.mp hp with hp | hp
    · obtain ⟨t, ht, hread⟩ := h.stamped p hp hkey
      refine ⟨t, ht, ?_⟩
      rw [List.filterMap_append]
      exact List.mem_append_left _ hread
    · exact absurd hkey (hwrites p hp)
  · rw [writes_append, List.filter_append, hnone, List.append_nil]
    exact h.sorted
  · rcases hworks work hw hkey with hold | hrecent
    · exact (h.storing work hold hkey now hnow).append hwrites
    · exact hrecent now hnow
  · intro before entry after hsplit
    rcases append_eq_split hsplit with ⟨rest, hT⟩ | ⟨begun, rfl, hevents⟩
    · exact h.found before entry rest hT
    · exact hfound begun entry after hevents

/-- The same if no lookup finds anything. -/
theorem still (h : Forward key T works) (hwrites : ∀ p ∈ writes events, p.1 ≠ key)
    (hfinding : ∀ event ∈ events, event.isFinding = false)
    (hworks : ∀ work ∈ works', work.key = key →
      work ∈ works ∨ ∀ now, work.stamp? = some now → Recent key (T ++ events) now) :
    Forward key (T ++ events) works' := by
  refine h.extend hwrites (fun before entry after hsplit => ?_) hworks
  have hmem : .hit key entry ∈ events := by
    rw [hsplit]
    exact List.mem_append_right _ (List.mem_cons_self ..)
  exact absurd (hfinding _ hmem) nofun

/-- What was written for the key precedes the entry that is stored for it. -/
theorem precedes (h : Forward key T works) {seed : Key P A → Option (Entry V)} {entry : Entry V}
    (hlatest : Latest seed key entry T) {p : Key P A × Entry V} (hp : p ∈ writes T)
    (hkey : p.1 = key) : p.2.Precedes entry := by
  have hspared : ∀ {events : List (Event P A V E)}, (∀ event ∈ events, event.spares key) →
      ∀ p ∈ writes events, p.1 ≠ key := by
    intro events hspares p hp
    obtain ⟨event, hevent, hwrite⟩ := List.mem_filterMap.mp hp
    have hspare := hspares event hevent
    cases event with
    | storeWritten key' entry' =>
      cases hwrite
      exact hspare
    | _ => cases hwrite
  cases hlatest with
  | seeded hseed hspares => exact absurd hkey (hspared hspares p hp)
  | @written before after hspares =>
    -- Either it is this entry, or it was written before this entry.
    have hsplit : writes (before ++ .storeWritten key entry :: after) =
        writes before ++ ([(key, entry)] ++ writes after) := writes_append _ _
    have hsorted := h.sorted
    have hnow : (key, entry) ∈ writes (before ++ .storeWritten key entry :: after) := by
      rw [hsplit]
      exact List.mem_append_right _ (List.mem_cons_self ..)
    rw [hsplit] at hp hsorted
    rcases List.mem_append.mp hp with hp | hp
    · rw [List.filter_append, List.filter_append] at hsorted
      refine (List.pairwise_append.mp hsorted).2.2 p ?_ (key, entry) ?_
      · exact List.mem_filter.mpr ⟨hp, decide_eq_true hkey⟩
      · refine List.mem_append_left _ ?_
        exact List.mem_filter.mpr ⟨List.mem_singleton_self _, decide_eq_true rfl⟩
    · rcases List.mem_append.mp hp with hp | hp
      · obtain rfl := List.mem_singleton.mp hp
        obtain ⟨t, ht, -⟩ := h.stamped _ hnow rfl
        exact ⟨t, t, ht, ht, Int64.le_refl t⟩
      · exact absurd hkey (hspared hspares p hp)

/-! ### Polls of work -/

variable {work : Work P A V E} {execution : Option Nat} {env env' : Environment P A V E}
  {progress : Progress (Work P A V E) (Outcome (Result V E))}

/-- A reading of the clock that work has after a poll is recent. -/
theorem recent (h : Forward key T (work ::ₘ rest)) (hsteady : ClockSteady (T ++ events))
    (hkey : work.key = key) {now : Stamp}
    (hnow : now ∈ work.stamp?.toList ++ events.filterMap Event.reading?) :
    now ∈ (T ++ events).filterMap Event.reading? ∧
      ∀ p ∈ writes T, p.1 = key → ∃ t, p.2.stamp = some t ∧ t ≤ now := by
  unfold ClockSteady at hsteady
  rw [List.filterMap_append] at hsteady ⊢
  rcases List.mem_append.mp hnow with hold | hnew
  · obtain ⟨hread, hlatest⟩ :=
      h.storing work (Multiset.mem_cons_self ..) hkey now (Option.mem_toList.mp hold)
    exact ⟨List.mem_append_left _ hread, hlatest⟩
  · -- What was written has readings of the clock that were made before.
    refine ⟨List.mem_append_right _ hnew, fun p hp hkey => ?_⟩
    obtain ⟨t, ht, hread⟩ := h.stamped p hp hkey
    exact ⟨t, ht, (List.pairwise_append.mp hsteady).2.2 t hread now hnew⟩

/-- The poll ends with a delivery, which is written. -/
theorem delivers (h : Forward key T (work ::ₘ rest)) (hsteady : ClockSteady (T ++ events))
    (hkey : work.key = key) (hothers : ∀ other ∈ rest, other.key ≠ key) {d : Delivery V}
    (hwrites : writes events = [(work.key, d.entry)])
    (hfinding : ∀ event ∈ events, event.isFinding = false) {now : Stamp}
    (hstamp : d.stamp = some now)
    (hnow : now ∈ work.stamp?.toList ++ events.filterMap Event.reading?) :
    Forward key (T ++ events) rest := by
  obtain ⟨hread, hlatest⟩ := h.recent hsteady hkey hnow
  refine ⟨fun p hp hpkey => ?_, ?_, fun other hother hotherkey => ?_, ?_⟩
  · rw [writes_append, hwrites] at hp
    rcases List.mem_append.mp hp with hp | hp
    · obtain ⟨t, ht, hold⟩ := h.stamped p hp hpkey
      refine ⟨t, ht, ?_⟩
      rw [List.filterMap_append]
      exact List.mem_append_left _ hold
    · obtain rfl := List.mem_singleton.mp hp
      exact ⟨now, hstamp, hread⟩
  · rw [writes_append, hwrites, List.filter_append, List.pairwise_append]
    refine ⟨h.sorted, (List.pairwise_singleton _ _).filter _, fun p hp q hq => ?_⟩
    obtain ⟨hp, hpkey⟩ := List.mem_filter.mp hp
    obtain rfl := List.mem_singleton.mp (List.mem_filter.mp hq).1
    obtain ⟨t, ht, hle⟩ := hlatest p hp (of_decide_eq_true hpkey)
    exact ⟨t, now, ht, hstamp, hle⟩
  · exact absurd hotherkey (hothers other hother)
  · intro before entry after hsplit
    rcases append_eq_split hsplit with ⟨more, hT⟩ | ⟨begun, -, hevents⟩
    · exact h.found before entry more hT
    · have hmem : .hit key entry ∈ events := by
        rw [hevents]
        exact List.mem_append_right _ (List.mem_cons_self ..)
      exact absurd (hfinding _ hmem) nofun

/-- A poll of the only work for a key writes forward in time, if the clock does not go back. -/
theorem polls (h : Forward key T (work ::ₘ rest)) (hsteady : ClockSteady (T ++ events))
    (hunderway : Underway key T (work ::ₘ rest))
    (hpoll : work.pollAs execution env = (progress, env'))
    (htrace : env'.trace = env.trace ++ events) :
    Forward key (T ++ events) (held progress.rest? rest) := by
  obtain ⟨told, hyields⟩ := Work.yields_pollAs execution work env
  rw [hpoll] at hyields
  obtain rfl : told = events := List.append_cancel_left (hyields.trace.symm.trans htrace)
  have hwrites := hyields.writes
  by_cases hkey : work.key = key
  · have hothers : ∀ other ∈ rest, other.key ≠ key := fun other hother hotherkey =>
      Multiset.filter_eq_nil.mp (hunderway.eq_of_cons hkey).1 other hother hotherkey
    cases hdelivery : Work.delivery? progress with
    | some d =>
      obtain rfl := Work.delivery?_eq_some_iff.mp hdelivery
      obtain ⟨value, now, rfl⟩ := hyields.loaded d hdelivery
      refine h.delivers hsteady hkey hothers hwrites hyields.noFinding rfl ?_
      rw [← hyields.stamped _ hdelivery]
      exact List.mem_singleton_self now
    | none =>
      rw [hdelivery] at hwrites
      have hnothing : ∀ p ∈ writes told, p.1 ≠ key := by
        rw [hwrites]
        exact List.forall_mem_nil _
      refine h.still hnothing hyields.noFinding fun other hother hotherkey => ?_
      cases progress with
      | finished outcome => exact .inl (Multiset.mem_cons_of_mem hother)
      | waiting left =>
        rcases Multiset.mem_cons.mp hother with rfl | hother
        · -- A reading that the work has now, it has had before or has just made.
          refine .inr fun now hnow => ?_
          have hmem : now ∈ work.stamp?.toList ++ told.filterMap Event.reading? := by
            rw [← hyields.waiting other rfl, hnow]
            exact List.mem_singleton_self now
          obtain ⟨hread, hlatest⟩ := h.recent hsteady hkey hmem
          refine ⟨hread, ?_⟩
          rw [writes_append, hwrites]
          simpa using hlatest
        · exact .inl (Multiset.mem_cons_of_mem hother)
  · -- Work for another key writes nothing for this one.
    have hother : ∀ p ∈ writes told, p.1 ≠ key := by
      intro p hp
      rw [hwrites] at hp
      obtain ⟨d, -, rfl⟩ := List.mem_map.mp hp
      exact hkey
    refine h.still hother hyields.noFinding fun other hmem hotherkey => .inl ?_
    cases progress with
    | finished outcome => exact Multiset.mem_cons_of_mem hmem
    | waiting left =>
      rcases Multiset.mem_cons.mp hmem with rfl | hmem
      · exact absurd ((Work.key_of_pollAs hpoll).symm.trans hotherkey) hkey
      · exact Multiset.mem_cons_of_mem hmem

/-! ### Moves -/

variable {seed : Store (Key P A) V} {source : Source P V E} {w w' : World P A V E}

/-- What a move does keeps what is stored for the key going forward. -/
theorem does (h : Forward key T w.works) (hsteady : ClockSteady (T ++ events))
    (htraced : Traced seed source T w) (hunderway : Underway key T w.works)
    (hdoes : Does w events w') : Forward key (T ++ events) w'.works := by
  have hapart : ∀ {told : List (Event P A V E)}, Apart told → ∀ p ∈ writes told, p.1 ≠ key := by
    intro told happart
    rw [happart.writes]
    exact List.forall_mem_nil _
  cases hdoes with
  | @looks _ key' maxAge found _ hlooks henv hflights hworks hfind _ =>
    refine h.extend (hapart hlooks.apart) (fun before entry after hsplit p hp hkey => ?_)
      fun work hw _ => .inl (hworks ▸ hw)
    obtain ⟨rfl, hfound⟩ := hlooks.of_hit (hsplit ▸ List.mem_append_right _ (List.mem_cons_self ..))
    -- Nothing is delivered while something is looked up.
    have hnothing : deliveries before = [] := by
      have hlooked : deliveries (before ++ .hit key' entry :: after) = [] := by
        rw [← hsplit, deliveries, hlooks.apart.settled]
        rfl
      rw [deliveries_append] at hlooked
      exact (List.append_eq_nil_iff.mp hlooked).1
    rw [deliveries_append, hnothing, List.append_nil] at hp
    have hlatest : Latest seed.find key' entry T :=
      latest_of_stocks (congrFun htraced.stocked key' ▸ hfind entry hfound)
    refine h.precedes hlatest (p := (p.1, p.2.entry)) ?_ hkey
    rw [htraced.recounts.delivered.matched.writes]
    exact List.mem_map.mpr ⟨p, hp, rfl⟩
  | clears =>
    exact h.still (List.forall_mem_nil _) (List.forall_mem_singleton.mpr rfl) fun _ hw _ => .inl hw
  | rests hquiet henv hsettled hworks =>
    refine h.still (hapart (apart_of_quiet hquiet)) (isFinding_of_isQuiet hquiet)
      fun work hw _ => ?_
    rcases hworks with hless | ⟨key', hfresh⟩
    · exact .inl (Multiset.mem_of_le hless hw)
    · rw [hfresh] at hw
      refine (Multiset.mem_cons.mp hw).symm.imp_right fun heq now hnow => ?_
      rw [heq] at hnow
      cases hnow
  | @receives _ e outcome notices hstage henv hsettled hworks =>
    exact h.still (hapart (apart_endEvents notices (some e) (.finished outcome)))
      (isFinding_endEvents notices (some e) (.finished outcome)) fun work hw _ => .inl (hworks ▸ hw)
  | @polls _ execution work rest progress env' told notices hworks hpoll htrace hworks' henv _ =>
    rw [← List.append_assoc] at hsteady ⊢
    rw [hworks']
    rw [hworks] at h hunderway
    have hpolled := h.polls hsteady.of_append hunderway hpoll htrace
    exact hpolled.still (hapart (apart_endEvents notices execution progress))
      (isFinding_endEvents notices execution progress) fun _ hw _ => .inl hw

end Forward

end Forward

/-! ## Runs -/

/-- What is known of a world if the loads of a key are shared: they are done one after the other,
and if the clock does not go back, neither does what is stored. -/
structure Shared (seed : Store (Key P A) V) (source : Source P V E) (key : Key P A)
    (T : List (Event P A V E)) (w : World P A V E) : Prop where
  traced : Traced seed source T w
  underway : Underway key T w.works
  forward : ClockSteady T → Forward key T w.works

section Shared

variable {seed : Store (Key P A) V} {source : Source P V E} {key : Key P A}
  {T : List (Event P A V E)} {w w' : World P A V E}

/-- A move keeps what is known of the key, unless it polls a load of a single caller for it. -/
theorem Shared.move (hmove : Move w w') (hshared : ∀ load ∈ w.loads, load.solo? ≠ some key)
    (h : Shared seed source key T w) : Leads (Shared seed source key) T w w' := by
  obtain ⟨events, htrace, hdoes⟩ := hmove.reaches
  obtain ⟨told, htold, hunderway⟩ :=
    h.underway.move hmove h.traced.attended h.traced.keyed hshared
  obtain rfl : told = events := List.append_cancel_left (htold.symm.trans htrace)
  exact ⟨told, htrace, h.traced.does hmove hdoes, hunderway, fun hsteady =>
    (h.forward hsteady.of_append).does hsteady h.traced h.underway hdoes⟩

/-- What is known of the key does not depend on the trace before. -/
theorem Shared.fresh {s : Session P A V E} (h : Shared seed source key T s.world) :
    Shared seed source key T s.fresh.world := ⟨h.traced.fresh, h.underway, h.forward⟩

end Shared

/-- A request is for results of a key. -/
def Wants (key : Key P A) (request : Option (Request P A V)) : Prop :=
  ∃ r asked, request = some r ∧ r.asked? = some asked ∧ asked.key = key

/-- Once a loaded result of a key was yielded, no stored result of the key that is yielded has an
earlier timestamp. -/
def NeverBack (key : Key P A) (log : List (Chapter P A V E)) : Prop :=
  ∀ earlier request value t between request' entry later,
    log = earlier ++ .yielded request (.delivery (Delivery.loaded value t)) :: between ++
      .yielded request' (.delivery (Delivery.cached entry)) :: later →
    Wants key request → Wants key request' → ∃ t', entry.stamp = some t' ∧ t ≤ t'

section NeverBack

variable {seed : Key P A → Option (Entry V)} {key : Key P A}
  {log earlier later : List (Chapter P A V E)}
  {T : List (Event P A V E)} {request : Option (Request P A V)} {d : Delivery V}

omit [DecidableEq P] [DecidableEq A] in
/-- A whole result that is yielded to a request for results of a key has a source. -/
theorem Truthful.sourced (h : Truthful seed log) (hwants : Wants key request)
    (hlog : log = earlier ++ .yielded request (.delivery d) :: later) :
    ∃ maxAge, Sourced (E := E) seed key maxAge (eventsIn earlier) (.ok d) := by
  obtain ⟨r, asked, rfl, hasked, rfl⟩ := hwants
  obtain ⟨r', hr, hserved⟩ := h earlier _ _ later hlog
  cases hr
  obtain ⟨result, hitem, hsourced⟩ := hserved asked hasked
  refine ⟨asked.maxAge, ?_⟩
  cases result with
  | error failure => cases hitem
  | ok d' =>
    unfold Item.ofResult at hitem
    simp only at hitem
    split at hitem
    · cases hitem
      exact hsourced
    · cases hitem

omit [DecidableEq P] [DecidableEq A] in
/-- A loaded result that has a source is among the deliveries. -/
theorem Sourced.mem_deliveries {maxAge : Option Duration} {value : V} {t : Stamp}
    (h : Sourced (E := E) seed key maxAge T (.ok (Delivery.loaded value t))) :
    (key, Delivery.loaded value t) ∈ deliveries T := by
  generalize hresult : (Except.ok (Delivery.loaded value t) : Result V E) = result at h
  cases h with
  | failed failure => cases hresult
  | stored => cases hresult
  | loaded hs hkey houtcome =>
    cases hresult
    rw [← hkey]
    exact ReadThrough.mem_deliveries hs houtcome

omit [DecidableEq P] [DecidableEq A] in
/-- A stored entry is yielded right after it was found. -/
theorem Sourced.found {maxAge : Option Duration} {entry : Entry V}
    (h : Sourced (E := E) seed key maxAge T (.ok (Delivery.cached entry))) :
    ∃ before rest, T = before ++ .hit key entry :: rest ∧ deliveries rest = [] := by
  generalize hresult : (Except.ok (Delivery.cached entry) : Result V E) = result at h
  cases h with
  | failed failure => cases hresult
  | loaded => cases hresult
  | @stored before rest entry' now hT hrest =>
    obtain rfl : entry = entry' := Delivery.cached_injective (Except.ok.inj hresult)
    refine ⟨before ++ [.storeRead key (some entry), .clockRead now], rest, ?_, ?_⟩
    · rw [hT, List.append_assoc, List.append_assoc]
      rfl
    · rcases hrest with rfl | rfl <;> rfl

omit [DecidableEq P] [DecidableEq A] in
/-- A truthful chronicle in which no lookup finds what is older than a delivery before never goes
back. -/
theorem neverBack (h : Truthful seed log)
    (hfound : ∀ before entry after, eventsIn log = before ++ .hit key entry :: after →
      ∀ p ∈ deliveries before, p.1 = key → p.2.entry.Precedes entry) : NeverBack key log := by
  intro earlier request value t between request' entry later hlog hwants hwants'
  have hfirst : log = earlier ++ .yielded request (.delivery (Delivery.loaded value t)) ::
      (between ++ .yielded request' (.delivery (Delivery.cached entry)) :: later) := by
    rw [hlog, List.append_assoc]
    rfl
  obtain ⟨maxAge, hloaded⟩ := h.sourced hwants hfirst
  obtain ⟨maxAge', hcached⟩ := h.sourced hwants' hlog
  obtain ⟨before, rest, hbefore, hrest⟩ := hcached.found
  have hevents : eventsIn log = before ++ .hit key entry :: (rest ++ eventsIn later) := by
    rw [hlog, eventsIn_append, hbefore, List.append_assoc]
    rfl
  -- The loaded result was delivered before the entry was found.
  have hmem : (key, Delivery.loaded value t) ∈ deliveries before := by
    have hall : (key, Delivery.loaded value t) ∈
        deliveries (before ++ .hit key entry :: rest) := by
      rw [← hbefore, eventsIn_append, deliveries_append]
      exact List.mem_append_left _ hloaded.mem_deliveries
    rw [deliveries_append] at hall
    rcases List.mem_append.mp hall with hall | hall
    · exact hall
    · have hnothing : deliveries (.hit key entry :: rest) = [] := hrest
      rw [hnothing] at hall
      cases hall
  obtain ⟨t₁, t', ht, ht', hle⟩ := hfound before entry _ hevents _ hmem rfl
  cases ht
  exact ⟨t', ht', hle⟩

end NeverBack

namespace Session

variable [DecidableEq V]

/-- What is known of a key holds throughout every run in which its loads are shared and nothing is
written past the cache. -/
theorem shared_run (setup : Setup (Store (Key P A) V)) (source : Source P V E)
    {steps : List (Step P A V)} {key : Key P A} (hput : ∀ st ∈ steps, st.isPut = false)
    (hshare : ∀ st ∈ steps, st.Allowed fun key' share => key' = key → share = true) :
    let run := (create (Cache.create setup source)).run steps
    Shared setup.store source key (eventsOf run.1) run.2.world := by
  let starts (key' : Key P A) (share : Bool) : Prop := key' = key → share = true
  let I (T : List (Event P A V E)) (w : World P A V E) : Prop :=
    Suited starts w ∧ Shared setup.store source key T w
  have hloadStep : ∀ {T w visits w'}, LoadStep SessionActs starts w visits w' → I T w →
      Leads I T w w' := by
    rintro T w visits w' hloadStep ⟨hsuited, hshared⟩
    have hstarts : ¬ starts key false := fun h => by cases h rfl
    obtain ⟨events, htrace, hafter⟩ := kept_shared Shared.move hstarts hloadStep hsuited hshared
    exact ⟨events, htrace, hsuited.loadStep hloadStep, hafter⟩
  have hfresh : ∀ {T} {s : Session P A V E}, I T s.world → I T s.fresh.world :=
    fun h => ⟨⟨h.1.labelled, h.1.suits⟩, h.2.fresh⟩
  have hfit : (create (Cache.create setup source)).Fit starts := fun id task hget => by cases hget
  have hstart : I [] (create (Cache.create setup source)).world :=
    { left := ⟨fun key ticket hget => (by cases hget), fun load hload => (by cases hload)⟩
      right :=
        { traced := (Chronicle.kept_create setup source).traced
          underway := ⟨none, rfl, rfl⟩
          forward := fun _ => ⟨nofun, List.Pairwise.nil, nofun, fun before _ _ h => by
            cases before <;> cases h⟩ } }
  have hnone : ∀ key entry, .put key entry ∈ steps →
      ∀ {T w}, I T w → Leads I T w (w.put key entry) :=
    fun key entry hmem => absurd (hput _ hmem) nofun
  exact (kept_travels hloadStep hfresh hnone hshare hfit hstart).2

/-- Shared loads of a key are done one after the other and never go back in time. In a run of a
session over a new cache in which nothing is written past the cache, all loads of a key are shared
and the clock does not go back: each call of the source for the key is made after the work of the
last one has settled or was dropped, and there is at most one piece of work for the key; all writes
for the key have timestamps, in order; and whatever a lookup of the key finds is not older than what
was loaded for it before. So a caller who is given a stored result of the key after another caller
was given a loaded one is given none that is older. -/
theorem shared_loads_serialized (setup : Setup (Store (Key P A) V)) (source : Source P V E)
    (steps : List (Step P A V)) (key : Key P A) (hput : ∀ st ∈ steps, st.isPut = false)
    (hshare : ∀ st ∈ steps, st.Allowed fun key' share => key' = key → share = true)
    (hclock : ClockSteady (eventsOf ((create (Cache.create setup source)).run steps).1)) :
    let run := (create (Cache.create setup source)).run steps
    let chronicle := Chronicle.run (create (Cache.create setup source)) steps
    (Serialized key (eventsOf run.1) ∧ (run.2.world.works.filter (·.key = key)).card ≤ 1) ∧
      ((∀ p ∈ writes (eventsOf run.1), p.1 = key → p.2.stamp.isSome = true) ∧
        ((writes (eventsOf run.1)).filter (·.1 = key)).Pairwise fun p q => p.2.Precedes q.2) ∧
      (∀ before entry after, eventsOf run.1 = before ++ .hit key entry :: after →
        ∀ p ∈ deliveries before, p.1 = key → p.2.entry.Precedes entry) ∧
      (eventsIn chronicle.log = eventsOf run.1 ∧ itemsIn chronicle.log = itemsOf run.1 ∧
        NeverBack key chronicle.log) := by
  intro run chronicle
  obtain ⟨-, ⟨one, hone, hfollow⟩, hforward⟩ := shared_run setup source hput hshare
  obtain ⟨hstamped, hsorted, -, hfound⟩ := hforward hclock
  obtain ⟨-, hkept, part, hlog, hevents, hitems⟩ :=
    (Chronicle.kept_create setup source).run hput
  obtain rfl : chronicle.log = part := hlog
  refine ⟨⟨serialized_of_follow hfollow, ?_⟩, ⟨fun p hp hkey => ?_, hsorted⟩, hfound, hevents,
    hitems, neverBack hkept.truthful ?_⟩
  · rw [hone]
    cases one with
    | none => exact Nat.zero_le 1
    | some work => exact Nat.le_refl 1
  · obtain ⟨t, ht, -⟩ := hstamped p hp hkey
    rw [ht]
    rfl
  · rw [hevents]
    exact hfound

/-- A load of a key with two callers is cancelled while its write waits; the next one is written,
and read again while another key is loaded alone. -/
def relay : List (Step String Unit Int64) :=
  let key : Key String Unit := Key.ofParams "x"
  [.begin "a" (.stream true key (.policy .never) {}), .begin "b" (.watch "x" 1), .poll "a",
    .poll "b", .openGate "source", .poll "a", .drop "a", .drop "b",
    .begin "c" (.stream true key (.policy .never) {}), .poll "c", .openGate "write", .poll "c",
    .run (.stream true (Key.ofParams "y") (.policy .never) { share := false }),
    .run (.stream true key (.policy .only) {}), .run (.stream true key (.policy .never) {}),
    .run (.stream true key (.policy .only) {})]

theorem shared_loads_serialized_relay :
    let source : Source String Int64 String :=
      scriptedSource [{ wait := { gate := some "source" } }, {}]
    let setup : Setup (Store (Key String Unit) Int64) :=
      { store := .gated { writeGate := some "write", entries := Table.empty },
        clock := .counter 1000 1, broadcastCapacity := 64 }
    let run := (create (Cache.create setup source)).run relay
    let log := (Chronicle.run (create (Cache.create setup source)) relay).log
    (writes (eventsOf run.1)).map (fun p => (p.1.params, p.2.value, p.2.stamp)) =
        [("x", 2, some 1001), ("y", 3, some 1002), ("x", 4, some 1004)] ∧
      (itemsIn log).map (fun item => match item with | .delivery d => some d | _ => none) =
        [some (Delivery.loaded 2 1001), some (Delivery.loaded 3 1002),
          some (Delivery.cached (Entry.stamped 2 1001)), some (Delivery.loaded 4 1004),
          some (Delivery.cached (Entry.stamped 4 1004))] ∧
      Serialized (Key.ofParams "x") (eventsOf run.1) ∧ NeverBack (Key.ofParams "x") log := by
  intro source setup run log
  have hput : ∀ st ∈ relay, st.isPut = false := by decide
  have hshare : ∀ st ∈ relay,
      st.Allowed fun key' share => key' = Key.ofParams "x" → share = true := by
    simp [relay, Step.Allowed, Request.Allowed, Request.aim?, Key.ofParams]
  have hclock : ClockSteady (eventsOf run.1) := by
    unfold ClockSteady
    decide +kernel
  have hserialized :=
    shared_loads_serialized setup source relay (Key.ofParams "x") hput hshare hclock
  exact ⟨by decide +kernel, by decide +kernel, hserialized.1.1, hserialized.2.2.2.2.2⟩

end Session

end ReadThrough
