import ReadThrough.Proofs.Session.Contents
import ReadThrough.Proofs.Session.Failures
/-!
# Proofs: what is stored, published and received

The writes of the store, the published results and the results that callers receive are the same
deliveries. Each execution that ends with a result writes and publishes it once, in the order in
which the executions end, with a reading of the clock that is its only one; whoever waits for the
execution receives its result, and only then. The writes are those of the store itself: it has what
they have left of it (`Stocked`), as the channel has carried what was published.
-/

namespace ReadThrough

variable {P A V E : Type}

/-- The result of an execution, with the key that it was loaded for. -/
def Settlement.delivery? (s : Settlement P A V E) : Option (Key P A × Delivery V) :=
  s.outcome.delivery?.map (s.key, ·)

/-- The results of the executions that have ended with one, in the order of their ends. -/
def deliveries (T : List (Event P A V E)) : List (Key P A × Delivery V) :=
  (books T).settled.filterMap Settlement.delivery?

/-- What was written and what was published are the results of the executions. -/
structure Matched (T : List (Event P A V E)) : Prop where
  writes : writes T = (deliveries T).map fun p => (p.1, p.2.entry)
  updates : updates T = (deliveries T).map fun p => (p.1.params, p.2)

/-- Before a caller of an execution receives a result, the execution has ended with it, and a
delivery has been written and published. What was written and published until then are the results
of the executions that have ended until then, no more and no fewer. -/
def Received (before : List (Event P A V E)) (who : Option Nat) (result : Result V E) : Prop :=
  Matched before ∧
    ∃ s ∈ (books before).settled, s.execution = who ∧ result = Load.resultOf s.outcome ∧
      (who = none → (books before).settled.getLast? = some s) ∧
      ∀ d, result = .ok d →
        (s.key, d.entry) ∈ writes before ∧ (s.key.params, d) ∈ updates before

/-- The readings of the clock, with the numbers of the calls whose executions made them, while
`works` are under way: work has made a reading if it stores a value, and an execution that has ended
with a result has made the one that the result has. -/
structure Stamps (T : List (Event P A V E)) (works : Multiset (Work P A V E))
    (stamps : List (Nat × Stamp)) : Prop where
  made : stamps.map (·.2) = readings T []
  distinct : (stamps.map (·.1)).Nodup
  called : ∀ p ∈ stamps, ∃ key, (p.1, key) ∈ (books T).calls
  storing : ∀ work ∈ works, ∀ number, work.number? = some number →
    ∀ now, (number, now) ∈ stamps ↔ work.stamp? = some now
  settled : ∀ s ∈ (books T).settled, ∀ d, s.outcome = .value (.ok d) →
    ∃ now, d.stamp = some now ∧ (s.number, now) ∈ stamps

/-- What the events tell of deliveries agrees with the work under way and with the channel of
results. -/
structure Delivered (T : List (Event P A V E)) (works : Multiset (Work P A V E))
    (channel : Channel (P × Delivery V)) : Prop where
  matched : Matched T
  loaded : ∀ p ∈ deliveries T, ∃ value now, p.2 = Delivery.loaded value now
  stamped : ∃ stamps, Stamps T works stamps
  received : ∀ before who result after, T = before ++ .received who result :: after →
    Received before who result
  carries : channel.Carries (heardUpdates T [])

/-- The deliveries of two lists of events are those of the first and then those of the second. -/
theorem deliveries_append (events events' : List (Event P A V E)) :
    deliveries (events ++ events') = deliveries events ++ deliveries events' := by
  rw [deliveries, books_append, Books.settled_append, List.filterMap_append, deliveries, deliveries]

/-! ## Events apart from deliveries -/

/-- The events tell nothing of a delivery, unless that it is received. -/
structure Apart (events : List (Event P A V E)) : Prop where
  settled : (books events).settled = []
  writes : writes events = []
  updates : updates events = []
  readings : ∀ stamps, readings events stamps = stamps
  heard : ∀ messages, heardUpdates events messages = messages

/-- Whether an event by itself tells nothing of a delivery, unless that it is received. -/
def Event.isApart : Event P A V E → Bool
  | .settled _ _ _ _ | .storeWritten _ _ | .updatePublished _ _ | .updateUnheard | .clockRead _
  | .hit _ _ | .stale _ _ _ => false
  | _ => true

section Apart

variable {T events : List (Event P A V E)} {works works' : Multiset (Work P A V E)}
  {channel channel' : Channel (P × Delivery V)} {stamps : List (Nat × Stamp)}

/-- Events of which each is apart are apart together. -/
theorem apart_of_forall (h : ∀ event ∈ events, event.isApart = true) : Apart events := by
  have hnone : ∀ event ∈ events, event.settlement? = none ∧ event.write? = none ∧
      event.update? = none ∧ (∀ stamps, reckon stamps event = stamps) ∧
      ∀ messages, hearUpdate messages event = messages := by
    intro event he
    have hapart := h event he
    cases event with
    | settled | storeWritten | updatePublished | updateUnheard | clockRead | hit | stale =>
      cases hapart
    | _ => exact ⟨rfl, rfl, rfl, fun _ => rfl, fun _ => rfl⟩
  exact
    { settled := List.filterMap_eq_nil_iff.mpr fun event he => (hnone event he).1
      writes := List.filterMap_eq_nil_iff.mpr fun event he => (hnone event he).2.1
      updates := List.filterMap_eq_nil_iff.mpr fun event he => (hnone event he).2.2.1
      readings := foldl_of_forall fun event he => (hnone event he).2.2.2.1
      heard := foldl_of_forall fun event he => (hnone event he).2.2.2.2 }

/-- Quiet events tell nothing of a delivery. -/
theorem apart_of_quiet (h : ∀ event ∈ events, event.isQuiet = true) : Apart events := by
  refine apart_of_forall fun event he => ?_
  have hquiet := h event he
  cases event with
  | registry | abandoned | unanswered | rescued | rejected | retried | lagged => rfl
  | _ => cases hquiet

/-- A lookup takes its reading of the clock back. -/
theorem Looks.apart {key : Key P A} {maxAge : Option Duration} {found : Option (Delivery V)}
    (h : Looks key maxAge events found) : Apart events := by
  cases h with
  | miss => exact ⟨rfl, rfl, rfl, fun _ => rfl, fun _ => rfl⟩
  | hit => exact ⟨rfl, rfl, rfl, fun _ => List.dropLast_concat, fun _ => rfl⟩
  | stale => exact ⟨rfl, rfl, rfl, fun _ => List.dropLast_concat, fun _ => rfl⟩

/-- The end of an execution tells nothing of its delivery besides its settlement. -/
theorem apart_endEvents (notices : List Notice) (execution : Option Nat)
    (progress : Progress (Work P A V E) (Outcome (Result V E))) :
    Apart (endEvents notices execution progress : List (Event P A V E)) := by
  have hregistry : ∀ event ∈ (notices.map .registry : List (Event P A V E)),
      event.isApart = true := by
    intro event he
    obtain ⟨notice, -, rfl⟩ := List.mem_map.mp he
    rfl
  refine apart_of_forall ?_
  cases progress with
  | waiting left => exact hregistry
  | finished outcome =>
    exact List.forall_mem_append.mpr ⟨hregistry, List.forall_mem_singleton.mpr rfl⟩

/-- Events apart settle nothing. -/
theorem Apart.settled_append (h : Apart events) :
    (books (T ++ events)).settled = (books T).settled := by
  rw [books_append, Books.settled_append, h.settled, List.append_nil]

/-- Events apart deliver nothing. -/
theorem Apart.deliveries_append (h : Apart events) : deliveries (T ++ events) = deliveries T := by
  rw [deliveries, h.settled_append, deliveries]

/-- Writes and updates stay matched over events apart. -/
theorem Apart.matched (h : Apart events) (hmatched : Matched T) : Matched (T ++ events) := by
  refine ⟨?_, ?_⟩
  · rw [writes_append, h.writes, List.append_nil, h.deliveries_append, hmatched.writes]
  · rw [updates_append, h.updates, List.append_nil, h.deliveries_append, hmatched.updates]

/-- The readings of the clock stay those of the work, over events apart and without new work that
has made one. -/
theorem Stamps.apart (h : Apart events) (hstamps : Stamps T works stamps)
    (hworks : ∀ work ∈ works', work ∈ works ∨ work.number? = none) :
    Stamps (T ++ events) works' stamps := by
  refine ⟨?_, hstamps.distinct, fun p hp => ?_, fun work hw number hnumber => ?_, ?_⟩
  · rw [readings_append, h.readings]
    exact hstamps.made
  · obtain ⟨key, hkey⟩ := hstamps.called p hp
    rw [books_append]
    exact ⟨key, List.mem_append_left _ hkey⟩
  · rcases hworks work hw with hw | hnone
    · exact hstamps.storing work hw number hnumber
    · rw [hnone] at hnumber
      cases hnumber
  · rw [h.settled_append]
    exact hstamps.settled

/-! ## Receipts -/

/-- A receipt among the events is one in the books. -/
theorem receipts_ne_nil {before after : List (Event P A V E)} {who : Option Nat}
    {result : Result V E} (h : events = before ++ .received who result :: after) :
    (books events).received ≠ [] := by
  have hmem : (who, result) ∈ (books events).received := by
    refine List.mem_filterMap.mpr ⟨.received who result, ?_, rfl⟩
    rw [h]
    exact List.mem_append_right _ (List.mem_cons_self ..)
  exact List.ne_nil_of_mem hmem

/-- A settlement with a delivery is among the deliveries. -/
theorem mem_deliveries {s : Settlement P A V E} (hs : s ∈ (books T).settled) {d : Delivery V}
    (hd : s.outcome = .value (.ok d)) : (s.key, d) ∈ deliveries T := by
  refine List.mem_filterMap.mpr ⟨s, hs, ?_⟩
  rw [Settlement.delivery?, hd]
  rfl

/-- The result of an execution that has ended with one was written and published. -/
theorem published_of_settled (h : Matched T) {s : Settlement P A V E} (hs : s ∈ (books T).settled)
    {d : Delivery V} (hd : s.outcome = .value (.ok d)) :
    (s.key, d.entry) ∈ writes T ∧ (s.key.params, d) ∈ updates T := by
  have hmem := mem_deliveries hs hd
  rw [h.writes, h.updates]
  exact ⟨List.mem_map.mpr ⟨_, hmem, rfl⟩, List.mem_map.mpr ⟨_, hmem, rfl⟩⟩

/-- When an execution has settled, its result may be received: all writes and updates are matched by
then. -/
theorem Matched.received (h : Matched T) {s : Settlement P A V E} (hs : s ∈ (books T).settled)
    (hlast : s.execution = none → (books T).settled.getLast? = some s) :
    Received T s.execution (Load.resultOf s.outcome) := by
  refine ⟨h, s, hs, rfl, rfl, hlast, fun d hd => published_of_settled h hs ?_⟩
  cases hout : s.outcome with
  | value result => rw [show result = .ok d by rw [hout] at hd; exact hd]
  | panicked message =>
    rw [hout] at hd
    cases hd

/-- What is received at the end of a poll was there before. -/
theorem received_lastEvents (hmatched : Matched T) {s : Settlement P A V E}
    (hs : s ∈ (books T).settled)
    (hlast : s.execution = none → (books T).settled.getLast? = some s) {notices : List Notice}
    {before after : List (Event P A V E)} {who : Option Nat} {result : Result V E}
    (h : lastEvents notices s.execution (Load.resultOf s.outcome) =
      before ++ .received who result :: after) : Received (T ++ before) who result := by
  have hsilent := isSilent_registry (P := P) (A := A) (V := V) (E := E) notices
  have hapart : Apart (notices.map .registry : List (Event P A V E)) :=
    apart_endEvents notices none (.waiting (.fresh s.key))
  -- The notices before tell of nothing that is received.
  rcases append_eq_split h with ⟨rest, hnotices⟩ | ⟨begun, rfl, hreceived⟩
  · exact absurd (by rw [books_of_silent hsilent]; rfl) (receipts_ne_nil hnotices)
  · cases begun with
    | cons event begun =>
      rw [List.cons_append, List.cons.injEq] at hreceived
      have hempty := congrArg List.length hreceived.2
      simp at hempty
    | nil =>
      rw [List.nil_append, List.cons.injEq, Event.received.injEq] at hreceived
      obtain ⟨⟨rfl, rfl⟩, -⟩ := hreceived
      rw [List.append_nil]
      refine (hapart.matched hmatched).received ?_ fun hnone => ?_
      · rw [hapart.settled_append]
        exact hs
      · rw [hapart.settled_append]
        exact hlast hnone

/-- Events that are apart from deliveries leave what was delivered as it is. -/
theorem Delivered.apart (h : Delivered T works channel) (hapart : Apart events)
    (hworks : ∀ work ∈ works', work ∈ works ∨ work.number? = none)
    (hchannel : ∀ {messages}, channel.Carries messages → channel'.Carries messages)
    (hreceived : ∀ before who result after, events = before ++ .received who result :: after →
      Received (T ++ before) who result) : Delivered (T ++ events) works' channel' := by
  obtain ⟨stamps, hstamps⟩ := h.stamped
  refine ⟨hapart.matched h.matched, ?_, ⟨stamps, .apart hapart hstamps hworks⟩, ?_, ?_⟩
  · rw [hapart.deliveries_append]
    exact h.loaded
  · intro before who result after hsplit
    rcases append_eq_split hsplit with ⟨rest, hT⟩ | ⟨begun, rfl, hevents⟩
    · exact h.received before who result rest hT
    · exact hreceived begun who result after hevents
  · rw [heardUpdates_append, hapart.heard]
    exact hchannel h.carries

/-- The same if nothing is received. -/
theorem Delivered.silent (h : Delivered T works channel) (hapart : Apart events)
    (hworks : ∀ work ∈ works', work ∈ works ∨ work.number? = none)
    (hchannel : ∀ {messages}, channel.Carries messages → channel'.Carries messages)
    (hsilent : ∀ event ∈ events, event.isSilent = true) :
    Delivered (T ++ events) works' channel' :=
  h.apart hapart hworks hchannel fun _ _ _ _ hevents =>
    absurd (by rw [books_of_silent hsilent]; rfl) (receipts_ne_nil hevents)

end Apart

/-! ## Polls of work -/

section Polls

variable {T events : List (Event P A V E)} {source : Source P V E} {execution : Option Nat}
  {work : Work P A V E} {rest : Multiset (Work P A V E)}
  {progress : Progress (Work P A V E) (Outcome (Result V E))} {env env' : Environment P A V E}
  {calls : List (Nat × Key P A)} {published : List (P × Failure E)} {number : Nat}

/-- An execution that settles delivers its result, if it has one. -/
theorem deliveries_of_settlements {key : Key P A}
    (h : (books events).settled = Work.settlements execution number key progress) :
    deliveries events = (Work.delivery? progress).toList.map fun d => (key, d) := by
  rw [deliveries, h]
  cases progress with
  | waiting left => rfl
  | finished outcome =>
    cases outcome with
    | panicked message => rfl
    | value result => cases result <;> rfl

/-- Writes and updates stay matched when work is polled: it writes and publishes what it settles
with. -/
theorem Matched.yields (h : Matched T) (hyields : Work.Yields work env progress env' events)
    (hsettled : (books events).settled =
      Work.settlements execution number work.key progress) : Matched (T ++ events) := by
  have hdeliveries := deliveries_of_settlements hsettled
  refine ⟨?_, ?_⟩
  · rw [writes_append, deliveries_append, List.map_append, h.writes, hyields.writes, hdeliveries,
      List.map_map]
    rfl
  · rw [updates_append, deliveries_append, List.map_append, h.updates, hyields.updates,
      hdeliveries, List.map_map]
    rfl

/-! ### Readings of the clock -/

variable {works : Multiset (Work P A V E)} {stamps : List (Nat × Stamp)}

/-- The readings that were made for a call of the source, whether or not it was made yet. -/
theorem Stamps.mem_iff (h : Stamps T (work ::ₘ rest) stamps)
    (haccounts : Accounts source (books T) (work ::ₘ rest) env) (now : Stamp) :
    (work.callNumber env, now) ∈ stamps ↔ work.stamp? = some now := by
  cases work with
  | calling key number reply => exact h.storing _ (Multiset.mem_cons_self ..) number rfl now
  | storing key number value stamp => exact h.storing _ (Multiset.mem_cons_self ..) number rfl now
  | fresh key =>
    -- The next number is beyond those of the calls that were made.
    refine ⟨fun hmem => ?_, fun hnone => by cases hnone⟩
    obtain ⟨key', hcall⟩ := h.called _ hmem
    have hrange : (Work.fresh key : Work P A V E).callNumber env ∈ (books T).calls.map (·.1) :=
      List.mem_map.mpr ⟨_, hcall, rfl⟩
    rw [haccounts.numbered, List.mem_range'_1] at hrange
    have hfresh : (Work.fresh key : Work P A V E).callNumber env = env.called.length + 1 := rfl
    simp only [hfresh] at hrange
    omega

/-- No other work has the number of the work that is polled. -/
theorem Accounts.Makes.number?_ne {b : Books P A V E} {key : Key P A}
    (h : Accounts.Makes b calls key number rest env) {other : Work P A V E}
    (hother : other ∈ rest) :
    other.number? ≠ some number := by
  intro hsome
  have hmem : number ∈ numbers b rest :=
    Multiset.mem_add.mpr (.inr ((Multiset.mem_filterMap _ _).mpr ⟨other, hother, hsome⟩))
  exact (Multiset.nodup_cons.mp h.distinct).1 hmem

/-- A reading that is made for a call is the only one. -/
theorem Stamps.nodup_append (h : Stamps T works stamps) {stamp : Option Stamp}
    (hmem : ∀ now, (number, now) ∈ stamps ↔ stamp = some now) {new : List Stamp}
    (honce : (stamp.toList ++ new).length ≤ 1) :
    ((stamps ++ new.map (number, ·)).map (·.1)).Nodup := by
  cases new with
  | nil =>
    rw [List.map_nil, List.append_nil]
    exact h.distinct
  | cons now more =>
    rw [List.length_append, List.length_cons] at honce
    obtain rfl : more = [] := List.length_eq_zero_iff.mp (by omega)
    have hnone : stamp = none := Option.toList_eq_nil_iff.mp (List.length_eq_zero_iff.mp (by omega))
    rw [List.map_append]
    refine List.nodup_append.mpr ⟨h.distinct, List.nodup_singleton _, ?_⟩
    intro n hn n' hn' heq
    obtain ⟨⟨_, now'⟩, hp, rfl⟩ := List.mem_map.mp hn
    obtain rfl : n' = number := List.mem_singleton.mp hn'
    obtain rfl := heq
    rw [hmem, hnone] at hp
    cases hp

/-- A reading of the clock is the stamp of the work or one that it makes in the poll. -/
theorem mem_stamped_iff {stamp : Option Stamp}
    (hmem : ∀ now, (number, now) ∈ stamps ↔ stamp = some now) (new : List Stamp) (now : Stamp) :
    (number, now) ∈ stamps ++ new.map (number, ·) ↔ now ∈ stamp.toList ++ new := by
  simp [hmem]

/-- The reading that a poll makes, if it makes one, is that of its work. -/
theorem Stamps.yields (h : Stamps T (work ::ₘ rest) stamps)
    (hyields : Work.Yields work env progress env' events)
    (hbooks : books events =
      ⟨calls, Work.settlements execution (work.callNumber env) work.key progress, [], published⟩)
    (haccounts : Accounts source (books T) (work ::ₘ rest) env)
    (hmakes : Accounts.Makes (books T) calls work.key (work.callNumber env) rest env')
    (hnumber : ∀ left, progress = .waiting left → left.number? = some (work.callNumber env)) :
    Stamps (T ++ events) (held progress.rest? rest)
      (stamps ++ (events.filterMap Event.reading?).map (work.callNumber env, ·)) := by
  have hmem := h.mem_iff haccounts
  have hfull := mem_stamped_iff hmem (events.filterMap Event.reading?)
  have hbooksT : books (T ++ events) = books T ++ _ :=
    (books_append T events).trans (congrArg _ hbooks)
  refine ⟨?_, h.nodup_append hmem hyields.once, fun p hp => ?_, fun other hw n hn now => ?_,
    fun s hs d hd => ?_⟩
  · rw [List.map_append, List.map_map, readings_append, readings_of_no_finding hyields.noFinding,
      h.made]
    exact congrArg _ (List.map_id _)
  · rw [hbooksT]
    rcases List.mem_append.mp hp with hp | hp
    · obtain ⟨key, hkey⟩ := h.called p hp
      exact ⟨key, List.mem_append_left _ hkey⟩
    · obtain ⟨now, -, rfl⟩ := List.mem_map.mp hp
      exact ⟨work.key, hmakes.called⟩
  · -- Work that waits is the polled one or another one.
    have hcases : (∃ left, progress = .waiting left ∧ other = left) ∨ other ∈ rest := by
      cases progress with
      | waiting left => exact (Multiset.mem_cons.mp hw).imp_left fun heq => ⟨left, rfl, heq⟩
      | finished outcome => exact .inr hw
    rcases hcases with ⟨left, hprogress, rfl⟩ | hw
    · have hwaiting := hyields.waiting other hprogress
      rw [hnumber other hprogress, Option.some.injEq] at hn
      rw [← hn, hfull, ← hwaiting, Option.mem_toList]
    · -- Other work has another number, so that the new readings are not its own.
      have hne : n ≠ work.callNumber env := fun heq => hmakes.number?_ne hw (heq ▸ hn)
      rw [List.mem_append, h.storing other (Multiset.mem_cons_of_mem hw) n hn now]
      refine or_iff_left fun hp => ?_
      obtain ⟨now', -, heq⟩ := List.mem_map.mp hp
      exact hne (congrArg Prod.fst heq).symm
  · rw [hbooksT] at hs
    rcases List.mem_append.mp hs with hs | hs
    · obtain ⟨now, hnow, hp⟩ := h.settled s hs d hd
      exact ⟨now, hnow, List.mem_append_left _ hp⟩
    · cases progress with
      | waiting left => cases hs
      | finished outcome =>
        obtain rfl := List.mem_singleton.mp hs
        obtain rfl : outcome = .value (.ok d) := hd
        obtain ⟨value, now, rfl⟩ := hyields.loaded d rfl
        have hstamped := hyields.stamped _ rfl
        refine ⟨now, rfl, (hfull now).mpr ?_⟩
        rw [← hstamped]
        exact List.mem_singleton_self now

/-- A poll of work keeps what was delivered right. -/
theorem Delivered.yields [DecidableEq P] [DecidableEq A]
    (h : Delivered T (work ::ₘ rest) env.updates)
    (haccounts : Accounts source (books T) (work ::ₘ rest) env)
    (hpoll : work.pollAs execution env = (progress, env'))
    (htrace : env'.trace = env.trace ++ events) :
    Delivered (T ++ events) (held progress.rest? rest) env'.updates ∧
      (books events).settled =
        Work.settlements execution (work.callNumber env) work.key progress := by
  obtain ⟨events₁, htrace₁, hbooks, -, hcalled, -⟩ := Work.books_pollAs execution work env
  obtain ⟨events₂, hyields⟩ := Work.yields_pollAs execution work env
  have hprogress : (work.poll env).1 = progress := by
    rw [← show (work.pollAs execution env).1 = progress by rw [hpoll], Work.pollAs_eq]
  have hcomes : Work.Comes source work.key (work.callNumber env) progress := by
    have hsource := haccounts.source_eq
    have hcomes := Work.comes_poll
      (hsource.symm ▸ haccounts.honest work (Multiset.mem_cons_self ..))
    rwa [hsource, hprogress] at hcomes
  rw [hpoll] at htrace₁ hcalled hyields
  rw [hprogress] at hbooks
  obtain rfl : events₁ = events := List.append_cancel_left (htrace₁.symm.trans htrace)
  obtain rfl : events₂ = events₁ := List.append_cancel_left (hyields.trace.symm.trans htrace)
  have hsettled := congrArg Books.settled hbooks
  have hnumber : ∀ left, progress = .waiting left →
      left.number? = some (work.callNumber env) := by
    rintro left rfl
    exact hcomes.2.1
  obtain ⟨stamps, hstamps⟩ := h.stamped
  refine ⟨⟨h.matched.yields hyields hsettled, ?_, ?_, ?_, ?_⟩, hsettled⟩
  · intro p hp
    rw [deliveries_append, deliveries_of_settlements hsettled] at hp
    rcases List.mem_append.mp hp with hp | hp
    · exact h.loaded p hp
    · obtain ⟨d, hd, rfl⟩ := List.mem_map.mp hp
      exact hyields.loaded d (Option.mem_toList.mp hd)
  · exact ⟨_, hstamps.yields hyields hbooks haccounts (haccounts.makes hcalled) hnumber⟩
  · intro before who result after hsplit
    rcases append_eq_split hsplit with ⟨rest', hT⟩ | ⟨begun, -, hevents⟩
    · exact h.received before who result rest' hT
    · exact absurd (congrArg Books.received hbooks) (receipts_ne_nil hevents)
  · rw [heardUpdates_append]
    exact hyields.carries _ h.carries

end Polls

/-! ## Runs -/

section Runs

variable [DecidableEq P] [DecidableEq A] {T events : List (Event P A V E)}
  {source : Source P V E} {w w' : World P A V E}

/-- A poll of work keeps the record of its delivery: stamped once, written and published as it
settles. -/
theorem Delivered.polls {execution : Option Nat} {work : Work P A V E}
    {rest : Multiset (Work P A V E)}
    {progress : Progress (Work P A V E) (Outcome (Result V E))} {env env' : Environment P A V E}
    (h : Delivered T (work ::ₘ rest) env.updates)
    (haccounts : Accounts source (books T) (work ::ₘ rest) env)
    (hpoll : work.pollAs execution env = (progress, env'))
    (htrace : env'.trace = env.trace ++ events) {channel : Channel (P × Delivery V)}
    (hchannel : ∀ {messages}, env'.updates.Carries messages → channel.Carries messages)
    (notices : List Notice) :
    Delivered (T ++ (events ++ endEvents notices execution progress))
      (held progress.rest? rest) channel := by
  obtain ⟨hyields, hsettled⟩ := h.yields haccounts hpoll htrace
  rw [← List.append_assoc]
  refine hyields.apart (apart_endEvents notices execution progress) (fun _ => .inl) hchannel ?_
  intro before who result after hevents
  cases progress with
  | waiting left =>
    have hsilent := books_of_silent (isSilent_registry (P := P) (A := A) (V := V) (E := E) notices)
    exact absurd (by rw [endEvents, hsilent]; rfl) (receipts_ne_nil hevents)
  | finished outcome =>
    -- The execution that has just ended is the last one in the books.
    have hbooks : (books (T ++ events)).settled = (books T).settled ++
        [⟨execution, work.callNumber env, work.key, outcome⟩] := by
      rw [books_append, Books.settled_append, hsettled]
      rfl
    refine received_lastEvents hyields.matched
      (s := ⟨execution, work.callNumber env, work.key, outcome⟩) ?_ (fun _ => ?_) hevents
    · rw [hbooks]
      exact List.mem_append_right _ (List.mem_singleton_self _)
    · rw [hbooks]
      exact List.getLast?_concat

/-- Whatever a move does keeps what was delivered right. -/
theorem Delivered.does (h : Delivered T w.works w.cache.env.updates) (htold : Told source T w)
    (hdoes : Does w events w') : Delivered (T ++ events) w'.works w'.cache.env.updates := by
  cases hdoes with
  | looks hlooks henv hflights hworks =>
    exact h.silent hlooks.apart (fun work hw => .inl (hworks ▸ hw)) henv.updates hlooks.isSilent
  | clears =>
    exact h.silent (apart_of_forall (List.forall_mem_singleton.mpr rfl)) (fun _ => .inl) id
      (List.forall_mem_singleton.mpr rfl)
  | rests hquiet henv hsettled hworks =>
    refine h.silent (apart_of_quiet hquiet) (fun work hw => ?_) henv.updates fun event he =>
      Event.isSilent_of_isQuiet (hquiet event he)
    rcases hworks with hless | ⟨key, hfresh⟩
    · exact .inl (Multiset.mem_of_le hless hw)
    · rw [hfresh] at hw
      exact (Multiset.mem_cons.mp hw).symm.imp_right fun heq => by rw [heq]; rfl
  | @receives _ e outcome notices hstage henv hsettled hworks =>
    refine h.apart (apart_endEvents notices (some e) (.finished outcome))
      (fun work hw => .inl (hworks ▸ hw)) henv.updates fun before who result after hevents => ?_
    obtain ⟨s, hs, hexecution, rfl⟩ := htold.answered.recorded e outcome hstage
    rw [← hexecution] at hevents
    exact received_lastEvents h.matched hs
      (fun hnone => by rw [hnone] at hexecution; cases hexecution)
      hevents
  | polls hworks hpoll htrace hworks' henv hadvanced =>
    rw [hworks']
    exact Delivered.polls (hworks ▸ h) (hworks ▸ htold.accounts) hpoll htrace henv.updates _

/-- What the events tell agrees with a world, deliveries included. -/
structure Recounts (source : Source P V E) (T : List (Event P A V E)) (w : World P A V E) :
    Prop where
  told : Told source T w
  delivered : Delivered T w.works w.cache.env.updates

namespace Recounts

/-- A move keeps the record of deliveries. -/
theorem move (hmove : Move w w') (h : Recounts source T w) : Leads (Recounts source) T w w' := by
  obtain ⟨events, htrace, hdoes⟩ := hmove.reaches
  exact ⟨events, htrace, h.told.does hdoes, h.delivered.does h.told hdoes⟩

omit [DecidableEq P] [DecidableEq A] in
/-- The record of deliveries does not depend on the trace before. -/
theorem fresh {s : Session P A V E} (h : Recounts source T s.world) :
    Recounts source T s.fresh.world := ⟨h.told.fresh, h.delivered⟩

/-- A write past the cache is nothing that the cache tells of. -/
theorem put (h : Recounts source T w) (key : Key P A) (entry : Entry V) :
    Recounts source T (w.put key entry) :=
  ⟨⟨h.told.accounts.silent le_rfl rfl rfl, h.told.answered, h.told.carries⟩, h.delivered⟩

/-- The record of deliveries is kept throughout every run from the beginning. -/
theorem run [DecidableEq V] (setup : Setup (Store (Key P A) V)) (source : Source P V E)
    (steps : List (Session.Step P A V)) :
    let run := (Session.create (Cache.create setup source)).run steps
    Recounts source (Session.ownEvents steps run.1) run.2.world := by
  have hsound : (Session.create (Cache.create setup source)).Sound := Session.sound_create _
  have hstart : Recounts source ([] : List (Event P A V E))
      (Session.create (Cache.create setup source)).world :=
    { told :=
        { accounts := ⟨rfl, rfl, nofun, nofun, nofun, List.nodup_nil, nofun, nofun, rfl⟩
          answered := ⟨nofun, nofun, List.nodup_nil, nofun, rfl⟩
          carries := ⟨rfl, List.suffix_rfl⟩ }
      delivered :=
        { matched := ⟨rfl, rfl⟩
          loaded := nofun
          stamped := ⟨[], rfl, List.nodup_nil, nofun, nofun, nofun⟩
          received := fun before _ _ _ h => by cases before <;> cases h
          carries := ⟨rfl, List.suffix_rfl⟩ } }
  exact Session.kept_own (I := Recounts source) move fresh put steps hsound hstart

end Recounts

end Runs

/-! ## Deliveries coincide -/

section Polls

variable [DecidableEq P] [DecidableEq A]

end Polls

namespace Session

variable [DecidableEq P] [DecidableEq A] [DecidableEq V]

/-- Two executions that end in the other order than they have begun; one of them has two callers. -/
def crossing : List (Step String Unit Int64) :=
  [.begin "a" (.stream true (Key.ofParams "x") (.policy .never) {}),
    .begin "b" (.stream true (Key.ofParams "y") (.policy .never) {}),
    .begin "c" (.stream true (Key.ofParams "y") (.policy .never) {}),
    .poll "a", .poll "b", .openGate "second", .poll "c", .openGate "first", .poll "a", .poll "b"]

example :
    let source : Source String Int64 String :=
      scriptedSource [{ wait := { gate := some "first" } }, { wait := { gate := some "second" } }]
    let setup : Setup (Store (Key String Unit) Int64) :=
      { store := .bounded (Bounded.ofCapacity 16 (by decide)), clock := .counter 1000 1,
        broadcastCapacity := 64 }
    let events := ownEvents crossing ((create (Cache.create setup source)).run crossing).1
    writes events =
        [(Key.ofParams "y", Entry.stamped 2 1000), (Key.ofParams "x", Entry.stamped 1 1001)] ∧
      updates events = [("y", Delivery.loaded 2 1000), ("x", Delivery.loaded 1 1001)] ∧
      (books events).received.length = 3 :=
  ⟨rfl, rfl, rfl⟩

end Session

end ReadThrough
