import ReadThrough.Proofs.Session.Publications
/-!
# Proofs: a watch keeps up to date

As long as a watch misses nothing, its last value is that of the latest result for its parameters,
or there is such a result yet to read (`UpToDate`). Its own request brings the same result a second
time, and it may do so late. Because the result is published before the request ends, and the sides
take turns, it comes when the result is yet to read, or has been read just before.
-/

namespace ReadThrough

variable {P A V E : Type}

/-- Whether an event says that a subscriber has missed results. -/
def Event.lags : Event P A V E → Bool
  | .lagged channel _ => channel = "updates"
  | _ => false

/-- What a watch has shown last, after an answer. -/
def Answer.shown (last : Option V) : Answer (Watch.Item V E) → Option V
  | .item (.ok value) => some value
  | .item (.error _) | .pending | .done | .panicked _ => last

/-! ## The latest result -/

section Newest

variable [DecidableEq P] {params : P} {messages messages' : List (P × Delivery V)}

/-- The value of the latest result for some parameters. -/
def newest (params : P) (messages : List (P × Delivery V)) : Option V :=
  ((messages.filter (·.1 = params)).map (·.2.value)).getLast?

/-- Messages for other parameters leave the newest value. -/
theorem newest_append (h : ∀ m ∈ messages', m.1 ≠ params) :
    newest params (messages ++ messages') = newest params messages := by
  have hnone : messages'.filter (·.1 = params) = [] :=
    List.filter_eq_nil_iff.mpr fun m hm hparams => h m hm (of_decide_eq_true hparams)
  rw [newest, List.filter_append, hnone, List.append_nil, newest]

/-- A message for the parameters is the newest if none comes after it. -/
theorem newest_of_last {m : P × Delivery V} (hm : m.1 = params)
    (h : ∀ m ∈ messages', m.1 ≠ params) :
    newest params (messages ++ m :: messages') = some m.2.value := by
  have hsplit : messages ++ m :: messages' = messages ++ [m] ++ messages' := by simp
  have hlast : [m].filter (·.1 = params) = [m] :=
    List.filter_eq_self.mpr (List.forall_mem_singleton.mpr (decide_eq_true hm))
  rw [hsplit, newest_append h, newest, List.filter_append, hlast, List.map_append]
  exact List.getLast?_concat

/-- There is no latest result exactly if there is none for the parameters. -/
theorem newest_eq_none_iff :
    newest params messages = none ↔ ∀ m ∈ messages, m.1 ≠ params := by
  rw [newest, List.getLast?_eq_none_iff, List.map_eq_nil_iff, List.filter_eq_nil_iff]
  exact forall₂_congr fun m _ => not_congr decide_eq_true_iff

end Newest

namespace Watch

/-- How many results the request of a watch may still bring, in both ways. -/
def outstanding (w : Watch P A V E) : Nat :=
  match w.inquiry with
  | .loading _ _ => 2
  | .answered => 0

/-- A watch after it has shown an item. -/
def showing (w : Watch P A V E) : Option (Item V E) → Watch P A V E
  | some (.ok value) => { w with last := some value }
  | some (.error _) | none => w

/-- Nothing changes when a value is passed over. -/
theorem showing_of_last {w : Watch P A V E} {value : V} (h : w.last = some value) :
    w.showing (some (.ok value)) = w := by
  cases w
  cases h
  rfl

/-- The request of a watch brings at most two results: its outcome, and the update that comes of
it. -/
theorem outstanding_le (w : Watch P A V E) : w.outstanding ≤ 2 := by
  unfold outstanding
  split
  · exact Nat.le_refl 2
  · exact Nat.zero_le 2

variable [DecidableEq P]

/-- A watch is up to date with the results that were published since it began, when it has some of
them yet to read: if these are not for its parameters, it has shown the latest result. What is due
to its request is yet to read, or it has been shown just before the turn of the request. -/
structure UpToDate (told unread : List (P × Delivery V)) (turn : Side) (w : Watch P A V E)
    (f : Flights (Key P A) (Work P A V E) (Result V E)) : Prop where
  within : unread <:+ told
  shown : (∀ m ∈ unread, m.1 ≠ w.params) → w.last = newest w.params told
  owed : ∀ load d, w.load? = some load → load.Due f d →
    (w.params, d) ∈ unread ∨ turn = .request ∧ w.last = some d.value

/-- Nothing is due to the request of a watch. -/
def Clear (w : Watch P A V E) (f : Flights (Key P A) (Work P A V E) (Result V E)) : Prop :=
  ∀ load d, w.load? = some load → ¬ load.Due f d

section UpToDate

variable {told unread messages : List (P × Delivery V)} {turn turn' : Side} {w : Watch P A V E}
  {f f' : Flights (Key P A) (Work P A V E) (Result V E)}

/-- A watch that has just begun. -/
theorem upToDate_nil (hlast : w.last = none) (hclear : w.Clear f) : UpToDate [] [] turn w f :=
  ⟨List.suffix_rfl, fun _ => hlast, fun load d hload hdue => absurd hdue (hclear load d hload)⟩

/-- If nothing is due, it does not matter whose turn it is. -/
theorem UpToDate.of_clear (h : UpToDate told unread turn w f) (hclear : w.Clear f) (turn' : Side) :
    UpToDate told unread turn' w f :=
  ⟨h.within, h.shown, fun load d hload hdue => absurd hdue (hclear load d hload)⟩

/-- In the turn of the results, what is due is yet to read. -/
theorem UpToDate.clear (h : UpToDate told unread .updates w f)
    (hnone : ∀ m ∈ unread, m.1 ≠ w.params) : w.Clear f := by
  intro load d hload hdue
  rcases h.owed load d hload hdue with hunread | ⟨hturn, -⟩
  · exact hnone _ hunread rfl
  · cases hturn

/-- The watch reads the first result for its parameters, and it is the turn of the request. -/
theorem UpToDate.reads {skipped rest : List (P × Delivery V)} {m : P × Delivery V}
    (h : UpToDate told (skipped ++ m :: rest) turn w f)
    (hskipped : ∀ m' ∈ skipped, m'.1 ≠ w.params) (hm : m.1 = w.params)
    (hturn : turn = .updates ∨ w.Clear f) (position : Nat) :
    UpToDate told rest .request { w with position, last := some m.2.value } f := by
  obtain ⟨earlier, htold⟩ := h.within
  have hsplit : earlier ++ skipped ++ m :: rest = told := by
    rw [List.append_assoc]
    exact htold
  refine ⟨⟨earlier ++ skipped ++ [m], by rw [← hsplit]; simp⟩, fun hrest => ?_,
    fun load d hload hdue => ?_⟩
  · show some m.2.value = newest w.params told
    rw [← hsplit]
    exact (newest_of_last hm hrest).symm
  · have hupdates : turn = .updates := hturn.resolve_right fun hclear => hclear load d hload hdue
    rcases h.owed load d hload hdue with hunread | ⟨hrequest, -⟩
    · rcases List.mem_append.mp hunread with hunread | hunread
      · exact absurd rfl (hskipped _ hunread)
      · rcases List.mem_cons.mp hunread with rfl | hunread
        · exact .inr ⟨rfl, rfl⟩
        · exact .inl hunread
    · rw [hupdates] at hrequest
      cases hrequest

/-- The watch finds no result for its parameters. -/
theorem UpToDate.finds_none (h : UpToDate told unread turn w f)
    (hnone : ∀ m ∈ unread, m.1 ≠ w.params) (hclear : w.Clear f) {left : List (P × Delivery V)}
    (hleft : left <:+ unread) (turn' : Side) (position : Nat) :
    UpToDate told left turn' { w with position } f :=
  ⟨hleft.trans h.within, fun _ => h.shown hnone,
    fun load d hload hdue => absurd hdue (hclear load d hload)⟩

/-- The request of the watch brings a delivery, in its turn. -/
theorem UpToDate.answered (h : UpToDate told unread .request w f) {load : Load P A V E}
    (hload : w.load? = some load) {d : Delivery V}
    (hpublished : messages = [(w.params, d)] ∨ messages = [] ∧ load.Due f d) (turn' : Side) :
    UpToDate (told ++ messages) (unread ++ messages) turn'
      { w with inquiry := .answered, last := some d.value } f' := by
  obtain ⟨earlier, htold⟩ := h.within
  refine ⟨⟨earlier, by rw [← List.append_assoc, htold]⟩, fun hnone => ?_, nofun⟩
  rcases hpublished with rfl | ⟨rfl, hdue⟩
  · exact absurd rfl (hnone _ (List.mem_append_right _ (List.mem_singleton_self _)))
  · rw [List.append_nil] at hnone ⊢
    rcases h.owed load d hload hdue with hunread | ⟨-, hlast⟩
    · exact absurd rfl (hnone _ hunread)
    · -- The watch has shown it before.
      have hbefore : w.last = newest w.params told := h.shown hnone
      rwa [hlast] at hbefore

/-- The request of the watch goes on, or has failed, and nothing is due to it. -/
theorem UpToDate.goes_on (h : UpToDate told unread turn w f) (inquiry : Inquiry P A V E)
    (hclear : Clear { w with inquiry } f') (turn' : Side) :
    UpToDate told unread turn' { w with inquiry } f' :=
  ⟨h.within, h.shown, fun load d hload hdue => absurd hdue (hclear load d hload)⟩

/-- Others publish results, among them what becomes due to the request. -/
theorem UpToDate.hears (h : UpToDate told unread turn w f)
    (hdue : ∀ load d, w.load? = some load → load.Due f' d →
      load.Due f d ∨ (w.params, d) ∈ messages) :
    UpToDate (told ++ messages) (unread ++ messages) turn w f' := by
  obtain ⟨earlier, htold⟩ := h.within
  refine ⟨⟨earlier, by rw [← List.append_assoc, htold]⟩, fun hnone => ?_,
    fun load d hload hd => ?_⟩
  · obtain ⟨hunread, hmessages⟩ := List.forall_mem_append.mp hnone
    rw [newest_append hmessages]
    exact h.shown hunread
  · rcases hdue load d hload hd with hbefore | hmem
    · exact (h.owed load d hload hbefore).imp_left (List.mem_append_left _)
    · exact .inl (List.mem_append_right _ hmem)

/-- Whose turn it is, is not kept by the watch alone. -/
theorem UpToDate.turned (h : UpToDate told unread turn w f) (next : Side) :
    UpToDate told unread turn { w with turn := next } f := ⟨h.within, h.shown, h.owed⟩

end UpToDate

/-! ## Asking -/

variable [DecidableEq A]

/-- A watch whose request is for its parameters, while others hold loads, and somebody listens. -/
structure Attuned (loads : Multiset (Load P A V E)) (w : Watch P A V E) (c : Cache P A V E) :
    Prop where
  attended : Attended ⟨c, held w.load? loads⟩
  keyed : Keyed c.flights
  addressed : ∀ load, w.load? = some load → load.Addressed c.flights (Key.ofParams w.params)
  heard : 0 < c.env.updates.subscribers
  holds : c.env.updates.buffer.length ≤ c.env.updates.sent

/-- What a watch does when it is asked for an item: unless it misses anything, it stays up to date.
If it has nothing, and has asked the channel, then there is nothing more to read. -/
structure Asks (loads : Multiset (Load P A V E)) (asked : Prop) (turn turn' : Side)
    (w : Watch P A V E) (c : Cache P A V E) (events : List (Event P A V E))
    (item : Option (Item V E)) (w' : Watch P A V E) (c' : Cache P A V E) : Prop where
  trace : c'.env.trace = c.env.trace ++ events
  attuned : Attuned loads w' c'
  params : w'.params = w.params
  last : w'.last = w.last
  cost : c'.env.updates.ahead w'.position + w'.outstanding + item.toList.length ≤
    c.env.updates.ahead w.position + w.outstanding
  upToDate : (∀ event ∈ events, event.lags = false) → ∀ {told unread},
    c.env.updates.Awaits w.position unread → UpToDate told unread turn w c.flights →
    ∃ left, c'.env.updates.Awaits w'.position left ∧
      UpToDate (told ++ updates events) left turn' (w'.showing item) c'.flights ∧
      (item = none → left <:+ unread ∧ (asked → ∀ m ∈ left, m.1 ≠ w.params))

section Asks

variable {loads : Multiset (Load P A V E)} {asked asked' : Prop} {turn turn' turn'' : Side}
  {w w' w'' : Watch P A V E} {c c' c'' : Cache P A V E} {events events' : List (Event P A V E)}
  {item : Option (Item V E)}

/-- Whose turn it is does not matter to the subscription. -/
theorem Attuned.turned (h : Attuned loads w c) (next : Side) :
    Attuned loads { w with turn := next } c := ⟨h.attended, h.keyed, h.addressed, h.heard, h.holds⟩

/-- The one side has nothing, and the other one is asked. -/
theorem Asks.trans {asked'' : Prop} (h : Asks loads asked turn turn' w c events none w' c')
    (h' : Asks loads asked' turn' turn'' w' c' events' item w'' c'')
    (hasked : asked'' → asked ∨ asked') :
    Asks loads asked'' turn turn'' w c (events ++ events') item w'' c'' := by
  have hcost := h.cost
  have hcost' := h'.cost
  rw [Option.toList_none, List.length_nil] at hcost
  refine ⟨?_, h'.attuned, h'.params.trans h.params, h'.last.trans h.last, by omega,
    fun hlags told unread hawaits hupToDate => ?_⟩
  · rw [h'.trace, h.trace, List.append_assoc]
  · obtain ⟨hlags, hlags'⟩ := List.forall_mem_append.mp hlags
    obtain ⟨left, hawaits, hupToDate, hleft⟩ := h.upToDate hlags hawaits hupToDate
    obtain ⟨left', hawaits', hupToDate', hleft'⟩ := h'.upToDate hlags' hawaits hupToDate
    rw [List.append_assoc, ← updates_append] at hupToDate'
    refine ⟨left', hawaits', hupToDate', fun hnone => ?_⟩
    obtain ⟨hsuffix, hwanted⟩ := hleft rfl
    obtain ⟨hsuffix', hwanted'⟩ := hleft' hnone
    refine ⟨hsuffix'.trans hsuffix, fun hboth => ?_⟩
    rcases hasked hboth with hfirst | hsecond
    · exact fun m hm => hwanted hfirst m (hsuffix'.subset hm)
    · rw [h.params] at hwanted'
      exact hwanted' hsecond

/-- If there is something, it does not matter who was asked. -/
theorem Asks.of_item {value : Item V E}
    (h : Asks loads asked turn turn' w c events (some value) w' c') :
    Asks loads asked' turn turn' w c events (some value) w' c' := by
  refine ⟨h.trace, h.attuned, h.params, h.last, h.cost, fun hlags _ _ hawaits hupToDate => ?_⟩
  obtain ⟨left, hawaits', hupToDate', -⟩ := h.upToDate hlags hawaits hupToDate
  exact ⟨left, hawaits', hupToDate', nofun⟩

/-- The side is noted that is to be asked first the next time. -/
theorem Asks.of_turned {next : Side}
    (h : Asks loads asked turn turn' { w with turn := next } c events item w' c') :
    Asks loads asked turn turn' w c events item w' c' :=
  ⟨h.trace, h.attuned, h.params, h.last, h.cost,
    fun hlags _ _ hawaits hupToDate => h.upToDate hlags hawaits (hupToDate.turned next)⟩

omit [DecidableEq A] in
/-- What a watch finds on the channel: the first result for its parameters that it has yet to read,
unless there is none or it has missed something. -/
theorem finds_nextUpdate (w : Watch P A V E) (c : Cache P A V E) :
    ∃ position item, w.nextUpdate c = (item, { w with position },
        c.noteMissed "updates" (c.env.updates.missed w.position)) ∧
      c.env.updates.ahead position + item.toList.length ≤ c.env.updates.ahead w.position ∧
      (c.env.updates.missed w.position = 0 → ∀ {unread}, c.env.updates.Awaits w.position unread →
        (item = none ∧ (∀ m ∈ unread, m.1 ≠ w.params) ∧
          ∃ left, left <:+ unread ∧ c.env.updates.Awaits position left) ∨
        ∃ skipped m rest, unread = skipped ++ m :: rest ∧ (∀ m' ∈ skipped, m'.1 ≠ w.params) ∧
          m.1 = w.params ∧ item = some (.ok m.2.value) ∧
          c.env.updates.Awaits position rest) := by
  have hfinds : c.env.updates.missed w.position = 0 → ∀ {unread},
      c.env.updates.Awaits w.position unread → Channel.Finds (fun m => m.1 = w.params) w.position
        unread (c.env.updates.receive (·.1 = w.params) w.position).2 :=
    fun hmissed _ hawaits => hawaits.finds hmissed _
  have hunwanted : ∀ {messages : List (P × Delivery V)},
      (∀ m ∈ messages, decide (m.1 = w.params) = false) → ∀ m ∈ messages, m.1 ≠ w.params :=
    fun h m hm => of_decide_eq_false (h m hm)
  unfold nextUpdate
  rcases hreceive : c.env.updates.receive (·.1 = w.params) w.position with ⟨missed, received⟩
  obtain rfl : c.env.updates.missed w.position = missed := congrArg Prod.fst hreceive
  rw [hreceive] at hfinds
  cases received with
  | message m position =>
    refine ⟨position, some (.ok m.2.value), rfl, Channel.ahead_of_message hreceive,
      fun hmissed unread hawaits => .inr ?_⟩
    cases hfinds hmissed hawaits with
    | @message skipped rest _ hunread hskipped hwanted =>
      subst hunread
      have hbehind : c.env.updates.Awaits w.position (skipped ++ [m] ++ rest) := by
        rw [List.append_assoc]
        exact hawaits
      have hrest := hbehind.skip
      rw [List.length_append, List.length_singleton, ← Nat.add_assoc] at hrest
      exact ⟨skipped, m, rest, rfl, hunwanted hskipped, of_decide_eq_true hwanted, rfl, hrest⟩
  | nothing position =>
    refine ⟨position, none, rfl, Channel.ahead_of_nothing hreceive,
      fun hmissed unread hawaits => .inl ⟨rfl, ?_⟩⟩
    cases hfinds hmissed hawaits with
    | nothing hnone =>
      have hall : c.env.updates.Awaits w.position (unread ++ []) := by
        rw [List.append_nil]
        exact hawaits
      exact ⟨hunwanted hnone, [], List.nil_suffix, hall.skip⟩
  | ended =>
    refine ⟨w.position, none, rfl, Nat.le_refl _, fun hmissed unread hawaits => .inl ⟨rfl, ?_⟩⟩
    cases hfinds hmissed hawaits with
    | ended hnone => exact ⟨hunwanted hnone, unread, List.suffix_rfl, hawaits⟩

/-- The channel is asked in its turn, or when nothing is due to the request. -/
theorem asks_nextUpdate (h : Attuned loads w c)
    (hturn : turn = .updates ∧ turn' = .request ∨ w.Clear c.flights) :
    ∃ events, Asks loads True turn turn' w c events (w.nextUpdate c).1 (w.nextUpdate c).2.1
      (w.nextUpdate c).2.2 := by
  obtain ⟨position, item, hask, hcost, hfinds⟩ := finds_nextUpdate w c
  have hafter : c.env.updates.ahead position + w.outstanding + item.toList.length ≤
      c.env.updates.ahead w.position + w.outstanding := by omega
  rw [hask]
  unfold Cache.noteMissed
  split
  · -- The watch has missed nothing.
    rename_i hmissed
    refine ⟨[], (List.append_nil _).symm, ⟨h.attended, h.keyed, h.addressed, h.heard, h.holds⟩, rfl,
      rfl, hafter, fun _ told unread hawaits hupToDate => ?_⟩
    rw [show updates ([] : List (Event P A V E)) = [] from rfl, List.append_nil]
    rcases hfinds hmissed hawaits with ⟨rfl, hnone, left, hleft, hawaits'⟩ |
      ⟨skipped, m, rest, rfl, hskipped, hm, rfl, hawaits'⟩
    · have hclear : w.Clear c.flights := by
        rcases hturn with ⟨rfl, -⟩ | hclear
        · exact hupToDate.clear hnone
        · exact hclear
      exact ⟨left, hawaits', hupToDate.finds_none hnone hclear hleft turn' position, fun _ =>
        ⟨hleft, fun _ m hm => hnone m (hleft.subset hm)⟩⟩
    · refine ⟨rest, hawaits', ?_, nofun⟩
      rcases hturn with ⟨rfl, rfl⟩ | hclear
      · exact hupToDate.reads hskipped hm (.inl rfl) position
      · exact (hupToDate.reads hskipped hm (.inr hclear) position).of_clear hclear turn'
  · refine ⟨[.lagged "updates" (c.env.updates.missed w.position)], rfl,
      ⟨h.attended.of_eq rfl rfl, h.keyed, h.addressed, h.heard, h.holds⟩, rfl, rfl, hafter,
      fun hlags => ?_⟩
    exact absurd (hlags _ (List.mem_singleton_self _)) nofun

section Request

variable {remaining : Nat} {load : Load P A V E}

/-- The request is polled. -/
theorem Attuned.polled (h : Attuned loads w c) (haired : Aired 0 0 events c c')
    (inquiry : Inquiry P A V E) (hattended : Attended ⟨c', held (load? { w with inquiry }) loads⟩)
    (haddressed : ∀ left, load? { w with inquiry } = some left →
      left.Addressed c'.flights (Key.ofParams w.params)) : Attuned loads { w with inquiry } c' :=
  ⟨hattended, haired.keyed h.keyed, haddressed,
    lt_of_lt_of_eq h.heard (haired.airs.subscribers _ rfl).symm, haired.airs.holds h.holds⟩

/-- The request goes on, or it has failed for good. -/
theorem asks_silent (h : Attuned loads w c) (haired : Aired 0 0 events c c')
    (hnone : updates events = []) {inquiry : Inquiry P A V E}
    (hattuned : Attuned loads { w with inquiry } c')
    (hclear : Clear { w with inquiry } c'.flights) (hitem : ∀ value, item ≠ some (.ok value))
    (hcost : outstanding { w with inquiry } + item.toList.length ≤ w.outstanding) (turn' : Side) :
    Asks loads False .request turn' w c events item { w with inquiry } c' := by
  have hahead := haired.airs.ahead h.holds w.position
  rw [hnone, List.length_nil] at hahead
  refine ⟨haired.trace, hattuned, rfl, rfl, ?_, fun _ told unread hunread hupToDate => ?_⟩
  · rw [Nat.add_assoc]
    exact Nat.add_le_add hahead hcost
  · have hawaits := haired.airs.awaits h.heard rfl hunread
    rw [hnone, List.append_nil] at hawaits ⊢
    have hshowing : showing { w with inquiry } item = { w with inquiry } := by
      rcases item with _ | (failure | value)
      · rfl
      · rfl
      · exact absurd rfl (hitem value)
    rw [hshowing]
    exact ⟨unread, hawaits, hupToDate.goes_on inquiry hclear turn',
      fun _ => ⟨List.suffix_rfl, nofun⟩⟩

/-- The request brings a delivery. -/
theorem asks_brought (h : Attuned loads w c) (hinquiry : w.inquiry = .loading remaining load)
    (haired : Aired 0 0 events c c') (hattended : Attended ⟨c', loads⟩) {d : Delivery V}
    (hpublished : updates events = [(w.params, d)] ∨ updates events = [] ∧ load.Due c.flights d)
    (turn' : Side) :
    Asks loads False .request turn' w c events (some (.ok d.value))
      { w with inquiry := .answered } c' := by
  have hahead := haired.airs.ahead h.holds w.position
  have hone : (updates events).length ≤ 1 := by
    rcases hpublished with hsome | ⟨hnone, -⟩
    · rw [hsome]
      exact Nat.le_refl 1
    · rw [hnone]
      exact Nat.zero_le 1
  have houtstanding : w.outstanding = 2 := by rw [outstanding, hinquiry]
  refine ⟨haired.trace, h.polled haired .answered hattended (fun _ h => by cases h), rfl, rfl, ?_,
    fun _ told unread hunread hupToDate => ?_⟩
  · show c'.env.updates.ahead w.position + 0 + 1 ≤ _
    rw [houtstanding]
    omega
  · have hload : w.load? = some load := by rw [load?, hinquiry]
    exact ⟨_, haired.airs.awaits h.heard rfl hunread, hupToDate.answered hload hpublished turn',
      fun h => by cases h⟩

/-- The request is asked in its turn. If it has nothing, nothing is due to it. -/
theorem asks_nextAnswer (h : Attuned loads w c) (turn' : Side) :
    ∃ events, Asks loads False .request turn' w c events (w.nextAnswer c).1 (w.nextAnswer c).2.1
        (w.nextAnswer c).2.2 ∧
      ((w.nextAnswer c).1 = none → (w.nextAnswer c).2.1.Clear (w.nextAnswer c).2.2.flights) := by
  have hallowed : w.Allowed fun _ _ => True := trivial
  have hreach : LoadReaches CallActs _ ⟨c, held w.load? loads⟩ _ := reaches_nextAnswer hallowed c
  have hattended := h.attended.moves (hreach.moves fun hacts => hacts.sessionActs.moves)
  unfold nextAnswer at hattended ⊢
  cases hinquiry : w.inquiry with
  | answered =>
    have hnone : w.load? = none := by rw [load?, hinquiry]
    have hclear : w.Clear c.flights := fun load d hload => by
      rw [hnone] at hload
      cases hload
    refine ⟨[], ⟨(List.append_nil _).symm, h, rfl, rfl, Nat.le_refl _,
      fun _ told unread hawaits hupToDate =>
        ⟨unread, hawaits, ?_, fun _ => ⟨List.suffix_rfl, fun h => by cases h⟩⟩⟩, fun _ => hclear⟩
    rw [show updates ([] : List (Event P A V E)) = [] from rfl, List.append_nil]
    exact hupToDate.of_clear hclear turn'
  | loading remaining load =>
    have hload : w.load? = some load := by rw [load?, hinquiry]
    have houtstanding : w.outstanding = 2 := by rw [outstanding, hinquiry]
    have hbefore : Attended ⟨c, load ::ₘ loads⟩ := by
      have hheld := h.attended
      rwa [hload] at hheld
    obtain ⟨events, haired, hpublishes, hrest⟩ := Load.bears_pollRetrying 0 w.retries remaining
      hbefore h.keyed (h.addressed load hload)
    simp only [hinquiry] at hattended ⊢
    -- The load goes on, or it has failed for good, or it has brought a delivery.
    rcases hpoll : load.pollRetrying (Key.ofParams w.params) w.retries remaining c with
      ⟨⟨remaining', load'⟩ | (failure | d), c'⟩ <;>
      rw [hpoll] at haired hpublishes hrest hattended
    · obtain ⟨haddressed, hdue⟩ := hrest load' rfl
      have hattuned := h.polled haired (.loading remaining' load') hattended fun left hleft =>
        Option.some.inj hleft ▸ haddressed
      have hclear : Clear { w with inquiry := .loading remaining' load' } c'.flights :=
        fun left d hleft => Option.some.inj hleft ▸ hdue d
      have hcost : outstanding { w with inquiry := .loading remaining' load' } +
          (none : Option (Item V E)).toList.length ≤ w.outstanding := houtstanding.ge
      exact ⟨events, asks_silent h haired (hpublishes.silent fun _ h => by cases h) hattuned hclear
        (fun value hvalue => by cases hvalue) hcost turn', fun _ => hclear⟩
    · have hattuned := h.polled haired .answered hattended fun _ h => by cases h
      have hclear : ({ w with inquiry := .answered } : Watch P A V E).Clear c'.flights :=
        fun left d hleft => by cases hleft
      have hcost : ({ w with inquiry := .answered } : Watch P A V E).outstanding +
          (some (.error failure) : Option (Item V E)).toList.length ≤ w.outstanding := by
        rw [houtstanding]
        exact Nat.le_succ 1
      exact ⟨events, asks_silent h haired (hpublishes.silent fun _ h => by cases h) hattuned hclear
        (fun value hvalue => by cases hvalue) hcost turn', fun _ => hclear⟩
    · exact ⟨events, asks_brought h hinquiry haired hattended (hpublishes.loaded d rfl) turn',
        fun hnone => by cases hnone⟩

end Request

omit [DecidableEq A] in
/-- To read an update leaves whose turn it is. -/
theorem turn_nextUpdate (w : Watch P A V E) (c : Cache P A V E) :
    (w.nextUpdate c).2.1.turn = w.turn := by
  unfold nextUpdate
  simp only
  split <;> rfl

/-- To ask the call leaves whose turn it is. -/
theorem turn_nextAnswer (w : Watch P A V E) (c : Cache P A V E) :
    (w.nextAnswer c).2.1.turn = w.turn := by
  unfold nextAnswer
  split
  · rcases Load.pollRetrying _ _ _ _ c with ⟨⟨remaining, load⟩ | result, c'⟩ <;> rfl
  · rfl

/-- A watch is asked: first the side whose turn it is, and then the other one. -/
theorem asks_next (h : Attuned loads w c) :
    ∃ events, Asks loads True w.turn (w.next c).2.1.turn w c events (w.next c).1 (w.next c).2.1
      (w.next c).2.2 := by
  unfold next
  cases w.turn with
  | updates =>
    obtain ⟨events, hfirst⟩ := asks_nextUpdate (h.turned .request) (.inl ⟨rfl, rfl⟩)
    have hflipped := turn_nextUpdate { w with turn := .request } c
    simp only [Side.other]
    rcases hask : nextUpdate { w with turn := .request } c with ⟨_ | item, w', c'⟩ <;>
      rw [hask] at hfirst hflipped
    · have hturn : (w'.nextAnswer c').2.1.turn = .request := (turn_nextAnswer w' c').trans hflipped
      obtain ⟨events', hsecond, -⟩ := asks_nextAnswer hfirst.attuned .request
      rw [hturn]
      exact ⟨_, (hfirst.trans hsecond .inl).of_turned⟩
    · have hturn : w'.turn = .request := hflipped
      simp only [hturn]
      exact ⟨events, hfirst.of_turned⟩
  | request =>
    obtain ⟨events, hfirst, hclear⟩ := asks_nextAnswer (h.turned .updates) .updates
    have hflipped := turn_nextAnswer { w with turn := .updates } c
    simp only [Side.other]
    rcases hask : nextAnswer { w with turn := .updates } c with ⟨_ | item, w', c'⟩ <;>
      rw [hask] at hfirst hflipped hclear
    · have hturn : (w'.nextUpdate c').2.1.turn = .updates := (turn_nextUpdate w' c').trans hflipped
      have hasks : ∃ events', Asks loads True .updates .updates w' c' events' _ _ _ :=
        asks_nextUpdate hfirst.attuned (.inr (hclear rfl))
      obtain ⟨events', hsecond⟩ := hasks
      rw [hturn]
      exact ⟨_, (hfirst.trans hsecond .inr).of_turned⟩
    · have hturn : w'.turn = .updates := hflipped
      simp only [hturn]
      exact ⟨events, hfirst.of_item.of_turned⟩

end Asks

/-! ## Showing -/

section Shows

/-- What a poll of a watch tells: unless it misses anything, the watch stays up to date, and if
there is nothing to show, there is nothing more to read for its parameters. -/
structure Shows (loads : Multiset (Load P A V E)) (w : Watch P A V E) (c : Cache P A V E)
    (events : List (Event P A V E)) (answer : Answer (Item V E)) (w' : Watch P A V E)
    (c' : Cache P A V E) : Prop where
  trace : c'.env.trace = c.env.trace ++ events
  attuned : Attuned loads w' c'
  params : w'.params = w.params
  last : w'.last = answer.shown w.last
  upToDate : (∀ event ∈ events, event.lags = false) → ∀ {told unread},
    c.env.updates.Awaits w.position unread → UpToDate told unread w.turn w c.flights →
    ∃ left, c'.env.updates.Awaits w'.position left ∧
      UpToDate (told ++ updates events) left w'.turn w' c'.flights ∧
      (answer = .pending → ∀ m ∈ left, m.1 ≠ w.params)

variable {loads : Multiset (Load P A V E)} {w w' w'' : Watch P A V E} {c c' c'' : Cache P A V E}
  {events events' : List (Event P A V E)} {item : Option (Item V E)} {answer : Answer (Item V E)}

/-- What has been asked for is shown, or there is nothing. -/
theorem Asks.shows (h : Asks loads True w.turn w'.turn w c events item w' c')
    (hlast : (w'.showing item).last = answer.shown w.last)
    (hitem : answer = .pending → item = none) :
    Shows loads w c events answer (w'.showing item) c' := by
  obtain ⟨hattended, hkeyed, haddressed, hheard, hholds⟩ := h.attuned
  have hsame : (w'.showing item).params = w'.params ∧ (w'.showing item).position = w'.position ∧
      (w'.showing item).turn = w'.turn ∧ (w'.showing item).inquiry = w'.inquiry := by
    unfold showing
    split <;> exact ⟨rfl, rfl, rfl, rfl⟩
  obtain ⟨hparams, hposition, hturn, hinquiry⟩ := hsame
  have hload : (w'.showing item).load? = w'.load? := by rw [load?, hinquiry, load?]
  refine ⟨h.trace, ⟨?_, hkeyed, ?_, hheard, hholds⟩, hparams.trans h.params, hlast,
    fun hlags _ _ hawaits hupToDate => ?_⟩
  · rw [hload]
    exact hattended
  · rw [hload, hparams]
    exact haddressed
  · obtain ⟨left, hawaits', hupToDate', hleft⟩ := h.upToDate hlags hawaits hupToDate
    rw [hposition, hturn]
    exact ⟨left, hawaits', hupToDate', fun hpending => (hleft (hitem hpending)).2 trivial⟩

/-- A value that is equal to the last one is passed over. -/
theorem Asks.skips {value : V}
    (h : Asks loads True w.turn w'.turn w c events (some (.ok value)) w' c')
    (hlast : w'.last = some value) (h' : Shows loads w' c' events' answer w'' c'') :
    Shows loads w c (events ++ events') answer w'' c'' := by
  refine ⟨?_, h'.attuned, h'.params.trans h.params, ?_, fun hlags _ _ hawaits hupToDate => ?_⟩
  · rw [h'.trace, h.trace, List.append_assoc]
  · rw [h'.last, h.last]
  · obtain ⟨hlags, hlags'⟩ := List.forall_mem_append.mp hlags
    obtain ⟨left, hawaits', hupToDate', -⟩ := h.upToDate hlags hawaits hupToDate
    rw [showing_of_last hlast] at hupToDate'
    obtain ⟨left', hawaits'', hupToDate'', hleft⟩ := h'.upToDate hlags' hawaits' hupToDate'
    rw [List.append_assoc, ← updates_append] at hupToDate''
    rw [h.params] at hleft
    exact ⟨left', hawaits'', hupToDate'', hleft⟩

variable [DecidableEq V]

/-- A watch with enough asks left shows what brings it up to date. -/
theorem shows_showNext (h : Attuned loads w c) {asks : Nat}
    (hasks : c.env.updates.ahead w.position + w.outstanding < asks) :
    ∃ events, Shows loads w c events (w.showNext asks c).1 (w.showNext asks c).2.1
      (w.showNext asks c).2.2 := by
  induction asks generalizing w c with
  | zero => exact absurd hasks (Nat.not_lt_zero _)
  | succ asks ih =>
    obtain ⟨events, hnext⟩ := asks_next h
    unfold showNext
    rcases hask : w.next c with ⟨_ | (failure | value), w', c'⟩ <;> rw [hask] at hnext
    · exact ⟨events, hnext.shows hnext.last fun _ => rfl⟩
    · exact ⟨events, hnext.shows hnext.last fun h => by cases h⟩
    · simp only
      split
      · -- Every value that is passed over leaves less to ask for.
        rename_i hlast
        have hcost : c'.env.updates.ahead w'.position + w'.outstanding + 1 ≤ _ := hnext.cost
        have hattuned : Attuned loads w' c' := hnext.attuned
        obtain ⟨events', hrest⟩ := ih hattuned (by omega)
        exact ⟨events ++ events', hnext.skips hlast hrest⟩
      · exact ⟨events, hnext.shows rfl fun h => by cases h⟩

/-- A poll of a watch shows what brings it up to date. -/
theorem shows_poll (h : Attuned loads w c) :
    ∃ events, Shows loads w c events (w.poll c).1 (w.poll c).2.1 (w.poll c).2.2 := by
  have hle := w.outstanding_le
  exact shows_showNext h (by rw [Channel.ahead]; omega)

end Shows

end Watch

end ReadThrough
