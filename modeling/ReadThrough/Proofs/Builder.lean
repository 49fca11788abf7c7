import Mathlib.Data.List.Induction
import ReadThrough.Builder
/-!
# Proofs: the last setting counts

What a builder has become is a function of the last setting of each kind (`Draft.settled`), and so
is what it builds (`BuildsLast`). The type of the tags can change along the way; `Calls` are the
sequences of calls that have a type, and each of them comes to the same as a list of settings
(`Calls.applyAll_settings`).
-/

namespace ReadThrough

/-! ## The last of a kind -/

namespace Setting

variable {P A V : Type}

/-- What a setting is about. The store and its capacity are one kind. -/
inductive Kind where
  | store
  | tags
  | clock
  | broadcast
  deriving DecidableEq

/-- What a setting is about. -/
def kind : Setting P A V → Kind
  | .capacity _ | .store _ => .store
  | .keyedBy => .tags
  | .clock _ => .clock
  | .broadcastCapacity _ => .broadcast

/-- The capacity that is set. -/
def capacity? : Setting P A V → Option Nat
  | .capacity n => some n
  | .broadcastCapacity _ | .keyedBy | .clock _ | .store _ => none

/-- The capacity of the channels that is set. -/
def broadcast? : Setting P A V → Option Nat
  | .broadcastCapacity n => some n
  | .capacity _ | .keyedBy | .clock _ | .store _ => none

/-- The clock that is set. -/
def clock? : Setting P A V → Option Clock
  | .clock chosen => some chosen
  | .capacity _ | .broadcastCapacity _ | .keyedBy | .store _ => none

/-- The store that is set. -/
def store? : Setting P A V → Option (Store (Key P A) V)
  | .store chosen => some chosen
  | .capacity _ | .broadcastCapacity _ | .keyedBy | .clock _ => none

/-- The last of the settings that `pick` picks. -/
def last {α : Type} (pick : Setting P A V → Option α) (settings : List (Setting P A V)) :
    Option α :=
  (settings.filterMap pick).getLast?

@[simp] theorem last_nil {α : Type} (pick : Setting P A V → Option α) : last pick [] = none := rfl

@[simp] theorem last_concat {α : Type} (pick : Setting P A V → Option α)
    (settings : List (Setting P A V)) (setting : Setting P A V) :
    last pick (settings ++ [setting]) = (pick setting).or (last pick settings) := by
  unfold last
  rw [List.filterMap_append, List.getLast?_append]
  cases h : pick setting <;> simp [h]

/-- Only settings of the store set a capacity. -/
theorem capacity?_eq_none {setting : Setting P A V} (h : setting.kind ≠ .store) :
    setting.capacity? = none := by
  cases setting with
  | capacity | store => exact absurd rfl h
  | keyedBy | broadcastCapacity | clock => rfl

/-- Only settings of the store set a store. -/
theorem store?_eq_none {setting : Setting P A V} (h : setting.kind ≠ .store) :
    setting.store? = none := by
  cases setting with
  | capacity | store => exact absurd rfl h
  | keyedBy | broadcastCapacity | clock => rfl

/-- Only settings of the clock set a clock. -/
theorem clock?_eq_none {setting : Setting P A V} (h : setting.kind ≠ .clock) :
    setting.clock? = none := by
  cases setting with
  | clock => exact absurd rfl h
  | keyedBy | broadcastCapacity | capacity | store => rfl

/-- Only settings of the channels set their capacity. -/
theorem broadcast?_eq_none {setting : Setting P A V} (h : setting.kind ≠ .broadcast) :
    setting.broadcast? = none := by
  cases setting with
  | broadcastCapacity => exact absurd rfl h
  | keyedBy | clock | capacity | store => rfl

/-! ### Settings that make no difference -/

section Pick

variable {α : Type} {pick : Setting P A V → Option α} {kind : Kind}
  (hpick : ∀ {setting}, setting.kind ≠ kind → pick setting = none)

include hpick

/-- The settings of the tags can be left out where the last setting of another kind is looked for.
-/
theorem last_filter_tags (hkind : Kind.tags ≠ kind) (settings : List (Setting P A V)) :
    last pick (settings.filter (·.kind ≠ .tags)) = last pick settings := by
  unfold last
  rw [List.filterMap_filter]
  congr 2
  funext setting
  by_cases htags : setting.kind = .tags
  · rw [hpick (htags.symm ▸ hkind)]
    exact ite_self none
  · exact if_pos (decide_eq_true htags)

/-- Neighbouring settings of different kinds can change places. -/
theorem last_comm {a b : Setting P A V} (hkind : a.kind ≠ b.kind)
    (before after : List (Setting P A V)) :
    last pick (before ++ a :: b :: after) = last pick (before ++ b :: a :: after) := by
  have hpair : [a, b].filterMap pick = [b, a].filterMap pick := by
    by_cases ha : a.kind = kind
    · have hb : pick b = none := hpick fun hb => hkind (ha.trans hb.symm)
      simp only [List.filterMap_cons, List.filterMap_nil, hb]
    · simp only [List.filterMap_cons, List.filterMap_nil, hpick ha]
  have hafter : (a :: b :: after).filterMap pick = (b :: a :: after).filterMap pick :=
    calc (a :: b :: after).filterMap pick
      _ = ([a, b] ++ after).filterMap pick := rfl
      _ = [a, b].filterMap pick ++ after.filterMap pick := List.filterMap_append
      _ = [b, a].filterMap pick ++ after.filterMap pick := by rw [hpair]
      _ = (b :: a :: after).filterMap pick := List.filterMap_append.symm
  unfold last
  rw [List.filterMap_append, List.filterMap_append, hafter]

end Pick

end Setting

open Setting (last last_concat)

/-! ## What the settings come to -/

section Settled

variable {P A V : Type}

/-- What is built from settings, by the last one of each kind. -/
structure BuildsLast (clock : Clock) (settings : List (Setting P A V))
    (built : Except SetupError (Setup (Store (Key P A) V))) : Prop where
  noCache : last Setting.store? settings = none → last Setting.capacity? settings = some 0 →
    built = .error (.zeroCapacity "cache")
  noBroadcast :
    ¬ (last Setting.store? settings = none ∧ last Setting.capacity? settings = some 0) →
      last Setting.broadcast? settings = some 0 → built = .error (.zeroCapacity "broadcast")
  ok :
    ¬ (last Setting.store? settings = none ∧ last Setting.capacity? settings = some 0) →
      last Setting.broadcast? settings ≠ some 0 →
      ∃ setup, built = .ok setup ∧
        setup.clock = (last Setting.clock? settings).getD clock ∧
        setup.broadcastCapacity = (last Setting.broadcast? settings).getD 64 ∧
        (∀ store, last Setting.store? settings = some store → setup.store = store) ∧
        (last Setting.store? settings = none →
          ∃ hpos, setup.store =
            .bounded (Bounded.ofCapacity ((last Setting.capacity? settings).getD 1) hpos))

namespace Draft

variable {clock : Clock} {settings : List (Setting P A V)} {d : Draft P A V}

/-- The draft with the last setting of each kind. -/
def settled (clock : Clock) (settings : List (Setting P A V)) : Draft P A V :=
  match last Setting.store? settings with
  | none =>
    .standard
      { store := Bounded.create ((last Setting.capacity? settings).getD 1)
        clock := (last Setting.clock? settings).getD clock
        broadcastCapacity := (last Setting.broadcast? settings).getD 64 }
  | some store =>
    .custom
      { store := .ok store
        clock := (last Setting.clock? settings).getD clock
        broadcastCapacity := (last Setting.broadcast? settings).getD 64 }

/-- The empty store of a capacity is rebuilt as it is, and a missing one stays missing. -/
theorem map_create {K L : Type} (n : Nat) :
    ((Bounded.create n : Except SetupError (Bounded K V)).map
      fun s => (Bounded.ofCapacity s.capacity s.capacity_pos : Bounded L V)) =
      Bounded.create n := by
  unfold Bounded.create
  split <;> rfl

/-- A setting that applies to the draft of some settings makes it the draft of one setting more. -/
theorem apply_settled {setting : Setting P A V}
    (h : (settled clock settings).apply setting = some d) :
    d = settled clock (settings ++ [setting]) := by
  unfold settled at h ⊢
  cases hstore : last Setting.store? settings with
  | none =>
    rw [hstore] at h
    cases setting with
    | keyedBy =>
      cases h
      simp only [last_concat, hstore, Setting.store?, Setting.capacity?, Setting.clock?,
        Setting.broadcast?, Option.none_or, Builder.keyedBy, map_create]
    | capacity | broadcastCapacity | clock | store =>
      cases h
      simp only [last_concat, hstore, Setting.store?, Setting.capacity?, Setting.clock?,
        Setting.broadcast?, Option.none_or, Option.some_or, Option.getD_some, Builder.capacity,
        Builder.withBroadcastCapacity, Builder.withClock, Builder.withStore]
  | some store =>
    rw [hstore] at h
    cases setting with
    | capacity | keyedBy => cases h
    | broadcastCapacity | clock | store =>
      cases h
      simp only [last_concat, hstore, Setting.store?, Setting.clock?, Setting.broadcast?,
        Option.none_or, Option.some_or, Option.getD_some, Builder.withBroadcastCapacity,
        Builder.withClock, Builder.withStore]

/-- Settings are applied one after the other. -/
theorem applyAll_concat {setting : Setting P A V} :
    d.applyAll (settings ++ [setting]) = (d.applyAll settings).bind (·.apply setting) := by
  unfold applyAll
  rw [List.foldlM_append]
  simp

/-- However the settings came, only the last one of each kind is left. -/
theorem eq_settled (h : (create clock).applyAll settings = some d) :
    d = settled clock settings := by
  induction settings using List.reverseRecOn generalizing d with
  | nil =>
    cases h
    rfl
  | append_singleton settings setting ih =>
    rw [applyAll_concat, Option.bind_eq_some_iff] at h
    obtain ⟨before, hbefore, hd⟩ := h
    rw [ih hbefore] at hd
    exact apply_settled hd

/-- Only a zero that was set is a zero. -/
theorem getD_eq_zero_iff {set? : Option Nat} {standard : Nat} (hpos : 0 < standard) :
    set?.getD standard = 0 ↔ set? = some 0 := by
  cases set? with
  | none => simp [Nat.ne_of_gt hpos]
  | some n => simp

/-- A draft with the bounded store builds it, if neither its capacity nor that of the channels is
zero. -/
theorem build_standard (n broadcastCapacity : Nat) (clock : Clock) :
    (standard { store := Bounded.create n, clock, broadcastCapacity } : Draft P A V).build =
      if hpos : 0 < n then
        if broadcastCapacity = 0 then .error (.zeroCapacity "broadcast")
        else .ok { store := .bounded (Bounded.ofCapacity n hpos), clock, broadcastCapacity }
      else .error (.zeroCapacity "cache") := by
  unfold build Builder.build Bounded.create
  by_cases hpos : 0 < n
  · simp only [dif_pos hpos]
    by_cases hzero : broadcastCapacity = 0
    · rw [if_pos hzero, if_pos hzero]
      rfl
    · rw [if_neg hzero, if_neg hzero]
      rfl
  · simp only [dif_neg hpos]
    rfl

/-- A draft with a chosen store builds it, if the capacity of the channels is not zero. -/
theorem build_custom (store : Store (Key P A) V) (broadcastCapacity : Nat) (clock : Clock) :
    (custom { store := .ok store, clock, broadcastCapacity } : Draft P A V).build =
      if broadcastCapacity = 0 then .error (.zeroCapacity "broadcast")
      else .ok { store, clock, broadcastCapacity } := rfl

/-- The draft with the last setting of each kind builds what the last settings say. -/
theorem build_settled (clock : Clock) (settings : List (Setting P A V)) :
    BuildsLast clock settings (settled clock settings).build := by
  have hbroadcast : (last Setting.broadcast? settings).getD 64 = 0 ↔
      last Setting.broadcast? settings = some 0 := getD_eq_zero_iff (by decide)
  have hcapacity : (last Setting.capacity? settings).getD 1 = 0 ↔
      last Setting.capacity? settings = some 0 := getD_eq_zero_iff Nat.one_pos
  unfold settled
  cases hstore : last Setting.store? settings with
  | none =>
    simp only [build_standard]
    have hpos (hset : ¬ (last Setting.store? settings = none ∧
        last Setting.capacity? settings = some 0)) :
        0 < (last Setting.capacity? settings).getD 1 :=
      Nat.pos_of_ne_zero fun hzero => hset ⟨hstore, hcapacity.mp hzero⟩
    refine ⟨fun _ hzero => ?_, fun hset hzero => ?_, fun hset hnonzero => ?_⟩
    · rw [dif_neg (by rw [hcapacity.mpr hzero]; exact Nat.lt_irrefl 0)]
    · rw [dif_pos (hpos hset), if_pos (hbroadcast.mpr hzero)]
    · rw [dif_pos (hpos hset), if_neg (hbroadcast.not.mpr hnonzero)]
      refine ⟨_, rfl, rfl, rfl, fun store h => ?_, fun _ => ⟨hpos hset, rfl⟩⟩
      rw [hstore] at h
      cases h
  | some store =>
    simp only [build_custom]
    refine ⟨fun hnone => ?_, fun _ hzero => ?_, fun _ hnonzero => ?_⟩
    · rw [hstore] at hnone
      cases hnone
    · rw [if_pos (hbroadcast.mpr hzero)]
    · rw [if_neg (hbroadcast.not.mpr hnonzero)]
      refine ⟨_, rfl, rfl, rfl, fun chosen h => ?_, fun hnone => ?_⟩
      · rw [hstore] at h
        exact Option.some.inj h
      · rw [hstore] at hnone
        cases hnone

/-! ## Settings that make no difference -/

/-- The draft depends on the settings only through the last of each kind. -/
theorem settled_congr {settings' : List (Setting P A V)}
    (hstore : last Setting.store? settings = last Setting.store? settings')
    (hcapacity : last Setting.capacity? settings = last Setting.capacity? settings')
    (hclock : last Setting.clock? settings = last Setting.clock? settings')
    (hbroadcast : last Setting.broadcast? settings = last Setting.broadcast? settings') :
    settled clock settings = settled clock settings' := by
  unfold settled
  rw [hstore, hcapacity, hclock, hbroadcast]

/-- The type of the tags makes no difference to what has been settled. -/
theorem settled_filter_tags (clock : Clock) (settings : List (Setting P A V)) :
    settled clock (settings.filter (·.kind ≠ .tags)) = settled clock settings := by
  apply settled_congr
  · exact Setting.last_filter_tags Setting.store?_eq_none nofun settings
  · exact Setting.last_filter_tags Setting.capacity?_eq_none nofun settings
  · exact Setting.last_filter_tags Setting.clock?_eq_none nofun settings
  · exact Setting.last_filter_tags Setting.broadcast?_eq_none nofun settings

/-- Settings of two kinds come to the same in both orders. -/
theorem settled_comm (clock : Clock) {a b : Setting P A V} (hkind : a.kind ≠ b.kind)
    (before after : List (Setting P A V)) :
    settled clock (before ++ a :: b :: after) = settled clock (before ++ b :: a :: after) := by
  apply settled_congr
  · exact Setting.last_comm Setting.store?_eq_none hkind before after
  · exact Setting.last_comm Setting.capacity?_eq_none hkind before after
  · exact Setting.last_comm Setting.clock?_eq_none hkind before after
  · exact Setting.last_comm Setting.broadcast?_eq_none hkind before after

/-- The calls that set the type of the tags can be left out. -/
theorem applyAll_filter_tags (h : (create clock).applyAll settings = some d) :
    (create clock).applyAll (settings.filter (·.kind ≠ .tags)) = some d := by
  induction settings using List.reverseRecOn generalizing d with
  | nil => exact h
  | append_singleton settings setting ih =>
    have hd : d = settled clock (settings ++ [setting]) := eq_settled h
    rw [applyAll_concat, Option.bind_eq_some_iff] at h
    obtain ⟨before, hbefore, happly⟩ := h
    by_cases hkind : setting.kind = .tags
    · have hfilter : (settings ++ [setting]).filter (·.kind ≠ .tags) =
          settings.filter (·.kind ≠ .tags) := by
        simp [List.filter_append, hkind]
      rw [← settled_filter_tags, hfilter, settled_filter_tags] at hd
      rw [hfilter, ih hbefore, hd, eq_settled hbefore]
    · have hfilter : (settings ++ [setting]).filter (·.kind ≠ .tags) =
          settings.filter (·.kind ≠ .tags) ++ [setting] := by
        simp [List.filter_append, hkind]
      rw [hfilter, applyAll_concat, ih hbefore]
      exact happly

end Draft

end Settled

/-! ## Calls that have a type -/

/-- The calls on a builder that have a type: the type of the tags so far, and whether a store has
been chosen. -/
inductive Calls (P V : Type) : Type → Bool → Type 1 where
  | create : Calls P V Unit false
  | capacity {A : Type} (calls : Calls P V A false) (n : Nat) : Calls P V A false
  | keyedBy {A : Type} (calls : Calls P V A false) (B : Type) : Calls P V B false
  | broadcastCapacity {A : Type} {chosen : Bool} (calls : Calls P V A chosen) (n : Nat) :
      Calls P V A chosen
  | clock {A : Type} {chosen : Bool} (calls : Calls P V A chosen) (clock : Clock) :
      Calls P V A chosen
  | store {A : Type} {chosen : Bool} (calls : Calls P V A chosen) (store : Store (Key P A) V) :
      Calls P V A true

namespace Calls

variable {P A B V : Type} {chosen : Bool}

/-- The stores of a builder. -/
abbrev Held (P A V : Type) : Bool → Type
  | false => Bounded (Key P A) V
  | true => Store (Key P A) V

/-- The builder that some calls leave. -/
def builder (start : Clock) : {A : Type} → {chosen : Bool} → Calls P V A chosen →
    Builder (Held P A V chosen)
  | _, _, .create => Builder.standard start
  | _, _, .capacity calls n => Builder.capacity (calls.builder start) n
  | _, _, .keyedBy calls _ => Builder.keyedBy (calls.builder start)
  | _, _, .broadcastCapacity calls n => (calls.builder start).withBroadcastCapacity n
  | _, _, .clock calls given => (calls.builder start).withClock given
  | _, _, .store calls given => (calls.builder start).withStore given

/-- A builder as a draft. -/
def drafted : (chosen : Bool) → Builder (Held P A V chosen) → Draft P A V
  | false, b => .standard b
  | true, b => .custom b

/-- What some calls come to. -/
def draft (start : Clock) (calls : Calls P V A chosen) : Draft P A V :=
  drafted chosen (calls.builder start)

/-- The settings that some calls make before a store is chosen, for another type of tags. -/
def early (B : Type) : {A : Type} → Calls P V A false → List (Setting P B V)
  | _, .create => []
  | _, .capacity calls n => calls.early B ++ [.capacity n]
  | _, .keyedBy calls _ => calls.early B ++ [.keyedBy]
  | _, .broadcastCapacity calls n => calls.early B ++ [.broadcastCapacity n]
  | _, .clock calls given => calls.early B ++ [.clock given]

/-- The settings that some calls make. -/
def settings : {A : Type} → {chosen : Bool} → Calls P V A chosen → List (Setting P A V)
  | _, _, .create => []
  | _, _, .capacity calls n => calls.settings ++ [.capacity n]
  | _, _, .keyedBy calls B => calls.early B ++ [.keyedBy]
  | _, _, .broadcastCapacity calls n => calls.settings ++ [.broadcastCapacity n]
  | _, _, .clock calls given => calls.settings ++ [.clock given]
  | _, _, .store calls given => calls.settings ++ [.store given]

/-- Choosing the tags again is as good as choosing them once. -/
theorem keyedBy_keyedBy {C : Type} (b : Builder (Bounded (Key P A) V)) :
    (b.keyedBy (B := B)).keyedBy = (b.keyedBy : Builder (Bounded (Key P C) V)) := by
  obtain ⟨store, clock, broadcastCapacity⟩ := b
  cases store <;> rfl

/-- Choosing the tags and setting the capacity can change places. -/
theorem keyedBy_capacity (b : Builder (Bounded (Key P A) V)) (n : Nat) :
    (b.capacity n).keyedBy = (b.keyedBy : Builder (Bounded (Key P B) V)).capacity n := by
  simp only [Builder.keyedBy, Builder.capacity, Draft.map_create]

/-- Calls whose type of tags is set at the end come to the same as settings for that type. -/
theorem applyAll_early (start : Clock) (B : Type) : {A : Type} → (calls : Calls P V A false) →
    (Draft.create start).applyAll (calls.early B) =
      some (.standard (Builder.keyedBy (calls.builder start)))
  | _, .create => by
    rw [early, builder]
    rfl
  | _, .capacity calls n => by
    rw [early, Draft.applyAll_concat, applyAll_early start B calls, builder, keyedBy_capacity]
    rfl
  | _, .keyedBy calls _ => by
    rw [early, Draft.applyAll_concat, applyAll_early start B calls, builder]
    show some (Draft.standard _) = some (Draft.standard _)
    rw [keyedBy_keyedBy, keyedBy_keyedBy]
  | _, .broadcastCapacity calls n => by
    rw [early, Draft.applyAll_concat, applyAll_early start B calls]
    rfl
  | _, .clock calls given => by
    rw [early, Draft.applyAll_concat, applyAll_early start B calls]
    rfl

/-- Calls that have a type are settings that a draft accepts. -/
theorem applyAll_settings (start : Clock) (calls : Calls P V A chosen) :
    (Draft.create start).applyAll calls.settings = some (calls.draft start) := by
  induction calls with
  | create => rfl
  | capacity calls n ih =>
    rw [settings, Draft.applyAll_concat, ih]
    rfl
  | keyedBy calls B ih =>
    rw [settings, Draft.applyAll_concat, applyAll_early start B calls]
    show some (Draft.standard _) = some (Draft.standard _)
    rw [builder, keyedBy_keyedBy]
  | @broadcastCapacity A chosen calls n ih =>
    rw [settings, Draft.applyAll_concat, ih]
    cases chosen <;> rfl
  | @clock A chosen calls given ih =>
    rw [settings, Draft.applyAll_concat, ih]
    cases chosen <;> rfl
  | @store A chosen calls given ih =>
    rw [settings, Draft.applyAll_concat, ih]
    cases chosen <;> rfl

end Calls

/-! ## Every sequence of calls -/

/-- Every sequence of calls builds what the last one of each kind says: no zero is lost, none is
reported that was replaced, setting the type of the tags changes nothing else, and calls of
different kinds come to the same in both orders. -/
theorem build_last_setting (P V : Type) (start : Clock) :
    (∀ {A : Type} {chosen : Bool} (calls : Calls P V A chosen),
      (Draft.create start).applyAll calls.settings = some (calls.draft start) ∧
        BuildsLast start calls.settings (calls.draft start).build) ∧
    (∀ {A : Type} {settings : List (Setting P A V)} {d : Draft P A V},
      (Draft.create start).applyAll settings = some d →
        BuildsLast start settings d.build ∧
          (Draft.create start).applyAll (settings.filter (·.kind ≠ .tags)) = some d) ∧
    ∀ {A : Type} {a b : Setting P A V} {before after : List (Setting P A V)}
      {d d' : Draft P A V}, a.kind ≠ b.kind →
      (Draft.create start).applyAll (before ++ a :: b :: after) = some d →
      (Draft.create start).applyAll (before ++ b :: a :: after) = some d' → d = d' := by
  have hbuilds {A : Type} {settings : List (Setting P A V)} {d : Draft P A V}
      (h : (Draft.create start).applyAll settings = some d) :
      BuildsLast start settings d.build := by
    rw [Draft.eq_settled h]
    exact Draft.build_settled start settings
  refine ⟨fun calls => ?_, fun h => ⟨hbuilds h, Draft.applyAll_filter_tags h⟩, ?_⟩
  · have hdraft := calls.applyAll_settings start
    exact ⟨hdraft, hbuilds hdraft⟩
  · intro A a b before after d d' hkind hd hd'
    rw [Draft.eq_settled hd, Draft.eq_settled hd', Draft.settled_comm start hkind]

/-- A zero is remembered through a change of the tags, and reported before that of the channels. -/
theorem build_last_setting_zero :
    let settings : List (Setting String Nat Nat) :=
      [.broadcastCapacity 3] ++ .capacity 0 :: .keyedBy :: [.broadcastCapacity 0]
    let d := Draft.settled .epoch settings
    Setting.Kind.store ≠ .tags ∧
      (Draft.create .epoch).applyAll settings = some d ∧
      d.build = .error (.zeroCapacity "cache") ∧
      BuildsLast .epoch settings d.build ∧
      (Draft.create .epoch).applyAll
        ([.broadcastCapacity 3, .capacity 0, .broadcastCapacity 0] :
          List (Setting String Nat Nat)) = some d ∧
      ∀ d', (Draft.create .epoch).applyAll
        ([.broadcastCapacity 3] ++ .keyedBy :: .capacity 0 :: [.broadcastCapacity 0]) = some d' →
          d = d' := by
  intro settings d
  have haccepted : (Draft.create .epoch).applyAll settings = some d := rfl
  obtain ⟨-, hlists, hcomm⟩ := build_last_setting String Nat .epoch
  obtain ⟨hbuilds, herased⟩ := hlists haccepted
  exact ⟨nofun, haccepted, rfl, hbuilds, herased, fun d' => hcomm nofun haccepted⟩

end ReadThrough
