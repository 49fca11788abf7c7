import ReadThrough.Proofs.Session.SideBySide
/-!
# Proofs: sessions with one store read less

A read of the store leaves it as it is, but for the record that one of the stores keeps of its use
(`Store.Spares`). Environments that differ in how often the store was read, in what was told about
it and in how often an acceptance test was made (`Environment.Spares`) stay as close as they are,
whatever a session does to both of them (`Environment.accord_spares`).
-/

namespace ReadThrough

variable {P A V E : Type}

/-! ## Stores -/

namespace Store

variable {K : Type} [DecidableEq K]

/-- In stores that are related the same is found, and they stay related when the same is done to
both of them. -/
structure Lockstep (S : Store K V → Store K V → Prop) : Prop where
  readable : ∀ {s s'} (gates : Gates), S s s' → s'.readable gates = s.readable gates
  writable : ∀ {s s'} (gates : Gates), S s s' → s'.writable gates = s.writable gates
  refusal : ∀ {s s'}, S s s' → s'.refusal? = s.refusal?
  get : ∀ {s s'} (key : K), S s s' → Agree S (s.get key) (s'.get key)
  put : ∀ {s s'} (key : K) (entry : Entry V), S s s' →
    (s'.put key entry).2 = (s.put key entry).2 ∧ S (s.put key entry).1 (s'.put key entry).1
  clear : ∀ {s s'}, S s s' → S s.clear s'.clear
  ask : ∀ {s s'} (query : Query K), S s s' → S (s.ask query).2 (s'.ask query).2

/-- The same store stays the same whatever is done. -/
theorem lockstep_eq : Lockstep fun s s' : Store K V => s' = s where
  readable := by
    rintro s _ gates rfl
    rfl
  writable := by
    rintro s _ gates rfl
    rfl
  refusal := by
    rintro s _ rfl
    rfl
  get := by
    rintro s _ key rfl
    exact ⟨rfl, rfl⟩
  put := by
    rintro s _ key entry rfl
    exact ⟨rfl, rfl⟩
  clear := by
    rintro s _ rfl
    rfl
  ask := by
    rintro s _ query rfl
    rfl

/-- The second store is the first, and was spared one read of the key. -/
inductive Spares (key : K) : Store K V → Store K V → Prop where
  /-- The store keeps no record of it. -/
  | same (s : Store K V) : Spares key s s
  | recorded (data : Table K (Entry V)) (before after : List (Operation K V)) :
      Spares key (.recorded ⟨data, before ++ .get key :: after⟩) (.recorded ⟨data, before ++ after⟩)

omit [DecidableEq K] in
/-- One more operation is recorded in both. -/
theorem spares_recorded (key : K) (data : Table K (Entry V)) (before after : List (Operation K V))
    (op : Operation K V) :
    Spares key (.recorded ⟨data, before ++ .get key :: after ++ [op]⟩)
      (.recorded ⟨data, before ++ after ++ [op]⟩) := by
  rw [List.append_assoc, List.append_assoc, List.cons_append]
  exact .recorded data before (after ++ [op])

/-- A store is spared the read that another one has made. -/
theorem spares_get (s : Store K V) (key : K) : Spares key (s.get key).2 s := by
  cases s with
  | bounded s => exact .same _
  | gated s => exact .same _
  | recorded s =>
    have hspares : Spares key (.recorded ⟨s.data, s.record ++ [.get key]⟩) _ :=
      .recorded s.data s.record []
    rw [List.append_nil] at hspares
    exact hspares

/-- Stores that differ by one read find the same and stay so. -/
theorem lockstep_spares (key : K) : Lockstep (Spares key : Store K V → Store K V → Prop) where
  readable gates h := by cases h <;> rfl
  writable gates h := by cases h <;> rfl
  refusal h := by cases h <;> rfl
  get asked h := by
    cases h with
    | same s => exact ⟨rfl, .same _⟩
    | recorded data before after =>
      exact ⟨rfl, spares_recorded key data before after (.get asked)⟩
  put written entry h := by
    cases h with
    | same s => exact ⟨rfl, .same _⟩
    | recorded data before after =>
      exact ⟨rfl, spares_recorded key (data.insert written entry) before after
        (.put written entry)⟩
  clear h := by
    cases h with
    | same s => exact .same _
    | recorded data before after => exact spares_recorded key Table.empty before after .clear
  ask query h := by
    cases h with
    | same s => exact .same _
    | recorded data before after =>
      cases query with
      | forget => exact .same _
      | _ => exact .recorded data before after

/-- No read has to wait. -/
def Prompt (s : Store K V) : Prop := ∀ gates, s.readable gates = true

namespace Lockstep

variable {S : Store K V → Store K V → Prop}

/-- Reads that need not wait before need not wait later. -/
theorem prompt (hS : Lockstep S) : Lockstep fun s s' => S s s' ∧ s.Prompt where
  readable gates h := hS.readable gates h.1
  writable gates h := hS.writable gates h.1
  refusal h := hS.refusal h.1
  get key h := (hS.get key h.1).imp id fun hget => ⟨hget, by
    obtain ⟨-, hprompt⟩ := h
    rename_i s s'
    cases s <;> exact hprompt⟩
  put key entry h := (hS.put key entry h.1).imp id fun hput => ⟨hput, by
    obtain ⟨-, hprompt⟩ := h
    rename_i s s'
    cases s <;> exact hprompt⟩
  clear h := ⟨hS.clear h.1, by
    obtain ⟨-, hprompt⟩ := h
    rename_i s s'
    cases s <;> exact hprompt⟩
  ask query h := ⟨hS.ask query h.1, by
    obtain ⟨-, hprompt⟩ := h
    rename_i s s'
    cases s <;> cases query <;> exact hprompt⟩

end Lockstep

end Store

/-! ## Clocks -/

namespace Clock

/-- What holds of a clock, whatever is done to it. -/
structure Kept (C : Clock → Prop) : Prop where
  read : ∀ {c}, C c → C c.read.2
  advance : ∀ {c} (d : Duration), C c → C (c.advance d)
  set : ∀ {c} (now : Stamp), C c → C (c.set now)

/-- Nothing needs to hold of a clock. -/
theorem kept_any : Kept fun _ => True :=
  ⟨fun _ => trivial, fun _ _ => trivial, fun _ _ => trivial⟩

/-- A reading leaves the clock as it is. -/
def Still (c : Clock) : Prop := c.read.2 = c

/-- A counting clock is still exactly if it counts by nothing. -/
theorem still_counter {next step : Stamp} : (counter next step).Still ↔ step = 0 := by
  unfold Still read
  simp

/-- A clock that is still stays so whatever is done to it. -/
theorem kept_still : Kept Still where
  read h := by
    have hsame := h
    unfold Still at hsame
    rwa [hsame]
  advance {c} d h := by
    cases c with
    | counter next step => exact still_counter.mpr (still_counter.mp h)
    | instant nanos => rfl
    | frozen reading => rfl
  set {c} now h := by
    cases c with
    | counter next step => exact still_counter.mpr (still_counter.mp h)
    | instant nanos => rfl
    | frozen reading => rfl

end Clock

/-! ## Environments -/

/-- The first trace is the second with something in between. -/
def Inserted (mid events events' : List (Event P A V E)) : Prop :=
  ∃ before after, events = before ++ mid ++ after ∧ events' = before ++ after

/-- What was inserted stays so when the same is told afterwards. -/
theorem Inserted.append {mid events events' : List (Event P A V E)}
    (h : Inserted mid events events') (later : List (Event P A V E)) :
    Inserted mid (events ++ later) (events' ++ later) := by
  obtain ⟨before, after, rfl, rfl⟩ := h
  exact ⟨before, after ++ later, by simp, by simp⟩

/-- What was inserted stays so behind what was told before. -/
theorem Inserted.prepend {mid events events' : List (Event P A V E)}
    (h : Inserted mid events events') (earlier : List (Event P A V E)) :
    Inserted mid (earlier ++ events) (earlier ++ events') := by
  obtain ⟨before, after, rfl, rfl⟩ := h
  exact ⟨earlier ++ before, after, by simp, by simp⟩

/-- Two traces with nothing inserted are the same. -/
theorem inserted_nil {events events' : List (Event P A V E)} :
    Inserted [] events events' ↔ events' = events := by
  constructor
  · rintro ⟨before, after, rfl, rfl⟩
    rw [List.append_nil]
  · rintro rfl
    exact ⟨events', [], by simp, by simp⟩

namespace Environment

/-- The second environment differs from the first in the store, between which `S` holds, in how
often the test was made and in that `mid` was not told. -/
def Spares (S : Store (Key P A) V → Store (Key P A) V → Prop) (C : Clock → Prop)
    (mid : List (Event P A V E)) (env env' : Environment P A V E) : Prop :=
  ∃ asked store trace, env' = { env with asked := asked, store := store, trace := trace } ∧
    S env.store store ∧ C env.clock ∧ Inserted mid env.trace trace

variable {S : Store (Key P A) V → Store (Key P A) V → Prop} {C : Clock → Prop}
  {mid : List (Event P A V E)}

/-- The same event may be noted in both environments. -/
theorem Spares.note {env env' : Environment P A V E} (event : Event P A V E)
    (h : Spares S C mid env env') : Spares S C mid (env.note event) (env'.note event) := by
  obtain ⟨asked, store, trace, rfl, hstore, hclock, htrace⟩ := h
  exact ⟨asked, store, _, rfl, hstore, hclock, htrace.append [event]⟩

/-- Environments of which one is spared a read stay so whatever a session does to both. -/
theorem accord_spares [DecidableEq P] [DecidableEq A] (hS : Store.Lockstep S)
    (hC : Clock.Kept C) : Accord (Spares S C mid) where
  gates := by
    rintro env _ ⟨asked, store, trace, rfl, -⟩
    rfl
  called := by
    rintro env _ ⟨asked, store, trace, rfl, -⟩
    rfl
  cancelled := by
    rintro env _ ⟨asked, store, trace, rfl, -⟩
    rfl
  updates := by
    rintro env _ ⟨asked, store, trace, rfl, -⟩
    rfl
  errors := by
    rintro env _ ⟨asked, store, trace, rfl, -⟩
    rfl
  readable := by
    rintro env _ ⟨asked, store, trace, rfl, hstore, -⟩
    exact hS.readable env.gates hstore
  writable := by
    rintro env _ ⟨asked, store, trace, rfl, hstore, -⟩
    exact hS.writable env.gates hstore
  refusal := by
    rintro env _ ⟨asked, store, trace, rfl, hstore, -⟩
    exact hS.refusal hstore
  note event _ h := h.note event
  advance := by
    rintro env _ d ⟨asked, store, trace, rfl, hstore, hclock, htrace⟩
    exact ⟨asked, store, trace, rfl, hstore, hC.advance d hclock, htrace⟩
  cancel := by
    rintro env _ ⟨asked, store, trace, rfl, hstore, hclock, htrace⟩
    exact ⟨asked, store, trace, rfl, hstore, hclock, htrace⟩
  judge := by
    rintro env _ ⟨asked, store, trace, rfl, hstore, hclock, htrace⟩
    exact ⟨asked + 1, store, trace, rfl, hstore, hclock, htrace⟩
  callSource := by
    rintro env _ key ⟨asked, store, trace, rfl, hstore, hclock, htrace⟩
    exact ⟨rfl, asked, store, _, rfl, hstore, hclock, htrace.append _⟩
  readClock := by
    rintro env _ ⟨asked, store, trace, rfl, hstore, hclock, htrace⟩
    exact ⟨rfl, asked, store, _, rfl, hstore, hC.read hclock, htrace.append _⟩
  readStore := by
    rintro env _ key ⟨asked, store, trace, rfl, hstore, hclock, htrace⟩
    obtain ⟨hfound, hget⟩ := hS.get key hstore
    refine ⟨hfound, asked, (store.get key).2, trace ++ [.storeRead key (store.get key).1], rfl,
      hget, hclock, ?_⟩
    rw [hfound]
    exact htrace.append _
  writeStore := by
    rintro env _ key entry ⟨asked, store, trace, rfl, hstore, hclock, htrace⟩
    obtain ⟨hgone, hput⟩ := hS.put key entry hstore
    exact related_writeStore (fun event _ h => Spares.note event h) hgone
      ⟨asked, _, trace, rfl, hput, hclock, htrace⟩
  clearStore := by
    rintro env _ ⟨asked, store, trace, rfl, hstore, hclock, htrace⟩
    exact ⟨asked, _, _, rfl, hS.clear hstore, hclock, htrace.append [.cleared]⟩
  publishUpdate := by
    rintro env _ params delivery ⟨asked, store, trace, rfl, hstore, hclock, htrace⟩
    unfold publishUpdate
    dsimp only
    split
    · exact ⟨asked, store, _, rfl, hstore, hclock, htrace.append _⟩
    · exact ⟨asked, store, _, rfl, hstore, hclock, (htrace.append _).append _⟩
  publishFailure := by
    rintro env _ params failure ⟨asked, store, trace, rfl, hstore, hclock, htrace⟩
    unfold publishFailure
    dsimp only
    split
    · exact ⟨asked, store, _, rfl, hstore, hclock, htrace.append _⟩
    · exact ⟨asked, store, _, rfl, hstore, hclock, (htrace.append _).append _⟩
  withUpdates := by
    rintro env _ channel ⟨asked, store, trace, rfl, hstore, hclock, htrace⟩
    exact ⟨asked, store, trace, rfl, hstore, hclock, htrace⟩
  withErrors := by
    rintro env _ channel ⟨asked, store, trace, rfl, hstore, hclock, htrace⟩
    exact ⟨asked, store, trace, rfl, hstore, hclock, htrace⟩
  withGates := by
    rintro env _ gates ⟨asked, store, trace, rfl, hstore, hclock, htrace⟩
    exact ⟨asked, store, trace, rfl, hstore, hclock, htrace⟩
  setTime := by
    rintro env _ now ⟨asked, store, trace, rfl, hstore, hclock, htrace⟩
    exact ⟨asked, store, trace, rfl, hstore, hC.set now hclock, htrace⟩
  ask := by
    rintro env _ query ⟨asked, store, trace, rfl, hstore, hclock, htrace⟩
    exact ⟨asked, _, trace, rfl, hS.ask query hstore, hclock, htrace⟩

/-- What was told before is forgotten. -/
theorem Spares.fresh {env env' : Environment P A V E} (h : Spares S C mid env env') :
    Spares S C [] { env with trace := [] } { env' with trace := [] } := by
  obtain ⟨asked, store, trace, rfl, hstore, hclock, -⟩ := h
  exact ⟨asked, store, [], rfl, hstore, hclock, inserted_nil.mpr rfl⟩

/-- The test is made in the first environment alone. -/
theorem Spares.judge {env env' : Environment P A V E} (h : Spares S C mid env env') :
    Spares S C mid { env with asked := env.asked + 1 } env' := by
  obtain ⟨asked, store, trace, rfl, hstore, hclock, htrace⟩ := h
  exact ⟨asked, store, trace, rfl, hstore, hclock, htrace⟩

end Environment

end ReadThrough
