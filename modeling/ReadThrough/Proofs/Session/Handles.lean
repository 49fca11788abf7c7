import ReadThrough.Proofs.Session.Recording
import ReadThrough.Script
/-!
# Proofs: the handles of a recording store

The handles of a recording store are copies of each other: each has the addresses of the same table
and of the same record. An operation writes to the record first and then to the table, and never
waits in between, so it comes to what the store answers (`Memory.answer_eq`).

The handles can be used in turns, and any number of caches can have one of them (`Bench`). Through
each of them the record explains what is stored (`Account.record_explains`).
-/

namespace ReadThrough

/-- A handle of a recording store. -/
structure Handle where
  /-- The address of its table. -/
  data : Nat
  /-- The address of its record. -/
  record : Nat

/-- Another handle of the same store. -/
def Handle.clone (h : Handle) : Handle := { data := h.data, record := h.record }

/-! ## Memory -/

/-- The tables and the records by their addresses. -/
structure Memory (K V : Type) where
  /-- The tables. -/
  data : Nat → Table K (Entry V)
  /-- The records. -/
  record : Nat → List (Operation K V)

namespace Memory

variable {K V : Type}

/-- The store behind a handle. -/
def seen (m : Memory K V) (h : Handle) : Recorded K V := ⟨m.data h.data, m.record h.record⟩

/-- Writes the table of a handle. -/
def setData (m : Memory K V) (h : Handle) (data : Table K (Entry V)) : Memory K V :=
  { m with data := Function.update m.data h.data data }

/-- Writes the record of a handle. -/
def setRecord (m : Memory K V) (h : Handle) (record : List (Operation K V)) : Memory K V :=
  { m with record := Function.update m.record h.record record }

/-- Writes the store behind a handle. -/
def set (m : Memory K V) (h : Handle) (r : Recorded K V) : Memory K V :=
  (m.setRecord h r.record).setData h r.data

/-- Empties the record of a handle. -/
def forget (m : Memory K V) (h : Handle) : Memory K V := m.setRecord h []

/-- Writes what a cache has left of its store behind its handle. -/
def keep (m : Memory K V) (h : Handle) : Store K V → Memory K V
  | .recorded r => m.set h r
  | .bounded _ | .gated _ => m

/-- A store that is written behind a handle is seen through it. -/
theorem seen_set (m : Memory K V) (h : Handle) (r : Recorded K V) : (m.set h r).seen h = r := by
  simp [seen, set, setData, setRecord]

/-- To empty the record of a handle empties that of the store behind it. -/
theorem seen_forget (m : Memory K V) (h : Handle) : (m.forget h).seen h = (m.seen h).forget := by
  simp [seen, forget, setRecord, Recorded.forget]

variable [DecidableEq K]

/-- Answers an operation through a handle: it is recorded first, and done then. -/
def answer (m : Memory K V) (h : Handle) (op : Operation K V) : Option (Entry V) × Memory K V :=
  let m := m.setRecord h (m.record h.record ++ [op])
  match op with
  | .get key => ((m.data h.data).get? key, m)
  | .put key entry => (none, m.setData h ((m.data h.data).insert key entry))
  | .clear => (none, m.setData h Table.empty)

/-- An operation through a handle comes to what the store behind it answers. -/
theorem answer_eq (m : Memory K V) (h : Handle) (op : Operation K V) :
    ((m.answer h op).1, (m.answer h op).2.seen h) = (m.seen h).answer op := by
  cases op <;> simp [answer, seen, setData, setRecord, Recorded.answer, Recorded.get, Recorded.put,
    Recorded.clear]

end Memory

/-! ## Several handles -/

variable {P A V E : Type}

/-- A session whose cache has a handle of a recording store. -/
structure Tenant (P A V E : Type) where
  /-- The handle. -/
  handle : Handle
  /-- The session. Whenever it performs a step, its store is what all others have left of it. -/
  session : Session P A V E

/-- The session with the store as it is now. -/
def Tenant.seated (t : Tenant P A V E) (m : Memory (Key P A) V) : Session P A V E :=
  { t.session with cache.env.store := .recorded (m.seen t.handle) }

/-- A recording store that is used through several handles, directly and by caches. -/
structure Bench (P A V E : Type) where
  /-- Where the store is kept. -/
  memory : Memory (Key P A) V
  /-- The handle with which it was created. -/
  first : Handle
  /-- All other handles that no cache has. -/
  clones : List Handle
  /-- The sessions of the caches. -/
  tenants : List (Tenant P A V E)

/-- Something that is done with a recording store. -/
inductive Deed (P A V E : Type) where
  /-- Another handle is made from one. -/
  | clone (handle : Nat)
  /-- The store is used through a handle. -/
  | operate (handle : Nat) (op : Operation (Key P A) V)
  /-- The record is emptied through a handle. -/
  | forget (handle : Nat)
  /-- A cache gets a copy of a handle for its store. -/
  | lend (handle : Nat) (clock : Clock) (broadcastCapacity : Nat) (source : Source P V E)
  /-- The session of a cache performs a step. -/
  | step (tenant : Nat) (st : Session.Step P A V)

namespace Bench

/-- All handles that no cache has. -/
def handles (b : Bench P A V E) : List Handle := b.first :: b.clones

/-- The store behind the first handle. -/
def store (b : Bench P A V E) : Recorded (Key P A) V := b.memory.seen b.first

variable [DecidableEq P] [DecidableEq A] [DecidableEq V]

/-- A session performs a step. Answers what was done to the store, or none if its record was
emptied. -/
def stepTenant (b : Bench P A V E) (tenant : Nat) (t : Tenant P A V E) (st : Session.Step P A V) :
    Option (List (Done (Key P A) V)) × Bench P A V E :=
  let (report, session) := (t.seated b.memory).step st
  (if t.session.forgets st then none else some (doneIn report.events),
    { b with
      tenants := b.tenants.set tenant { t with session }
      memory := b.memory.keep t.handle session.cache.env.store })

/-- Performs a deed. Answers what was done to the store, or none if its record was emptied. A handle
or a session that does not exist does nothing. -/
def perform (b : Bench P A V E) :
    Deed P A V E → Option (List (Done (Key P A) V)) × Bench P A V E
  | .clone handle =>
    match b.handles[handle]? with
    | some h => (some [], { b with clones := b.clones ++ [h.clone] })
    | none => (some [], b)
  | .operate handle op =>
    match b.handles[handle]? with
    | some h =>
      let (found, memory) := b.memory.answer h op
      (some [(op, found)], { b with memory })
    | none => (some [], b)
  | .forget handle =>
    match b.handles[handle]? with
    | some h => (none, { b with memory := b.memory.forget h })
    | none => (some [], b)
  | .lend handle clock broadcastCapacity source =>
    match b.handles[handle]? with
    | some h =>
      let cache := Cache.create
        { store := .recorded (b.memory.seen h), clock, broadcastCapacity } source
      (some [], { b with tenants := b.tenants ++ [⟨h.clone, .create cache⟩] })
    | none => (some [], b)
  | .step tenant st =>
    match b.tenants[tenant]? with
    | some t => b.stepTenant tenant t st
    | none => (some [], b)

omit [DecidableEq V] in
/-- All handles are of one store. -/
structure Sound (b : Bench P A V E) : Prop where
  handles : ∀ h ∈ b.handles, h = b.first
  tenants : ∀ t ∈ b.tenants, t.handle = b.first ∧ t.session.Sound

/-- What a deed comes to: it does to the store what is answered, or empties its record. -/
inductive Comes (b : Bench P A V E) :
    Option (List (Done (Key P A) V)) × Bench P A V E → Prop where
  | does {done : List (Done (Key P A) V)} {b' : Bench P A V E} (hsound : b'.Sound)
      (hdid : b.store.Did done b'.store) : Comes b (some done, b')
  | forgets {b' : Bench P A V E} (hsound : b'.Sound) (hstore : b'.store = b.store.forget) :
      Comes b (none, b')

namespace Sound

variable {b : Bench P A V E}

omit [DecidableEq P] [DecidableEq A] [DecidableEq V] in
/-- Every handle is the first one. -/
theorem eq_first (h : b.Sound) {handle : Nat} {used : Handle}
    (hget : b.handles[handle]? = some used) : used = b.first :=
  h.handles used (List.mem_of_getElem? hget)

/-- Another handle of the same store does nothing to it. -/
theorem comes_clone (h : b.Sound) (handle : Nat) : b.Comes (b.perform (.clone handle)) := by
  simp only [perform]
  cases hget : b.handles[handle]? with
  | none => exact .does h .nil
  | some cloned =>
    obtain rfl := h.eq_first hget
    have hhandles : ∀ handle ∈ b.handles ++ [b.first.clone], handle = b.first :=
      List.forall_mem_append.mpr ⟨h.handles, List.forall_mem_singleton.mpr rfl⟩
    exact .does ⟨hhandles, h.tenants⟩ .nil

/-- An operation through any handle is done to the store and recorded. -/
theorem comes_operate (h : b.Sound) (handle : Nat) (op : Operation (Key P A) V) :
    b.Comes (b.perform (.operate handle op)) := by
  simp only [perform]
  cases hget : b.handles[handle]? with
  | none => exact .does h .nil
  | some used =>
    obtain rfl := h.eq_first hget
    obtain ⟨hfound, hstore⟩ := Prod.mk.inj (b.memory.answer_eq b.first op)
    have hdid : b.store.Did [(op, (b.memory.answer b.first op).1)]
        ((b.memory.answer b.first op).2.seen b.first) := by
      rw [hfound, hstore]
      exact .single b.store op
    exact .does ⟨h.handles, h.tenants⟩ hdid

/-- To forget empties the record, through any handle. -/
theorem comes_forget (h : b.Sound) (handle : Nat) : b.Comes (b.perform (.forget handle)) := by
  simp only [perform]
  cases hget : b.handles[handle]? with
  | none => exact .does h .nil
  | some used =>
    obtain rfl := h.eq_first hget
    exact .forgets ⟨h.handles, h.tenants⟩ (b.memory.seen_forget b.first)

/-- To lend a handle to a cache does nothing to the store. -/
theorem comes_lend (h : b.Sound) (handle : Nat) (clock : Clock) (broadcastCapacity : Nat)
    (source : Source P V E) :
    b.Comes (b.perform (.lend handle clock broadcastCapacity source)) := by
  simp only [perform]
  cases hget : b.handles[handle]? with
  | none => exact .does h .nil
  | some used =>
    obtain rfl := h.eq_first hget
    refine .does ⟨h.handles, List.forall_mem_append.mpr ⟨h.tenants, ?_⟩⟩ .nil
    exact List.forall_mem_singleton.mpr ⟨rfl, Session.sound_create _⟩

/-- A step of a session does to the store what it tells, or empties its record. -/
theorem comes_stepTenant (h : b.Sound) {tenant : Nat} {t : Tenant P A V E}
    (hget : b.tenants[tenant]? = some t) (st : Session.Step P A V) :
    b.Comes (b.stepTenant tenant t st) := by
  obtain ⟨hhandle, hsession⟩ := h.tenants t (List.mem_of_getElem? hget)
  have hseated : (t.seated b.memory).Sound := hsession
  have hsound : (b.stepTenant tenant t st).2.Sound := by
    refine ⟨h.handles, fun t' ht' => ?_⟩
    rcases List.mem_or_eq_of_mem_set ht' with hother | rfl
    · exact h.tenants t' hother
    · exact ⟨hhandle, Session.sound_step hseated st⟩
  have hbefore : (t.seated b.memory).cache.env.store = .recorded b.store := by
    rw [store, ← hhandle]
    rfl
  have hafter : ∀ {r}, ((t.seated b.memory).step st).2.cache.env.store = .recorded r →
      (b.stepTenant tenant t st).2.store = r := by
    intro r hr
    show (b.memory.keep t.handle ((t.seated b.memory).step st).2.cache.env.store).seen b.first = r
    rw [hr, ← hhandle]
    exact b.memory.seen_set t.handle r
  unfold stepTenant at hsound hafter ⊢
  cases hforgets : t.session.forgets st with
  | false =>
    obtain ⟨r, hr, hdid⟩ := Session.did_step hseated hbefore hforgets
    rw [← hafter hr] at hdid
    exact .does hsound hdid
  | true =>
    exact .forgets hsound (hafter (Session.store_step_of_forgets hbefore hforgets))

/-- Whatever is done with the store comes to what is answered. -/
theorem comes (h : b.Sound) (deed : Deed P A V E) : b.Comes (b.perform deed) := by
  cases deed with
  | clone handle => exact h.comes_clone handle
  | operate handle op => exact h.comes_operate handle op
  | forget handle => exact h.comes_forget handle
  | lend handle clock broadcastCapacity source =>
    exact h.comes_lend handle clock broadcastCapacity source
  | step tenant st =>
    simp only [perform]
    cases hget : b.tenants[tenant]? with
    | none => exact .does h .nil
    | some t => exact h.comes_stepTenant hget st

end Sound

end Bench

/-! ## The record since it was emptied -/

/-- A recording store with what was stored when its record was last emptied, or else at first, and
with what was done since. -/
structure Account (P A V E : Type) where
  /-- The store and its handles. -/
  bench : Bench P A V E
  /-- What was stored. -/
  base : Key P A → Option (Entry V)
  /-- What was done since, whoever has done it. -/
  since : List (Done (Key P A) V)

namespace Account

variable [DecidableEq P] [DecidableEq A]

/-- A store is created with some entries. -/
def start (memory : Memory (Key P A) V) (first : Handle) (seed : List (Key P A × Entry V)) :
    Account P A V E where
  bench := { memory := memory.set first (.ofList seed), first, clones := [], tenants := [] }
  base := (Table.ofList seed).get?
  since := []

/-- All handles are of one store, which has been used as it is told. -/
structure Right (a : Account P A V E) : Prop where
  sound : a.bench.Sound
  did : ∃ r : Recorded (Key P A) V,
    r.record = [] ∧ r.data.get? = a.base ∧ r.Did a.since a.bench.store

/-- A store at first has done nothing. -/
theorem right_start (memory : Memory (Key P A) V) (first : Handle)
    (seed : List (Key P A × Entry V)) : (start memory first seed : Account P A V E).Right := by
  have hstore : (start memory first seed : Account P A V E).bench.store = .ofList seed :=
    memory.seen_set first (.ofList seed)
  refine ⟨⟨List.forall_mem_singleton.mpr rfl, List.forall_mem_nil _⟩, .ofList seed, rfl, rfl, ?_⟩
  rw [hstore]
  exact .nil

/-- Through every handle the record explains what was done since it was last emptied. -/
theorem Right.explained {a : Account P A V E} (h : a.Right) :
    ∀ handle ∈ a.bench.handles,
      Recorded.Explained a.base a.since (a.bench.memory.seen handle) := by
  intro handle hmem
  obtain ⟨r, hempty, hbase, hdid⟩ := h.did
  rw [h.sound.handles handle hmem, ← hbase]
  exact hdid.explained hempty

variable [DecidableEq V]

/-- After a deed. -/
def next (a : Account P A V E) (deed : Deed P A V E) : Account P A V E :=
  match a.bench.perform deed with
  | (some done, bench) => { a with bench, since := a.since ++ done }
  | (none, bench) => { bench, base := bench.store.data.get?, since := [] }

/-- After some deeds. -/
def run (a : Account P A V E) (deeds : List (Deed P A V E)) : Account P A V E :=
  deeds.foldl next a

variable {a : Account P A V E}

/-- An account stays right with one deed more. -/
theorem Right.next (h : a.Right) (deed : Deed P A V E) : (a.next deed).Right := by
  obtain ⟨hsound, r, hempty, hbase, hdid⟩ := h
  have hcomes := hsound.comes deed
  unfold Account.next
  rcases hdeed : a.bench.perform deed with ⟨_ | done, b⟩ <;> rw [hdeed] at hcomes
  · obtain ⟨hsound', hstore⟩ : b.Sound ∧ b.store = a.bench.store.forget := by
      cases hcomes with
      | forgets hsound hstore => exact ⟨hsound, hstore⟩
    exact ⟨hsound', b.store, congrArg Recorded.record hstore, rfl, .nil⟩
  · obtain ⟨hsound', hdone⟩ : b.Sound ∧ a.bench.store.Did done b.store := by
      cases hcomes with
      | does hsound hdid => exact ⟨hsound, hdid⟩
    exact ⟨hsound', r, hempty, hbase, hdid.trans hdone⟩

/-- An account stays right with any deeds. -/
theorem Right.run (h : a.Right) (deeds : List (Deed P A V E)) : (a.run deeds).Right := by
  induction deeds generalizing a with
  | nil => exact h
  | cons deed deeds ih => exact ih (h.next deed)

/-- Whatever is done to a recording store, directly and by caches in turns, through each of its
handles the record tells what was done since it was last emptied, in order, and explains what is
stored and what the reads have found. -/
theorem record_explains (memory : Memory (Key P A) V) (first : Handle)
    (seed : List (Key P A × Entry V)) (deeds : List (Deed P A V E)) :
    let a := (start memory first seed).run deeds
    ∀ handle ∈ a.bench.handles,
      Recorded.Explained a.base a.since (a.bench.memory.seen handle) :=
  ((right_start memory first seed).run deeds).explained

/-- One handle has cleared the store and another one has emptied the record. What is written through
a copy is found by a cache, and what that has loaded is found through the first handle. -/
theorem record_explains_lent :
    let key : Key Nat Unit := Key.ofParams 7
    let first : Handle := ⟨0, 0⟩
    let a : Account Nat Unit Int64 Nat :=
      (start ⟨fun _ => .empty, fun _ => []⟩ first [(key, .unstamped 4)]).run
        [.clone 0, .lend 1 .epoch 4 (scriptedSource []), .operate 1 .clear, .forget 0,
          .operate 1 (.put key (.unstamped 5)), .step 0 (.run (.fetch 7 .cachedThenLoad {})),
          .operate 0 (.get key)]
    first ∈ a.bench.handles ∧
      a.base key = none ∧
      a.since = [(.put key (.unstamped 5), none), (.get key, some (.unstamped 5)),
        (.put key (.stamped 1 0), none), (.get key, some (.stamped 1 0))] ∧
      Recorded.Explained a.base a.since (a.bench.memory.seen first) := by
  intro key first a
  have hmem : first ∈ a.bench.handles := List.mem_cons_self
  exact ⟨hmem, by decide +kernel, by decide +kernel, record_explains _ first _ _ first hmem⟩

end Account

end ReadThrough
