import ReadThrough.Store.Query
import ReadThrough.Proofs.Load.Deliveries
import ReadThrough.Proofs.Store.Arrivals
import ReadThrough.Proofs.Table
/-!
# Proofs: what is stored

Whatever the store keeps beside its entries, what it has for a key follows from what was stored at
first and from the events since: the writes, the evictions and the clearings (`stocks`). An entry
that it has was written last of all for its key, and nothing has displaced it since (`Latest`).
-/

namespace ReadThrough

/-! ## Entries of a store -/

namespace Bounded

variable {K V : Type} [DecidableEq K]

/-- Making room takes away the keys that it reports, and leaves the other entries alone. -/
theorem get?_evict (capacity : Nat) (order : List K) (entries : Table K (Entry V)) (k : K) :
    (evict capacity order entries).2.1.get? k =
      if k ∈ (evict capacity order entries).2.2 then none else entries.get? k := by
  induction order generalizing entries with
  | nil => rfl
  | cons oldest rest ih =>
    simp only [evict]
    split
    · rw [ih (entries.erase oldest)]
      by_cases hk : k = oldest
      · subst hk
        simp
      · simp [hk, Table.get?_erase_of_ne entries hk]
    · rfl

/-- A write to a bounded store stores its entry, and takes away the keys that it reports. -/
theorem get?_put (s : Bounded K V) (key : K) (entry : Entry V) (k : K) :
    (s.put key entry).1.get? k =
      if k ∈ (s.put key entry).2 then none else Function.update s.get? key (some entry) k := by
  have hinsert : (s.entries.insert key entry).get? k =
      Function.update s.get? key (some entry) k := congrFun (s.entries.get?_insert key entry) k
  unfold put
  split
  · rw [if_neg List.not_mem_nil]
    exact hinsert
  · rw [← hinsert]
    exact get?_evict s.capacity (s.order ++ [key]) (s.entries.insert key entry) k

end Bounded

namespace Store

variable {K V : Type} [DecidableEq K]

/-- The entry of a key, without a read. -/
def find (s : Store K V) (key : K) : Option (Entry V) :=
  match s with
  | .bounded s => s.get? key
  | .recorded s => s.data.get? key
  | .gated s => s.get? key

/-- A read of any store answers with what is stored. -/
theorem get_fst (s : Store K V) (key : K) : (s.get key).1 = s.find key := by
  cases s with
  | bounded s => rfl
  | recorded s => rfl
  | gated s => rfl

/-- A read of any store changes nothing of what is stored. -/
theorem find_get (s : Store K V) (key : K) : (s.get key).2.find = s.find := by
  cases s with
  | bounded s => rfl
  | recorded s => rfl
  | gated s => rfl

/-- A cleared store has nothing. -/
theorem find_clear (s : Store K V) : s.clear.find = fun _ => none := by
  cases s with
  | bounded s => rfl
  | recorded s => rfl
  | gated s => rfl

/-- A question to a store changes nothing of what is stored. -/
theorem find_ask (s : Store K V) (query : Query K) : (s.ask query).2.find = s.find := by
  cases query with
  | size => rfl
  | snapshot => rfl
  | _ => cases s <;> rfl

/-- A write replaces the entry of its key and takes the displaced entries away. -/
theorem find_put (s : Store K V) (key : K) (entry : Entry V) (k : K) :
    (s.put key entry).1.find k =
      if k ∈ (s.put key entry).2.map (·.1) then none
      else Function.update s.find key (some entry) k := by
  cases s with
  | recorded s => exact congrFun (s.data.get?_insert key entry) k
  | gated s => exact congrFun (s.entries.get?_insert key entry) k
  | bounded s =>
    have hgone : ((Store.bounded s).put key entry).2.map (·.1) = (s.put key entry).2 := by
      show ((s.put key entry).2.map (·, s.capacity)).map (·.1) = _
      rw [List.map_map]
      exact List.map_id _
    rw [hgone]
    exact s.get?_put key entry k

/-- The parts of the store agree. -/
def Consistent : Store K V → Prop
  | .bounded s => s.Consistent
  | .recorded _ | .gated _ => True

/-- A cleared store is consistent. -/
theorem consistent_clear (s : Store K V) : s.clear.Consistent := by
  cases s with
  | bounded s =>
    refine ⟨List.nodup_nil, fun k => ?_, Nat.zero_le _⟩
    constructor <;> exact nofun
  | recorded | gated => trivial

/-- A read leaves a store consistent. -/
theorem Consistent.get {s : Store K V} (h : s.Consistent) (key : K) :
    (s.get key).2.Consistent := by
  cases s with
  | bounded s => exact h
  | recorded | gated => trivial

/-- A write leaves a store consistent. -/
theorem Consistent.put {s : Store K V} (h : s.Consistent) (key : K) (entry : Entry V) :
    (s.put key entry).1.Consistent := by
  cases s with
  | bounded s =>
    have hbounded : s.Consistent := h
    exact (hbounded.puts key entry).consistent hbounded
  | recorded | gated => trivial

/-- A question leaves a store consistent. -/
theorem Consistent.ask {s : Store K V} (h : s.Consistent) (query : Query K) :
    (s.ask query).2.Consistent := by
  cases s with
  | bounded s => cases query <;> exact h
  | recorded | gated => cases query <;> trivial

/-- A write is never displaced by itself. -/
theorem Consistent.find_put_self {s : Store K V} (h : s.Consistent) (key : K) (entry : Entry V) :
    (s.put key entry).1.find key = some entry := by
  cases s with
  | recorded s => exact Table.get?_insert_self _ _ _
  | gated s => exact Table.get?_insert_self _ _ _
  | bounded s =>
    have hbounded : s.Consistent := h
    have hputs := hbounded.puts key entry
    refine (hputs.get?_eq key).trans ?_
    rw [if_neg hputs.key_not_mem_gone, Function.update_self]

end Store

/-! ## Entries by events -/

variable {P A V E : Type}

section Stock

variable [DecidableEq P] [DecidableEq A]

/-- What is stored after one event. -/
def stock (found : Key P A → Option (Entry V)) : Event P A V E → Key P A → Option (Entry V)
  | .storeWritten key entry => Function.update found key (some entry)
  | .evicted key _ => Function.update found key none
  | .cleared => fun _ => none
  | _ => found

/-- What is stored after some events. -/
def stocks (seed : Key P A → Option (Entry V)) (events : List (Event P A V E)) :
    Key P A → Option (Entry V) := events.foldl stock seed

/-- What some events and others after them leave is what the others leave of what the first ones
leave. -/
theorem stocks_append (seed : Key P A → Option (Entry V)) (events events' : List (Event P A V E)) :
    stocks seed (events ++ events') = stocks (stocks seed events) events' := List.foldl_append

/-- An event that touches nothing leaves what is stored. -/
theorem stock_of_untouched {event : Event P A V E} (h : event.touches = false)
    (found : Key P A → Option (Entry V)) : stock found event = found := by
  cases event with
  | storeWritten | evicted | cleared => cases h
  | _ => rfl

/-- The events of an eviction take their keys away. -/
theorem stocks_evicted (found : Key P A → Option (Entry V)) (gone : List (Key P A × Nat))
    (k : Key P A) :
    stocks found (gone.map fun (k, capacity) => (.evicted k capacity : Event P A V E)) k =
      if k ∈ gone.map (·.1) then none else found k := by
  induction gone generalizing found with
  | nil => rfl
  | cons p gone ih =>
    have hrest := ih (Function.update found p.1 none)
    rw [stocks, List.map_cons, List.foldl_cons]
    refine hrest.trans ?_
    rw [List.map_cons]
    by_cases hk : k = p.1
    · rw [hk, Function.update_self, ite_self, if_pos (List.mem_cons_self ..)]
    · simp only [List.mem_cons, hk, false_or, Function.update_of_ne hk]

/-- The store has exactly what the events so far have left of what it had at first. -/
def Stocked (seed : Store (Key P A) V) (T : List (Event P A V E)) (env : Environment P A V E) :
    Prop := env.store.find = stocks seed.find T

/-- The events of a write are those that the store goes through. -/
theorem Stocked.writeStore {seed : Store (Key P A) V} {T : List (Event P A V E)}
    {env : Environment P A V E} (h : Stocked seed T env) (key : Key P A) (entry : Entry V) :
    Stocked seed (T ++ env.writeEvents key entry) (env.writeStore key entry) := by
  funext k
  rw [stocks_append, ← h]
  exact (env.store.find_put key entry k).trans
    (stocks_evicted (Function.update env.store.find key (some entry)) _ k).symm

section Kept

variable {seed : Store (Key P A) V} {T events : List (Event P A V E)}
  {env env' : Environment P A V E}

/-- A record goes on with events that change nothing while the store has the same entries. -/
theorem Stocked.kept (h : Stocked seed T env) (hfind : env'.store.find = env.store.find)
    (hevents : ∀ event ∈ events, ∀ found, stock found event = found) :
    Stocked seed (T ++ events) env' := by
  have hstocks := foldl_of_forall hevents (stocks seed.find T)
  rw [Stocked, hfind, stocks_append]
  exact h.trans hstocks.symm

/-- A record goes on with events that touch nothing while the store has the same entries. -/
theorem Stocked.untouched (h : Stocked seed T env) (hfind : env'.store.find = env.store.find)
    (huntouched : ∀ event ∈ events, event.touches = false) : Stocked seed (T ++ events) env' :=
  h.kept hfind fun event he => stock_of_untouched (huntouched event he)

/-- The event of a clearing is the one that the store goes through. -/
theorem Stocked.clear (seed : Store (Key P A) V) (T : List (Event P A V E))
    (env : Environment P A V E) : Stocked seed (T ++ [.cleared]) env.clearStore := by
  rw [Stocked, stocks_append]
  exact env.store.find_clear

/-- A delivery stores what it tells. -/
theorem Stocked.delivered (h : Stocked seed T env) (key : Key P A) (value : V) (now : Stamp) :
    Stocked seed (T ++ Work.deliveryEvents key value now env)
      (Work.delivered key value now env) := by
  have hwritten := h.writeStore key (Entry.stamped value now)
  rw [Work.deliveryEvents, ← List.append_assoc]
  refine hwritten.kept ?_ ?_
  · rw [Work.store_delivered]
    rfl
  · refine List.forall_mem_cons.mpr ⟨fun found => rfl, List.forall_mem_cons.mpr
      ⟨fun found => rfl, ?_⟩⟩
    split
    · exact List.forall_mem_nil _
    · exact List.forall_mem_singleton.mpr fun found => rfl

/-- A poll of work stores what it tells. -/
theorem Stocked.pollAs (h : Stocked seed T env) {execution : Option Nat} {work : Work P A V E}
    {progress : Progress (Work P A V E) (Outcome (Result V E))}
    (hpoll : work.pollAs execution env = (progress, env'))
    (htrace : env'.trace = env.trace ++ events) : Stocked seed (T ++ events) env' := by
  have hclosing := Work.closing_untouched execution work env
  obtain ⟨told, hdeals⟩ := work.deals_poll env
  rw [Work.pollAs_eq] at hpoll
  obtain ⟨-, rfl⟩ := Prod.mk.inj hpoll
  rcases hwork : work.poll env with ⟨progress', env₁⟩
  rw [hwork] at hdeals htrace
  have hpolled : ∃ told, env₁.trace = env.trace ++ told ∧ Stocked seed (T ++ told) env₁ := by
    cases hdeals with
    | withholds hushed _ _ _ =>
      exact ⟨told, hushed.trace, h.untouched (congrArg _ hushed.store) hushed.untouched⟩
    | @delivers env₂ value now hushed _ =>
      refine ⟨told ++ Work.deliveryEvents work.key value now env₂, ?_, ?_⟩
      · rw [Work.trace_delivered, hushed.trace, List.append_assoc]
      · rw [← List.append_assoc]
        have hbefore := h.untouched (congrArg _ hushed.store) hushed.untouched
        exact hbefore.delivered work.key value now
  obtain ⟨told, htold, hstocked⟩ := hpolled
  have happend : env.trace ++ events = env.trace ++ (told ++ work.closing execution env) := by
    rw [← htrace, ← List.append_assoc, ← htold]
    rfl
  rw [List.append_cancel_left happend, ← List.append_assoc]
  exact hstocked.untouched rfl fun event he => (hclosing event he).1

end Kept

/-! ## Events that vouch for what is stored -/

omit [DecidableEq P] [DecidableEq A] in
/-- What is among two lists is among the first or among the last of them. -/
theorem append_eq_split {α : Type} {as bs before after : List α} {a : α}
    (h : as ++ bs = before ++ a :: after) :
    (∃ rest, as = before ++ a :: rest) ∨
      ∃ begun, before = as ++ begun ∧ bs = begun ++ a :: after := by
  rcases List.append_eq_append_iff.mp h with ⟨begun, hbefore, hbs⟩ | ⟨rest, has, hrest⟩
  · exact .inr ⟨begun, hbefore, hbs⟩
  · cases rest with
    | nil =>
      refine .inr ⟨[], ?_, ?_⟩
      · rw [has]
        simp
      · exact hrest.symm
    | cons a' rest =>
      rw [List.cons_append, List.cons.injEq] at hrest
      obtain ⟨rfl, -⟩ := hrest
      exact .inl ⟨rest, has⟩

/-- Whether an event tells something about what is stored. -/
def Event.vouches : Event P A V E → Bool
  | .storeRead _ _ | .settled _ _ _ _ => true
  | _ => false

/-- What an event tells about what is stored is so: a read finds what is stored, and an execution
that ends with a result has stored it. -/
def Event.Fits (stored : Key P A → Option (Entry V)) : Event P A V E → Prop
  | .storeRead key found => found = stored key
  | .settled _ _ key (.value (.ok delivery)) => ∃ value now,
      delivery = Delivery.loaded value now ∧ stored key = some (Entry.stamped value now)
  | _ => True

/-- Every event fits what the events before it have left of what was stored at first. -/
def Faithful (seed : Key P A → Option (Entry V)) (T : List (Event P A V E)) : Prop :=
  ∀ before event after, T = before ++ event :: after → event.Fits (stocks seed before)

section Faithful

variable {seed : Key P A → Option (Entry V)} {T events : List (Event P A V E)}

omit [DecidableEq P] [DecidableEq A] in
/-- An event that tells nothing of what is stored fits any contents. -/
theorem Event.fits_of_not_vouches {event : Event P A V E} (h : event.vouches = false)
    (stored : Key P A → Option (Entry V)) : event.Fits stored := by
  cases event with
  | storeRead | settled => cases h
  | _ => trivial

/-- A faithful record goes on with events that fit what it leaves. -/
theorem Faithful.append (h : Faithful seed T) (hevents : Faithful (stocks seed T) events) :
    Faithful seed (T ++ events) := by
  intro before event after hsplit
  rcases append_eq_split hsplit with ⟨rest, hT⟩ | ⟨begun, rfl, hbegun⟩
  · exact h before event rest hT
  · rw [stocks_append]
    exact hevents begun event after hbegun

/-- Events that tell nothing of what is stored are faithful. -/
theorem faithful_of_forall (h : ∀ event ∈ events, event.vouches = false) :
    Faithful seed events := by
  rintro before event after rfl
  exact Event.fits_of_not_vouches (h event (List.mem_append_right _ (List.mem_cons_self ..))) _

/-- One event is faithful if it fits what is stored at first. -/
theorem faithful_singleton {event : Event P A V E} (h : event.Fits seed) :
    Faithful seed [event] := by
  intro before event' after hsplit
  cases before with
  | nil =>
    cases hsplit
    exact h
  | cons first rest => simp at hsplit

end Faithful

namespace Work

variable {work : Work P A V E} {env : Environment P A V E}

/-- A poll of a piece of work leaves the store consistent. -/
theorem consistent_poll (h : env.store.Consistent) : (work.poll env).2.store.Consistent := by
  obtain ⟨told, hdeals⟩ := work.deals_poll env
  generalize work.poll env = polled at hdeals ⊢
  cases hdeals with
  | withholds hushed => exact hushed.store ▸ h
  | @delivers env' value now hushed =>
    rw [store_delivered, hushed.store]
    exact h.put _ _

/-- A poll of a piece of work in an execution leaves the store consistent. -/
theorem consistent_pollAs (h : env.store.Consistent) {execution : Option Nat}
    {progress : Progress (Work P A V E) (Outcome (Result V E))} {env' : Environment P A V E}
    (hpoll : work.pollAs execution env = (progress, env')) : env'.store.Consistent := by
  rw [pollAs_eq] at hpoll
  obtain ⟨-, rfl⟩ := Prod.mk.inj hpoll
  exact consistent_poll h

/-- Work that ends with a result has stored it. -/
theorem find_poll (h : env.store.Consistent) {delivery : Delivery V}
    (hpoll : (work.poll env).1 = .finished (.value (.ok delivery))) :
    ∃ value now, delivery = Delivery.loaded value now ∧
      (work.poll env).2.store.find work.key = some (Entry.stamped value now) := by
  obtain ⟨told, hdeals⟩ := work.deals_poll env
  generalize work.poll env = polled at hdeals hpoll ⊢
  cases hdeals with
  | withholds _ hnone => exact absurd hpoll (hnone delivery)
  | @delivers env' value now hushed =>
    cases hpoll
    refine ⟨value, now, rfl, ?_⟩
    rw [store_delivered, hushed.store]
    exact h.find_put_self _ _

/-- Work does not vouch for anything before it ends. -/
theorem not_vouches_poll {told : List (Event P A V E)}
    (htrace : (work.poll env).2.trace = env.trace ++ told) :
    ∀ event ∈ told, event.vouches = false := by
  obtain ⟨events, htells⟩ := tells_poll work env
  have hsame : env.trace ++ told = env.trace ++ (work.calls env ++ events) := by
    rw [← htrace, htells.trace, trace_entry, List.append_assoc]
  rw [List.append_cancel_left hsame]
  refine List.forall_mem_append.mpr ⟨?_, fun event he => ?_⟩
  · cases work with
    | fresh key => exact List.forall_mem_singleton.mpr rfl
    | calling | storing => exact List.forall_mem_nil _
  · have hwork := htells.isWork event he
    cases event with
    | storeRead | settled => cases hwork
    | _ => rfl

/-- A poll of work as an execution tells what is so. -/
theorem faithful_pollAs {seed : Store (Key P A) V} {T events : List (Event P A V E)}
    {env' : Environment P A V E} {execution : Option Nat}
    {progress : Progress (Work P A V E) (Outcome (Result V E))} (hstocked : Stocked seed T env)
    (hconsistent : env.store.Consistent) (hpoll : work.pollAs execution env = (progress, env'))
    (htrace : env'.trace = env.trace ++ events) : Faithful (stocks seed.find T) events := by
  have hafter := hstocked.pollAs hpoll htrace
  have hclosing := closing_untouched execution work env
  rw [pollAs_eq] at hpoll
  obtain ⟨-, rfl⟩ := Prod.mk.inj hpoll
  obtain ⟨told, htold⟩ : ∃ told, (work.poll env).2.trace = env.trace ++ told := by
    obtain ⟨events, htells⟩ := tells_poll work env
    exact ⟨_, by rw [htells.trace, trace_entry, List.append_assoc]⟩
  have hsame : env.trace ++ events = env.trace ++ (told ++ work.closing execution env) := by
    rw [← htrace, ← List.append_assoc, ← htold]
    rfl
  obtain rfl := List.append_cancel_left hsame
  refine (faithful_of_forall (not_vouches_poll htold)).append ?_
  have hstored : (work.poll env).2.store.find = stocks (stocks seed.find T) told := by
    have hsame := foldl_of_forall (fun event he => stock_of_untouched (hclosing event he).1)
      (stocks (stocks seed.find T) told)
    rw [← hsame]
    refine hafter.trans ?_
    rw [stocks_append, stocks_append]
    rfl
  unfold closing
  cases hprogress : (work.poll env).1 with
  | waiting rest => exact faithful_of_forall (List.forall_mem_nil _)
  | finished outcome =>
    refine faithful_singleton ?_
    rcases outcome with (failure | delivery) | message
    · trivial
    · rw [← hstored]
      exact find_poll hconsistent hprogress
    · trivial

end Work

end Stock

/-! ## The latest entry -/

/-- Whether an event leaves what is stored for a key as it is. -/
def Event.spares (key : Key P A) : Event P A V E → Prop
  | .storeWritten k _ | .evicted k _ => k ≠ key
  | .cleared => False
  | _ => True

instance [DecidableEq P] [DecidableEq A] (key : Key P A) (event : Event P A V E) :
    Decidable (event.spares key) :=
  match event with
  | .storeWritten k _ | .evicted k _ => inferInstanceAs (Decidable (k ≠ key))
  | .cleared => inferInstanceAs (Decidable False)
  | .called _ _ | .settled _ _ _ _ | .received _ _ | .abandoned _ | .clockRead _ | .storeRead _ _
  | .updatePublished _ _ | .failurePublished _ _ | .registry _ | .miss _ | .hit _ _ | .stale _ _ _
  | .unanswered _ | .rescued _ | .rejected _ | .succeeded _ _ | .failed _ _ | .updateUnheard
  | .failureUnheard | .retried _ _ | .lagged _ _ => inferInstanceAs (Decidable True)

/-- What leaves a key alone leaves what is stored for it. -/
theorem stocks_of_spares [DecidableEq P] [DecidableEq A] {key : Key P A}
    {events : List (Event P A V E)} (h : ∀ event ∈ events, event.spares key)
    (found : Key P A → Option (Entry V)) : stocks found events key = found key := by
  induction events generalizing found with
  | nil => rfl
  | cons event rest ih =>
    obtain ⟨hfirst, hrest⟩ := List.forall_mem_cons.mp h
    refine (ih hrest (stock found event)).trans ?_
    cases event with
    | storeWritten k entry => exact Function.update_of_ne (Ne.symm hfirst) _ _
    | evicted k capacity => exact Function.update_of_ne (Ne.symm hfirst) _ _
    | cleared => exact hfirst.elim
    | _ => rfl

/-- The entry was written last for the key, or was there at first, and has neither been overwritten
nor evicted nor cleared since. -/
inductive Latest (seed : Key P A → Option (Entry V)) (key : Key P A) (entry : Entry V) :
    List (Event P A V E) → Prop where
  | written {before after : List (Event P A V E)} (hspares : ∀ event ∈ after, event.spares key) :
      Latest seed key entry (before ++ .storeWritten key entry :: after)
  | seeded {events : List (Event P A V E)} (hseed : seed key = some entry)
      (hspares : ∀ event ∈ events, event.spares key) : Latest seed key entry events

/-- The latest entry of a key stays the latest over an event that leaves the key alone. -/
theorem Latest.concat {seed : Key P A → Option (Entry V)} {key : Key P A} {entry : Entry V}
    {events : List (Event P A V E)} (h : Latest seed key entry events) {event : Event P A V E}
    (hspares : event.spares key) : Latest seed key entry (events ++ [event]) := by
  have hlast : ∀ {after : List (Event P A V E)}, (∀ event ∈ after, event.spares key) →
      ∀ event' ∈ after ++ [event], event'.spares key := fun hafter =>
    List.forall_mem_append.mpr ⟨hafter, List.forall_mem_singleton.mpr hspares⟩
  cases h with
  | written hafter =>
    rw [List.append_assoc, List.cons_append]
    exact .written (hlast hafter)
  | seeded hseed hevents => exact .seeded hseed (hlast hevents)

/-- What is stored for a key is the latest entry that was written for it. -/
theorem latest_of_stocks [DecidableEq P] [DecidableEq A] {seed : Key P A → Option (Entry V)}
    {key : Key P A} {entry : Entry V} {events : List (Event P A V E)}
    (h : stocks seed events key = some entry) : Latest seed key entry events := by
  induction events using List.reverseRecOn with
  | nil => exact .seeded h (List.forall_mem_nil _)
  | append_singleton events event ih =>
    rw [stocks_append] at h
    have hstock : stock (stocks seed events) event key = some entry := h
    -- Only an event that touches the key needs a look.
    cases event with
    | storeWritten k entry' =>
      by_cases hk : k = key
      · subst hk
        rw [stock, Function.update_self, Option.some.injEq] at hstock
        subst hstock
        exact .written (List.forall_mem_nil _)
      · rw [stock, Function.update_of_ne (Ne.symm hk)] at hstock
        exact (ih hstock).concat hk
    | evicted k capacity =>
      by_cases hk : k = key
      · subst hk
        rw [stock, Function.update_self] at hstock
        cases hstock
      · rw [stock, Function.update_of_ne (Ne.symm hk)] at hstock
        exact (ih hstock).concat hk
    | cleared => cases hstock
    | _ => exact (ih hstock).concat trivial

end ReadThrough
