import ReadThrough.Store.Bounded
import Mathlib.Data.List.Induction
import Mathlib.Data.List.Nodup
import Mathlib.Logic.Function.Basic
/-!
# Proofs: the bounded store keeps the latest arrivals

A key arrives when it is written while it is not stored. A bounded store is known from outside by
the keys that have arrived since it was last emptied: it stores the latest of them, as many as it
has room for, each with the entry that was last written for it (`run_keeps_latest`). The order and
the entries, which are kept side by side, always agree (`Consistent`), and a write does one of three
things to them (`Puts`).
-/

namespace ReadThrough

namespace Bounded

variable {K V : Type} [DecidableEq K]

/-! ## The store as a list of arrivals -/

/-- The last keys of a list, at most `capacity` of them. -/
def latest (capacity : Nat) (arrived : List K) : List K :=
  arrived.drop (arrived.length - capacity)

/-- The keys that have arrived, after one operation more: a key arrives when it is written while it
is not among the latest. -/
def arrive (capacity : Nat) (arrived : List K) : Operation K V → List K
  | .put key _ => if key ∈ latest capacity arrived then arrived else arrived ++ [key]
  | .clear => []
  | .get _ => arrived

/-- The keys that have arrived since the last clearing, in order. -/
def arrivals (capacity : Nat) (ops : List (Operation K V)) : List K :=
  ops.foldl (arrive capacity) []

/-- The entry that was last written for a key. -/
def lastWritten (key : K) (ops : List (Operation K V)) : Option (Entry V) :=
  (ops.filterMap Operation.write?).reverse.lookup key

omit [DecidableEq K] in
/-- The last keys of a list are as many as the list has, up to the capacity. -/
theorem length_latest (capacity : Nat) (arrived : List K) :
    (latest capacity arrived).length = min capacity arrived.length := by
  rw [latest, List.length_drop]
  omega

omit [DecidableEq K] in
/-- What has passed away does not come back when another key arrives. -/
theorem latest_concat {capacity : Nat} (hpos : 0 < capacity) (arrived : List K) (key : K) :
    latest capacity (arrived ++ [key]) = latest capacity (latest capacity arrived ++ [key]) := by
  have hlength := length_latest capacity arrived
  have hsplit : latest capacity arrived ++ [key] =
      (arrived ++ [key]).drop (arrived.length - capacity) := by
    rw [List.drop_append_of_le_length (by omega)]
    rfl
  rw [latest, latest, hsplit, List.drop_drop, List.length_drop]
  congr 1
  simp only [List.length_append, List.length_singleton]
  omega

omit [DecidableEq K] in
/-- The last keys of a list that has room are all of it. -/
theorem latest_of_length_le {capacity : Nat} {arrived : List K} (h : arrived.length ≤ capacity) :
    latest capacity arrived = arrived := by
  rw [latest, Nat.sub_eq_zero_of_le h, List.drop_zero]

/-- The arrivals of a history go on with each operation. -/
theorem arrivals_concat (capacity : Nat) (ops : List (Operation K V)) (op : Operation K V) :
    arrivals capacity (ops ++ [op]) = arrive capacity (arrivals capacity ops) op := by
  rw [arrivals, List.foldl_append]
  rfl

/-- A write is the last one for its key, and changes the last one of no other key. -/
theorem lastWritten_put (key k : K) (entry : Entry V) (ops : List (Operation K V)) :
    lastWritten k (ops ++ [Operation.put key entry]) =
      Function.update (lastWritten · ops) key (some entry) k := by
  have hlast : (ops ++ [Operation.put key entry]).filterMap Operation.write? =
      ops.filterMap Operation.write? ++ [(key, entry)] := by
    rw [List.filterMap_append]
    rfl
  rw [lastWritten, hlast, List.reverse_append, List.reverse_singleton, List.singleton_append,
    List.lookup_cons]
  by_cases hk : k = key
  · subst hk
    simp
  · rw [beq_false_of_ne hk, Function.update_of_ne hk]
    rfl

/-- An operation that is no write leaves the last writes as they are. -/
theorem lastWritten_of_write?_eq_none {op : Operation K V} (h : op.write? = none) (k : K)
    (ops : List (Operation K V)) : lastWritten k (ops ++ [op]) = lastWritten k ops := by
  simp [lastWritten, List.filterMap_append, h]

omit [DecidableEq K] in
/-- A list without repetitions stays one when a new key is put behind it. -/
theorem nodup_concat {keys : List K} {key : K} (h : keys.Nodup) (hnew : key ∉ keys) :
    (keys ++ [key]).Nodup := by
  rw [List.nodup_append]
  refine ⟨h, List.nodup_singleton key, ?_⟩
  intro k hk key' hkey' hsame
  rw [List.mem_singleton] at hkey'
  exact hnew (hkey' ▸ hsame ▸ hk)

/-! ## Writes -/

/-- The order has each stored key once and no others, and there is room for all of them. -/
structure Consistent (s : Bounded K V) : Prop where
  nodup : s.order.Nodup
  stored : ∀ k, k ∈ s.order ↔ (s.get? k).isSome = true
  fits : s.order.length ≤ s.capacity

/-- What a write does: it leaves the order alone, puts a new key behind all others, or takes the
oldest key away besides. -/
inductive Puts (s : Bounded K V) (key : K) (entry : Entry V) : Bounded K V × List K → Prop where
  | overwrites (hold : key ∈ s.order) :
      Puts s key entry ({ s with entries := s.entries.insert key entry }, [])
  | adds (hnew : key ∉ s.order) (hroom : s.order.length < s.capacity) :
      Puts s key entry
        ({ s with order := s.order ++ [key], entries := s.entries.insert key entry }, [])
  | displaces {oldest : K} {rest : List K} (hnew : key ∉ s.order)
      (horder : s.order = oldest :: rest) (hfull : s.order.length = s.capacity) :
      Puts s key entry
        ({ s with order := rest ++ [key], entries := (s.entries.insert key entry).erase oldest },
          [oldest])

/-- An order that has room loses no key. -/
theorem evict_of_length_le {capacity : Nat} {order : List K} (h : order.length ≤ capacity)
    (entries : Table K (Entry V)) : evict capacity order entries = (order, entries, []) := by
  cases order with
  | nil => rfl
  | cons oldest rest => rw [evict, if_neg (by omega)]

/-- One key too many displaces one key. -/
theorem evict_of_length_eq {capacity : Nat} {oldest : K} {rest : List K}
    (h : rest.length = capacity) (entries : Table K (Entry V)) :
    evict capacity (oldest :: rest) entries = (rest, entries.erase oldest, [oldest]) := by
  have hover : capacity < (oldest :: rest).length := by
    rw [List.length_cons]
    omega
  rw [evict, if_pos hover, evict_of_length_le (Nat.le_of_eq h)]

variable {s s' : Bounded K V} {key : K} {entry : Entry V} {gone : List K}
  {ops : List (Operation K V)} {capacity : Nat}

/-- A write to a consistent store leaves the order alone, puts a new key behind it, or takes the
oldest key away besides. -/
theorem Consistent.puts (h : s.Consistent) (key : K) (entry : Entry V) :
    Puts s key entry (s.put key entry) := by
  have hcontains : s.entries.contains key = true ↔ key ∈ s.order := (h.stored key).symm
  unfold put
  by_cases hold : key ∈ s.order
  · rw [if_pos (hcontains.mpr hold)]
    exact .overwrites hold
  · rw [if_neg fun hc => hold (hcontains.mp hc)]
    by_cases hroom : s.order.length < s.capacity
    · have hfits : (s.order ++ [key]).length ≤ s.capacity := by
        rw [List.length_append, List.length_singleton]
        omega
      rw [evict_of_length_le hfits]
      exact .adds hold hroom
    · have hfull : s.order.length = s.capacity := Nat.le_antisymm h.fits (Nat.le_of_not_lt hroom)
      cases horder : s.order with
      | nil =>
        -- There is room for one key at least.
        have hpos := s.capacity_pos
        rw [horder, List.length_nil] at hfull
        omega
      | cons oldest rest =>
        have hlength : (rest ++ [key]).length = s.capacity := by
          rw [← hfull, horder, List.length_append, List.length_singleton, List.length_cons]
        rw [List.cons_append, evict_of_length_eq hlength]
        exact .displaces hold horder hfull

section Puts

variable (h : s.Consistent) (hputs : Puts s key entry (s', gone))

include h hputs

omit h in
/-- A write is read at once, and no entry but the displaced one is touched besides. -/
theorem Puts.get?_eq (k : K) : s'.get? k =
    if k ∈ gone then none else Function.update s.get? key (some entry) k := by
  have hinsert : ∀ k, (s.entries.insert key entry).get? k =
      Function.update s.get? key (some entry) k := by
    intro k
    by_cases hk : k = key
    · subst hk
      rw [Table.get?_insert_self, Function.update_self]
    · rw [Table.get?_insert_of_ne _ _ hk, Function.update_of_ne hk]
      rfl
  cases hputs with
  | overwrites hold =>
    rw [if_neg List.not_mem_nil]
    exact hinsert k
  | adds hnew hroom =>
    rw [if_neg List.not_mem_nil]
    exact hinsert k
  | @displaces oldest rest hnew horder hfull =>
    by_cases hk : k = oldest
    · subst hk
      rw [if_pos (List.mem_singleton_self k)]
      exact Table.get?_erase_self _ _
    · rw [if_neg (by simpa using hk)]
      exact (Table.get?_erase_of_ne _ hk).trans (hinsert k)

omit h in
/-- A write never displaces the key that it writes. -/
theorem Puts.key_not_mem_gone : key ∉ gone := by
  cases hputs with
  | overwrites | adds => exact List.not_mem_nil
  | displaces hnew horder =>
    rw [List.mem_singleton]
    rintro rfl
    exact hnew (by rw [horder]; exact List.mem_cons_self)

/-- The order has afterwards what it had and the key that is written, without what is displaced. -/
theorem Puts.mem_order (k : K) : k ∈ s'.order ↔ k ∉ gone ∧ (k = key ∨ k ∈ s.order) := by
  have hkept := hputs.key_not_mem_gone
  cases hputs with
  | overwrites hold =>
    constructor
    · intro hk
      exact ⟨List.not_mem_nil, .inr hk⟩
    · rintro ⟨-, rfl | hk⟩
      · exact hold
      · exact hk
  | adds hnew hroom => simp [or_comm]
  | @displaces oldest rest hnew horder hfull =>
    have hnodup := h.nodup
    rw [horder, List.nodup_cons] at hnodup
    have hkey : key ≠ oldest := fun hsame => hkept (List.mem_singleton.mpr hsame)
    simp only [horder, List.mem_append, List.mem_cons, List.not_mem_nil, or_false]
    constructor
    · rintro (hk | rfl)
      · refine ⟨?_, .inr (.inr hk)⟩
        rintro rfl
        exact hnodup.1 hk
      · exact ⟨hkey, .inl rfl⟩
    · rintro ⟨hne, rfl | rfl | hk⟩
      · exact .inr rfl
      · exact absurd rfl hne
      · exact .inl hk

/-- A write leaves the store consistent. -/
theorem Puts.consistent : s'.Consistent := by
  have hget := hputs.get?_eq
  have hmem := hputs.mem_order h
  refine ⟨?_, ?_, ?_⟩
  · have hnodup := h.nodup
    cases hputs with
    | overwrites hold => exact hnodup
    | adds hnew hroom => exact nodup_concat hnodup hnew
    | displaces hnew horder hfull =>
      rw [horder, List.nodup_cons] at hnodup
      rw [horder, List.mem_cons, not_or] at hnew
      exact nodup_concat hnodup.2 hnew.2
  · intro k
    rw [hmem, hget, h.stored]
    by_cases hgone : k ∈ gone
    · simp [hgone]
    · by_cases hk : k = key
      · subst hk
        simp [hgone]
      · simp [hgone, hk]
  · have hfits := h.fits
    cases hputs with
    | overwrites hold => exact hfits
    | adds hnew hroom =>
      rw [List.length_append, List.length_singleton]
      exact hroom
    | displaces hnew horder hfull =>
      rw [horder, List.length_cons] at hfits
      rw [List.length_append, List.length_singleton]
      exact hfits

omit h in
/-- The latest keys after a write are those that the store has. -/
theorem Puts.latest_arrive {arrived : List K} (horder : s.order = latest s.capacity arrived) :
    s'.order = latest s.capacity (arrive s.capacity arrived (.put key entry)) := by
  rw [arrive]
  cases hputs with
  | overwrites hold =>
    rw [if_pos (horder ▸ hold)]
    exact horder
  | adds hnew hroom =>
    have hfits : (s.order ++ [key]).length ≤ s.capacity := by
      rw [List.length_append, List.length_singleton]
      omega
    rw [if_neg (horder ▸ hnew), latest_concat s.capacity_pos, ← horder, latest_of_length_le hfits]
  | @displaces oldest rest hnew hfirst hfull =>
    have hover : (s.order ++ [key]).length - s.capacity = 1 := by
      rw [List.length_append, List.length_singleton]
      omega
    rw [if_neg (horder ▸ hnew), latest_concat s.capacity_pos, ← horder, latest, hover, hfirst]
    rfl

end Puts

/-! ## Every history -/

/-- A store that has been used as a history says keeps the latest arrivals. -/
structure Follows (s : Bounded K V) (ops : List (Operation K V)) : Prop where
  consistent : s.Consistent
  order : s.order = latest s.capacity (arrivals s.capacity ops)
  entries : ∀ k, k ∈ s.order → s.get? k = lastWritten k ops

/-- A cleared store follows the history that ends with the clearing. -/
theorem follows_clear (s : Bounded K V) {op : Operation K V} (hop : op = .clear) :
    s.clear.Follows (ops ++ [op]) := by
  subst hop
  refine ⟨⟨List.nodup_nil, fun k => by simp [clear, get?], Nat.zero_le _⟩, ?_, ?_⟩
  · rw [arrivals_concat, arrive, latest_of_length_le (Nat.zero_le _)]
    rfl
  · intro k hk
    cases hk

/-- A store that follows a history follows it one write further. -/
theorem Follows.puts (h : s.Follows ops) (hputs : Puts s key entry (s', gone))
    (hcapacity : s'.capacity = s.capacity) : s'.Follows (ops ++ [.put key entry]) := by
  refine ⟨hputs.consistent h.consistent, ?_, ?_⟩
  · rw [hcapacity, arrivals_concat]
    exact hputs.latest_arrive h.order
  · intro k hk
    obtain ⟨hkept, hk⟩ := (hputs.mem_order h.consistent k).mp hk
    rw [hputs.get?_eq, if_neg hkept, lastWritten_put]
    by_cases hkey : k = key
    · subst hkey
      rw [Function.update_self, Function.update_self]
    · rw [Function.update_of_ne hkey, Function.update_of_ne hkey]
      exact h.entries k (hk.resolve_left hkey)

/-- A write does not change the capacity. -/
theorem capacity_put (s : Bounded K V) (key : K) (entry : Entry V) :
    (s.put key entry).1.capacity = s.capacity := by
  unfold put
  split <;> rfl

/-- A store that follows a history follows it one operation further. -/
theorem Follows.answer (h : s.Follows ops) (op : Operation K V) :
    (s.answer op).2.Follows (ops ++ [op]) := by
  cases op with
  | put key entry => exact h.puts (h.consistent.puts key entry) (s.capacity_put key entry)
  | clear => exact follows_clear s rfl
  | get key =>
    refine ⟨h.consistent, ?_, ?_⟩
    · rw [arrivals_concat]
      exact h.order
    · intro k hk
      rw [lastWritten_of_write?_eq_none rfl]
      exact h.entries k hk

/-- A new store follows the empty history. -/
theorem follows_nil (capacity : Nat) (hpos : 0 < capacity) :
    (ofCapacity capacity hpos : Bounded K V).Follows [] := by
  refine ⟨⟨List.nodup_nil, fun k => by simp [ofCapacity, get?], Nat.zero_le _⟩, ?_, ?_⟩
  · rw [arrivals, List.foldl_nil, latest_of_length_le (Nat.zero_le _)]
    rfl
  · intro k hk
    cases hk

/-- A new store follows every history that it is used by. -/
theorem follows_run (capacity : Nat) (hpos : 0 < capacity) (ops : List (Operation K V)) :
    ((ofCapacity capacity hpos).run ops).Follows ops := by
  induction ops using List.reverseRecOn with
  | nil => exact follows_nil capacity hpos
  | append_singleton ops op ih =>
    rw [run, List.foldl_append]
    exact ih.answer op

/-- No history changes the capacity. -/
theorem capacity_run (s : Bounded K V) (ops : List (Operation K V)) :
    (s.run ops).capacity = s.capacity := by
  induction ops generalizing s with
  | nil => rfl
  | cons op ops ih =>
    refine (ih (s.answer op).2).trans ?_
    cases op with
    | put key entry => exact s.capacity_put key entry
    | clear | get => rfl

/-! ## The latest arrivals -/

/-- What a store of a capacity shows after a history. -/
structure KeepsLatest (s : Bounded K V) (capacity : Nat) (ops : List (Operation K V)) : Prop where
  keys_eq : s.keys = latest capacity (arrivals capacity ops)
  size_eq : s.size = min capacity (arrivals capacity ops).length
  get?_eq : ∀ k, s.get? k = if k ∈ s.keys then lastWritten k ops else none
  stored : ∀ k, (s.get? k).isSome = true ↔ k ∈ s.keys
  /-- The keys that arrive are those that are written while they are not stored. -/
  arrives : ∀ key entry, arrivals capacity (ops ++ [Operation.put key entry]) =
    if (s.get? key).isSome = true then arrivals capacity ops else arrivals capacity ops ++ [key]

/-- What one write does to a store of a capacity: `s'` is the store afterwards, `gone` the keys that
the write displaces. -/
structure WritesLast (s : Bounded K V) (capacity : Nat) (key : K) (entry : Entry V)
    (s' : Bounded K V) (gone : List K) : Prop where
  readable : s'.get? key = some entry
  overwrites : key ∈ s.keys → s'.keys = s.keys ∧ gone = []
  adds : key ∉ s.keys → s.size < capacity → s'.keys = s.keys ++ [key] ∧ gone = []
  /-- A full store gives up its oldest key and no other. -/
  displaces : key ∉ s.keys → s.size = capacity → ∃ oldest rest, s.keys = oldest :: rest ∧
    s'.keys = rest ++ [key] ∧ gone = [oldest] ∧ s'.get? oldest = none
  others : ∀ k, k ≠ key → k ∉ gone → s'.get? k = s.get? k

/-- A store that follows a history shows the latest arrivals of it, with what was last written for
them. -/
theorem Follows.keepsLatest (h : s.Follows ops) : s.KeepsLatest s.capacity ops := by
  have hstored : ∀ k, (s.get? k).isSome = true ↔ k ∈ s.order := fun k =>
    (h.consistent.stored k).symm
  refine ⟨h.order, ?_, ?_, hstored, ?_⟩
  · rw [size, h.order, length_latest]
  · intro k
    by_cases hk : k ∈ s.order
    · rw [keys, if_pos hk]
      exact h.entries k hk
    · rw [keys, if_neg hk, ← Option.not_isSome_iff_eq_none, hstored]
      exact hk
  · intro key entry
    rw [arrivals_concat, arrive, ← h.order]
    simp only [hstored]

/-- A write stores its entry and displaces nothing else than the oldest of the latest arrivals. -/
theorem Puts.writesLast (hputs : Puts s key entry (s', gone)) :
    s.WritesLast s.capacity key entry s' gone := by
  have hget := hputs.get?_eq
  refine ⟨?_, ?_, ?_, ?_, ?_⟩
  · rw [hget, if_neg hputs.key_not_mem_gone, Function.update_self]
  · intro hold
    cases hputs with
    | overwrites => exact ⟨rfl, rfl⟩
    | adds hnew | displaces hnew => exact absurd hold hnew
  · intro hnew hroom
    cases hputs with
    | overwrites hold => exact absurd hold hnew
    | adds => exact ⟨rfl, rfl⟩
    | displaces _ _ hfull => exact absurd hfull (Nat.ne_of_lt hroom)
  · intro hnew hfull
    cases hputs with
    | overwrites hold => exact absurd hold hnew
    | adds _ hroom => exact absurd hfull (Nat.ne_of_lt hroom)
    | @displaces oldest rest _ horder =>
      refine ⟨oldest, rest, horder, rfl, rfl, ?_⟩
      rw [hget, if_pos (List.mem_singleton_self oldest)]
  · intro k hk hkept
    rw [hget, if_neg hkept, Function.update_of_ne hk]

/-- A store of a capacity tells after every history which keys have arrived latest, and what was
last written for them. -/
theorem run_keeps_latest (capacity : Nat) (hpos : 0 < capacity) (ops : List (Operation K V)) :
    let s : Bounded K V := (ofCapacity capacity hpos).run ops
    s.KeepsLatest capacity ops ∧
      (∀ key entry, s.WritesLast capacity key entry (s.put key entry).1 (s.put key entry).2) ∧
      (∀ key, s.answer (.get key) = (s.get? key, s)) ∧
      s.clear.keys = [] ∧ ∀ key, s.clear.get? key = none := by
  intro s
  have hfollows : s.Follows ops := follows_run capacity hpos ops
  have hcapacity : s.capacity = capacity := capacity_run _ ops
  refine ⟨hcapacity ▸ hfollows.keepsLatest, ?_, fun _ => rfl, rfl, ?_⟩
  · intro key entry
    have hputs := hfollows.consistent.puts key entry
    exact hcapacity ▸ hputs.writesLast
  · intro key
    simp [clear, get?]

/-- A history in which a key is overwritten, displaced and written again. -/
def returning : List (Operation String Nat) :=
  [.put "a" (.unstamped 1), .put "b" (.unstamped 2), .put "a" (.unstamped 3),
    .put "c" (.unstamped 4), .get "b", .put "a" (.unstamped 5)]

theorem run_keeps_latest_returning :
    0 < 2 ∧ arrivals 2 returning = ["a", "b", "c", "a"] ∧
      let s : Bounded String Nat := (ofCapacity 2 Nat.two_pos).run returning
      s.keys = ["c", "a"] ∧ s.get? "a" = some (.unstamped 5) ∧ s.get? "b" = none ∧
      (s.put "d" (.unstamped 6)).2 = ["c"] ∧ s.KeepsLatest 2 returning ∧
      ∀ key entry, s.WritesLast 2 key entry (s.put key entry).1 (s.put key entry).2 := by
  obtain ⟨hkeeps, hwrites, -⟩ := run_keeps_latest 2 Nat.two_pos returning
  exact ⟨by decide, by decide, by decide, by decide, by decide, by decide, hkeeps, hwrites⟩

end Bounded

end ReadThrough
