/-!
# Tables

A finite map from keys to values, kept as the list of its pairs in the order in which the keys
were first inserted. Overwriting a key keeps its place, so that whatever is read off a table in
order does not depend on how often its keys were written.

Main statements: a lookup after an insertion or a removal answers by the written key alone
(`get?_insert_self`, `get?_insert_of_ne`, `get?_erase_self`, `get?_erase_of_ne`).
-/

namespace ReadThrough

/-- A finite map from `K` to `V`. -/
structure Table (K V : Type) where
  /-- The pairs, oldest key first. -/
  pairs : List (K × V)
  /-- There is one pair per key. -/
  distinct : (pairs.map (·.1)).Nodup

namespace Table

variable {K V : Type}

/-- The table without keys. -/
def empty : Table K V := ⟨[], List.nodup_nil⟩

instance : Inhabited (Table K V) := ⟨empty⟩

/-- How many keys the table has. -/
def size (t : Table K V) : Nat := t.pairs.length

/-- How many of the values `chosen` picks. -/
def count (t : Table K V) (chosen : V → Bool) : Nat := t.pairs.countP (chosen ·.2)

/-- The keys, oldest first. -/
def keys (t : Table K V) : List K := t.pairs.map (·.1)

/-- The values, in the order of their keys. -/
def values (t : Table K V) : List V := t.pairs.map (·.2)

/-- Puts a key into a list ordered by `le`, in front of the keys that it does not exceed. -/
def place (le : K → K → Bool) (k : K) : List K → List K
  | [] => [k]
  | k' :: rest => if le k k' then k :: k' :: rest else k' :: place le k rest

/-- The keys of the values that `chosen` picks, ordered by `le`. -/
def keysWhere (t : Table K V) (le : K → K → Bool) (chosen : V → Bool) : List K :=
  ((t.pairs.filter (chosen ·.2)).map (·.1)).foldr (place le) []

variable [DecidableEq K]

/-- The value of the first pair with key `k`. -/
def find (k : K) : List (K × V) → Option V
  | [] => none
  | (k', v) :: rest => if k' = k then some v else find k rest

/-- Overwrites the first pair with key `k`, or adds one at the end. -/
def write (k : K) (v : V) : List (K × V) → List (K × V)
  | [] => [(k, v)]
  | (k', v') :: rest => if k' = k then (k, v) :: rest else (k', v') :: write k v rest

/-- The value stored for `k`. -/
def get? (t : Table K V) (k : K) : Option V := find k t.pairs

/-- Whether the table has a value for `k`. -/
def contains (t : Table K V) (k : K) : Bool := (t.get? k).isSome

/-- Writing adds no key but the written one. -/
theorem mem_keys_write {k k' : K} {v : V} {pairs : List (K × V)}
    (h : k' ∈ (write k v pairs).map (·.1)) : k' = k ∨ k' ∈ pairs.map (·.1) := by
  induction pairs with
  | nil => exact .inl (by simpa [write] using h)
  | cons p rest ih =>
    simp only [write] at h
    split at h
    · rw [List.map_cons, List.mem_cons] at h ⊢
      exact h.imp id .inr
    · rw [List.map_cons, List.mem_cons] at h ⊢
      rcases h with h | h
      · exact .inr (.inl h)
      · exact (ih h).imp id .inr

/-- Writing keeps one pair per key. -/
theorem nodup_keys_write {k : K} {v : V} {pairs : List (K × V)} (h : (pairs.map (·.1)).Nodup) :
    ((write k v pairs).map (·.1)).Nodup := by
  induction pairs with
  | nil => exact List.nodup_cons.mpr ⟨List.not_mem_nil, List.nodup_nil⟩
  | cons p rest ih =>
    rw [List.map_cons, List.nodup_cons] at h
    simp only [write]
    split
    · rename_i hp
      rw [List.map_cons, List.nodup_cons]
      exact hp ▸ h
    · rename_i hp
      rw [List.map_cons, List.nodup_cons]
      exact ⟨fun hm => (mem_keys_write hm).elim hp h.1, ih h.2⟩

/-- Stores `v` for `k`: a known key keeps its place, a new one comes last. -/
def insert (t : Table K V) (k : K) (v : V) : Table K V :=
  ⟨write k v t.pairs, nodup_keys_write t.distinct⟩

/-- Forgets `k`. -/
def erase (t : Table K V) (k : K) : Table K V :=
  ⟨t.pairs.filter (·.1 ≠ k), t.distinct.sublist (List.filter_sublist.map _)⟩

/-- The table of a list of pairs; of two pairs with one key the later value stays. -/
def ofList (pairs : List (K × V)) : Table K V :=
  pairs.foldl (fun t p => t.insert p.1 p.2) empty

/-! ## Lookups after each operation -/

@[simp] theorem get?_empty (k : K) : (empty : Table K V).get? k = none := rfl

/-- A pair that was written is found. -/
theorem find_write_self (k : K) (v : V) (pairs : List (K × V)) :
    find k (write k v pairs) = some v := by
  induction pairs with
  | nil => simp [write, find]
  | cons p rest ih =>
    by_cases h : p.1 = k
    · simp [write, find, h]
    · simp [write, find, h, ih]

/-- Writing a pair leaves other keys as they are. -/
theorem find_write_of_ne {k k' : K} (v : V) (h : k' ≠ k) (pairs : List (K × V)) :
    find k' (write k v pairs) = find k' pairs := by
  induction pairs with
  | nil => simp [write, find, h.symm]
  | cons p rest ih =>
    by_cases hp : p.1 = k
    · subst hp; simp [write, find, h.symm]
    · by_cases hp' : p.1 = k'
      · subst hp'; simp [write, find, hp]
      · simp [write, find, hp, hp', ih]

/-- A key whose pairs were taken out is not found. -/
theorem find_filter_self (k : K) (pairs : List (K × V)) :
    find k (pairs.filter (·.1 ≠ k)) = none := by
  induction pairs with
  | nil => rfl
  | cons p rest ih => by_cases h : p.1 = k <;> simp_all [find]

/-- Taking out the pairs of a key leaves other keys as they are. -/
theorem find_filter_of_ne {k k' : K} (h : k' ≠ k) (pairs : List (K × V)) :
    find k' (pairs.filter (·.1 ≠ k)) = find k' pairs := by
  induction pairs with
  | nil => rfl
  | cons p rest ih =>
    by_cases hp : p.1 = k
    · subst hp; simp_all [find, h.symm]
    · by_cases hp' : p.1 = k' <;> simp_all [find]

@[simp] theorem get?_insert_self (t : Table K V) (k : K) (v : V) :
    (t.insert k v).get? k = some v := find_write_self k v t.pairs

theorem get?_insert_of_ne (t : Table K V) {k k' : K} (v : V) (h : k' ≠ k) :
    (t.insert k v).get? k' = t.get? k' := find_write_of_ne v h t.pairs

@[simp] theorem get?_erase_self (t : Table K V) (k : K) : (t.erase k).get? k = none :=
  find_filter_self k t.pairs

theorem get?_erase_of_ne (t : Table K V) {k k' : K} (h : k' ≠ k) :
    (t.erase k).get? k' = t.get? k' := find_filter_of_ne h t.pairs

/-- If no key occurs twice, what is found is what is in the list. -/
theorem find_eq_some_iff {k : K} {v : V} {pairs : List (K × V)} (hd : (pairs.map (·.1)).Nodup) :
    find k pairs = some v ↔ (k, v) ∈ pairs := by
  induction pairs with
  | nil => simp [find]
  | cons p rest ih =>
    rw [List.map_cons, List.nodup_cons] at hd
    by_cases hp : p.1 = k
    · have hk : (k, v) ∉ rest := fun hm => hd.1 (List.mem_map.mpr ⟨(k, v), hm, hp.symm⟩)
      obtain ⟨k', v'⟩ := p
      subst hp
      simp [find, hk, eq_comm]
    · have hne : (k, v) ≠ p := fun h => hp (by rw [← h])
      simp only [find, hp, if_false, List.mem_cons, hne, false_or]
      exact ih hd.2

/-- A key is found with exactly the value of its pair. -/
theorem get?_eq_some_iff (t : Table K V) {k : K} {v : V} :
    t.get? k = some v ↔ (k, v) ∈ t.pairs := find_eq_some_iff t.distinct

omit [DecidableEq K] in
/-- To place a key in the order adds this key and no other. -/
theorem mem_place {le : K → K → Bool} {k k' : K} {ks : List K} :
    k' ∈ place le k ks ↔ k' = k ∨ k' ∈ ks := by
  induction ks with
  | nil => simp [place]
  | cons first rest ih =>
    simp only [place]
    split
    · exact List.mem_cons
    · rw [List.mem_cons, ih, List.mem_cons]
      exact or_left_comm

omit [DecidableEq K] in
theorem mem_foldr_place {le : K → K → Bool} {k : K} {ks : List K} :
    k ∈ ks.foldr (place le) [] ↔ k ∈ ks := by
  induction ks with
  | nil => exact Iff.rfl
  | cons first rest ih => rw [List.foldr_cons, mem_place, ih, List.mem_cons]

/-- The keys of the values that are picked are in the list. -/
theorem mem_keysWhere (t : Table K V) {le : K → K → Bool} {chosen : V → Bool} {k : K} {v : V}
    (hget : t.get? k = some v) (hv : chosen v = true) : k ∈ t.keysWhere le chosen :=
  mem_foldr_place.mpr
    (List.mem_map.mpr ⟨(k, v), List.mem_filter.mpr ⟨t.get?_eq_some_iff.mp hget, hv⟩, rfl⟩)

/-- No other keys are in the list. -/
theorem exists_of_mem_keysWhere (t : Table K V) {le : K → K → Bool} {chosen : V → Bool} {k : K}
    (h : k ∈ t.keysWhere le chosen) : ∃ v, t.get? k = some v ∧ chosen v = true := by
  obtain ⟨⟨_, v⟩, hmem, rfl⟩ := List.mem_map.mp (mem_foldr_place.mp h)
  obtain ⟨hpair, hv⟩ := List.mem_filter.mp hmem
  exact ⟨v, t.get?_eq_some_iff.mpr hpair, hv⟩

/-! ## Removals among other operations -/

omit [DecidableEq K] in
/-- A table is no more than its pairs. -/
theorem eq_of_pairs {t t' : Table K V} (h : t.pairs = t'.pairs) : t = t' := by
  cases t
  cases t'
  cases h
  rfl

theorem filter_write {k k' : K} (v : V) (h : k ≠ k') (pairs : List (K × V)) :
    (write k v pairs).filter (·.1 ≠ k') = write k v (pairs.filter (·.1 ≠ k')) := by
  induction pairs with
  | nil => simp [write, h]
  | cons p rest ih =>
    by_cases hp : p.1 = k
    · subst hp
      simp [write, h]
    · by_cases hp' : p.1 = k'
      · subst hp'
        simpa [write, hp] using ih
      · simpa [write, hp, hp'] using ih

/-- What is done to different keys can be done in either order. -/
theorem erase_insert_of_ne (t : Table K V) {k k' : K} (v : V) (h : k ≠ k') :
    (t.insert k v).erase k' = (t.erase k').insert k v :=
  eq_of_pairs (filter_write v h t.pairs)

theorem erase_comm (t : Table K V) (k k' : K) : (t.erase k).erase k' = (t.erase k').erase k := by
  refine eq_of_pairs ?_
  simp only [erase, List.filter_filter, Bool.and_comm]

/-- The removal of a value that is not picked leaves the picked keys as they are. -/
theorem keysWhere_erase (t : Table K V) (le : K → K → Bool) {chosen : V → Bool} {k : K}
    (h : ∀ v, t.get? k = some v → chosen v = false) :
    (t.erase k).keysWhere le chosen = t.keysWhere le chosen := by
  have hfilter : (t.erase k).pairs.filter (chosen ·.2) = t.pairs.filter (chosen ·.2) := by
    rw [erase, List.filter_filter]
    refine List.filter_congr fun p hp => ?_
    by_cases hk : p.1 = k
    · have hv := h p.2 (hk ▸ t.get?_eq_some_iff.mpr hp)
      rw [hv, Bool.false_and]
    · simp [hk]
  rw [keysWhere, hfilter, keysWhere]

/-! ## The pairs and values after each operation -/

/-- A key of the first pair is in no other. -/
theorem filter_tail {p : K × V} {rest : List (K × V)} (hd : ((p :: rest).map (·.1)).Nodup) :
    rest.filter (·.1 ≠ p.1) = rest := by
  rw [List.map_cons, List.nodup_cons] at hd
  refine List.filter_eq_self.mpr fun q hq => ?_
  have hne : q.1 ≠ p.1 := fun h => hd.1 (List.mem_map.mpr ⟨q, hq, h⟩)
  simpa using hne

/-- The pairs are that of a key, if it has one, and those of the other keys. -/
theorem perm_pairs (t : Table K V) (k : K) :
    t.pairs.Perm ((t.get? k).toList.map (k, ·) ++ (t.erase k).pairs) := by
  suffices h : ∀ pairs : List (K × V), (pairs.map (·.1)).Nodup →
      pairs.Perm ((find k pairs).toList.map (k, ·) ++ pairs.filter (·.1 ≠ k)) from
    h t.pairs t.distinct
  intro pairs
  induction pairs with
  | nil => exact fun _ => .refl _
  | cons p rest ih =>
    intro hd
    by_cases hp : p.1 = k
    · subst hp
      rw [List.filter_cons_of_neg (by simp), filter_tail hd]
      simp only [find, if_true, Option.toList_some, List.map_singleton, List.singleton_append]
      exact .refl _
    · rw [List.filter_cons_of_pos (by simpa using hp)]
      simp only [find, hp, if_false]
      exact ((ih hd.tail).cons p).trans List.perm_middle.symm

/-- A key that is inserted takes the place of its former pair. -/
theorem perm_pairs_insert (t : Table K V) (k : K) (v : V) :
    (t.insert k v).pairs.Perm ((k, v) :: (t.erase k).pairs) := by
  suffices h : ∀ pairs : List (K × V), (pairs.map (·.1)).Nodup →
      (write k v pairs).Perm ((k, v) :: pairs.filter (·.1 ≠ k)) from
    h t.pairs t.distinct
  intro pairs
  induction pairs with
  | nil => exact fun _ => .refl _
  | cons p rest ih =>
    intro hd
    by_cases hp : p.1 = k
    · subst hp
      rw [List.filter_cons_of_neg (by simp), filter_tail hd]
      simp only [write, if_true]
      exact .refl _
    · rw [List.filter_cons_of_pos (by simpa using hp)]
      simp only [write, hp, if_false]
      exact ((ih hd.tail).cons p).trans (.swap (k, v) p _)

/-- The values are that of a key, if it has one, and those of the other keys. -/
theorem perm_values (t : Table K V) (k : K) :
    t.values.Perm ((t.get? k).toList ++ (t.erase k).values) := by
  have hperm := (t.perm_pairs k).map (·.2)
  rw [List.map_append, List.map_map] at hperm
  have hsame : ((·.2) ∘ (k, ·) : V → V) = id := rfl
  rwa [hsame, List.map_id] at hperm

/-- A value that is inserted takes the place of the former value of its key. -/
theorem perm_values_insert (t : Table K V) (k : K) (v : V) :
    (t.insert k v).values.Perm (v :: (t.erase k).values) :=
  (t.perm_pairs_insert k v).map Prod.snd

omit [DecidableEq K] in
/-- Counting over the pairs is counting over the values. -/
theorem count_eq (t : Table K V) (chosen : V → Bool) :
    t.count chosen = t.values.countP chosen := List.countP_map.symm

/-- Whether `chosen` picks the value of a key, as a number. -/
def weight (t : Table K V) (k : K) (chosen : V → Bool) : Nat :=
  if (t.get? k).any chosen then 1 else 0

/-- A removal takes the value of its key out of the count. -/
theorem count_erase (t : Table K V) (k : K) (chosen : V → Bool) :
    (t.erase k).count chosen + t.weight k chosen = t.count chosen := by
  rw [count_eq, count_eq, (t.perm_values k).countP_eq, List.countP_append, weight]
  cases t.get? k with
  | none => simp
  | some v => simp [List.countP_cons, Nat.add_comm]

/-- An insertion takes the old value of its key out of the count and the new one in. -/
theorem count_insert (t : Table K V) (k : K) (v : V) (chosen : V → Bool) :
    (t.insert k v).count chosen + t.weight k chosen =
      t.count chosen + (if chosen v then 1 else 0) := by
  have hinsert : (t.insert k v).count chosen =
      (t.erase k).count chosen + if chosen v then 1 else 0 := by
    rw [count_eq, count_eq, (t.perm_values_insert k v).countP_eq, List.countP_cons]
  have herase := t.count_erase k chosen
  omega

/-- A value that is found and picked is counted. -/
theorem count_pos (t : Table K V) {k : K} {v : V} {chosen : V → Bool} (h : t.get? k = some v)
    (hv : chosen v = true) : 0 < t.count chosen :=
  List.countP_pos_iff.mpr ⟨(k, v), t.get?_eq_some_iff.mp h, hv⟩

/-- If any picked value is counted, one is found. -/
theorem exists_of_count_pos (t : Table K V) {chosen : V → Bool} (h : 0 < t.count chosen) :
    ∃ k v, t.get? k = some v ∧ chosen v = true := by
  obtain ⟨⟨k, v⟩, hm, hv⟩ := List.countP_pos_iff.mp h
  exact ⟨k, v, t.get?_eq_some_iff.mpr hm, hv⟩

end Table

end ReadThrough
