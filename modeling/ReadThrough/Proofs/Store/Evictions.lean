import Mathlib.Data.Set.Card
import ReadThrough.Store
import ReadThrough.Proofs.Store.Arrivals
/-!
# Proofs: a write evicts at most once

The loop that makes room in a bounded store could take several keys away, could find no key to take,
and could take one that has no entry. It is followed here turn by turn (`turns`, `evict_eq`): in a
store that has been used in any way at all it takes at most one turn that removes a key, which is
stored and is not the key just written, and then there is room. So the order and the entries never
part, and what the store tells from its order alone is what can be read from it (`run_evicts_once`).
-/

namespace ReadThrough

namespace Bounded

variable {K V : Type}

/-! ## The loop turn by turn -/

/-- What one turn of the loop comes to. -/
inductive Turn (K : Type) where
  /-- There is room enough, and the loop ends. -/
  | rests
  /-- There is too little room, and no key to take away: the loop is left. -/
  | breaks
  /-- The oldest key is taken away, whether or not it has an entry. -/
  | removes (oldest : K) (stored : Bool)
  deriving DecidableEq

/-- The key that a turn takes away. -/
def Turn.removed? : Turn K → Option K
  | .removes oldest _ => some oldest
  | .rests | .breaks => none

/-- The keys that some turns take away, in order. -/
def removals (turns : List (Turn K)) : List K := turns.filterMap Turn.removed?

variable {s : Bounded K V} {key : K} {entry : Entry V}

/-- The turns of a write, by what the write does. -/
inductive Turns (s : Bounded K V) (key : K) : List (Turn K) → Prop where
  | overwrites (hold : key ∈ s.order) : Turns s key []
  | adds (hnew : key ∉ s.order) : Turns s key [.rests]
  | displaces {oldest : K} (hold : oldest ∈ s.order) (hnew : key ∉ s.order) :
      Turns s key [.removes oldest true, .rests]

/-- A write takes at most one key away. -/
theorem Turns.length_removals_le {taken : List (Turn K)} (h : Turns s key taken) :
    (removals taken).length ≤ 1 := by
  cases h with
  | overwrites | adds => exact Nat.zero_le 1
  | displaces => exact Nat.le_refl 1

/-- The loop of a write never finds the order empty. -/
theorem Turns.never_breaks {taken : List (Turn K)} (h : Turns s key taken) :
    .breaks ∉ taken := by
  cases h <;> simp

/-- The key that a write takes away is stored. -/
theorem Turns.always_stored {taken : List (Turn K)} (h : Turns s key taken) {oldest : K}
    {stored : Bool} (hmem : .removes oldest stored ∈ taken) : stored = true := by
  cases h with
  | overwrites => cases hmem
  | adds => simp at hmem
  | displaces =>
    simp only [List.mem_cons, Turn.removes.injEq, reduceCtorEq, List.not_mem_nil, or_false] at hmem
    exact hmem.2

variable [DecidableEq K]

/-- The turns of the loop that takes keys from the front of the order. -/
def turns (capacity : Nat) : List K → Table K (Entry V) → List (Turn K)
  | [], _ => if capacity < ([] : List K).length then [.breaks] else [.rests]
  | oldest :: rest, entries =>
    if capacity < (oldest :: rest).length then
      .removes oldest (entries.contains oldest) :: turns capacity rest (entries.erase oldest)
    else [.rests]

/-- The order with the key of a write in it. -/
def pushed (s : Bounded K V) (key : K) : List K :=
  if s.entries.contains key then s.order else s.order ++ [key]

/-- The turns that a write takes: none if its key is stored. -/
def putTurns (s : Bounded K V) (key : K) (entry : Entry V) : List (Turn K) :=
  if s.entries.contains key then []
  else turns s.capacity (s.pushed key) (s.entries.insert key entry)

/-- What the loop leaves is what its turns leave. -/
theorem evict_eq (capacity : Nat) (order : List K) (entries : Table K (Entry V)) :
    evict capacity order entries =
      (order.drop (removals (turns capacity order entries)).length,
        (removals (turns capacity order entries)).foldl Table.erase entries,
        removals (turns capacity order entries)) := by
  induction order generalizing entries with
  | nil => rfl
  | cons oldest rest ih =>
    unfold evict turns
    by_cases hover : capacity < (oldest :: rest).length
    · rw [if_pos hover, if_pos hover, ih]
      rfl
    · rw [if_neg hover, if_neg hover]
      rfl

/-- The loop rests at once when there is room. -/
theorem turns_of_length_le {capacity : Nat} {order : List K} (h : order.length ≤ capacity)
    (entries : Table K (Entry V)) : turns capacity order entries = [.rests] := by
  cases order with
  | nil => rfl
  | cons oldest rest =>
    unfold turns
    rw [if_neg (by omega)]

/-- The key that a full store gives up is stored, and there is room without it. -/
theorem turns_of_full {capacity : Nat} {oldest : K} {rest : List K} {entries : Table K (Entry V)}
    (hfull : rest.length = capacity) (hstored : entries.contains oldest = true) :
    turns capacity (oldest :: rest) entries = [.removes oldest true, .rests] := by
  have hover : capacity < (oldest :: rest).length := by
    rw [List.length_cons]
    omega
  unfold turns
  rw [if_pos hover, turns_of_length_le (Nat.le_of_eq hfull), hstored]

/-- A write is the insertion of its key and what its turns take away. -/
theorem put_eq (s : Bounded K V) (key : K) (entry : Entry V) :
    s.put key entry =
      ({ s with
          order := (s.pushed key).drop (removals (s.putTurns key entry)).length
          entries :=
            (removals (s.putTurns key entry)).foldl Table.erase (s.entries.insert key entry) },
        removals (s.putTurns key entry)) := by
  unfold put putTurns pushed
  by_cases hcontains : s.entries.contains key = true
  · simp only [if_pos hcontains]
    rfl
  · simp only [if_neg hcontains, evict_eq]

/-- A key has an entry exactly if it is in the order. -/
theorem Consistent.contains_iff (h : s.Consistent) (k : K) :
    s.entries.contains k = true ↔ k ∈ s.order := (h.stored k).symm

/-- In a store whose parts agree, a write finds a key to take away when it needs one, and finds its
entry too. -/
theorem Consistent.turns (h : s.Consistent) (key : K) (entry : Entry V) :
    Turns s key (s.putTurns key entry) := by
  unfold putTurns pushed
  by_cases hold : key ∈ s.order
  · rw [if_pos ((h.contains_iff key).mpr hold)]
    exact .overwrites hold
  · have hnew : ¬ s.entries.contains key = true := by
      rw [h.contains_iff]
      exact hold
    rw [if_neg hnew, if_neg hnew]
    by_cases hroom : s.order.length < s.capacity
    · have hfits : (s.order ++ [key]).length ≤ s.capacity := by
        rw [List.length_append, List.length_singleton]
        omega
      rw [turns_of_length_le hfits]
      exact .adds hold
    · have hfull : s.order.length = s.capacity := Nat.le_antisymm h.fits (Nat.le_of_not_lt hroom)
      -- There is room for a key at least, so that a full order is not empty.
      cases horder : s.order with
      | nil =>
        have hpos := s.capacity_pos
        rw [horder, List.length_nil] at hfull
        omega
      | cons oldest rest =>
        have holdest : oldest ∈ s.order := by
          rw [horder]
          exact List.mem_cons_self
        have hne : oldest ≠ key := by
          rintro rfl
          exact hold holdest
        have hlength : (rest ++ [key]).length = s.capacity := by
          rw [← hfull, horder, List.length_append, List.length_singleton, List.length_cons]
        have hstored : (s.entries.insert key entry).contains oldest = true := by
          unfold Table.contains
          rw [Table.get?_insert_of_ne _ _ hne]
          exact (h.stored oldest).mp holdest
        rw [List.cons_append, turns_of_full hlength hstored]
        exact .displaces holdest hold

/-! ## What is told and what is read -/

/-- The order and the entries have the same keys, and what the store tells about its size is what
can be read from it. -/
structure Tallies (s : Bounded K V) (capacity : Nat) : Prop where
  nodup : s.order.Nodup
  keys : ∀ k, k ∈ s.order ↔ k ∈ s.entries.keys
  fits : s.order.length ≤ capacity
  size : ∃ n : Nat, (Store.bounded s).size? = some n ∧
    {k | (s.get? k).isSome = true}.encard = n
  isEmpty : (Store.bounded s).isEmpty? = some true ↔ ∀ k, s.get? k = none
  notEmpty : (Store.bounded s).isEmpty? = some false ↔ ∃ k entry, s.get? k = some entry

/-- As many keys have an entry as the order has. -/
theorem Consistent.encard_eq (h : s.Consistent) :
    {k | (s.get? k).isSome = true}.encard = s.order.length := by
  have hset : {k | (s.get? k).isSome = true} = (s.order.toFinset : Set K) := by
    ext k
    rw [Set.mem_ofPred_eq, Finset.mem_coe, List.mem_toFinset, h.stored]
  rw [hset, Set.encard_coe_eq_coe_finsetCard, List.toFinset_card_of_nodup h.nodup]

/-- The order is empty exactly if nothing is stored. -/
theorem Consistent.order_eq_nil_iff (h : s.Consistent) :
    s.order = [] ↔ ∀ k, s.get? k = none := by
  rw [List.eq_nil_iff_forall_not_mem]
  refine forall_congr' fun k => ?_
  rw [h.stored, Option.not_isSome_iff_eq_none]

/-- The tallies of a consistent store agree. -/
theorem Consistent.tallies (h : s.Consistent) : s.Tallies s.capacity := by
  have hempty : (Store.bounded s).isEmpty? = some (s.order.length == 0) := rfl
  refine ⟨h.nodup, fun k => ?_, h.fits, ⟨s.order.length, rfl, h.encard_eq⟩, ?_, ?_⟩
  · rw [h.stored, Option.isSome_iff_exists]
    unfold Table.keys
    rw [List.mem_map]
    constructor
    · rintro ⟨entry, hget⟩
      exact ⟨(k, entry), s.entries.get?_eq_some_iff.mp hget, rfl⟩
    · rintro ⟨⟨_, entry⟩, hmem, rfl⟩
      exact ⟨entry, s.entries.get?_eq_some_iff.mpr hmem⟩
  · rw [← h.order_eq_nil_iff, hempty, Option.some.injEq, beq_iff_eq, List.length_eq_zero_iff]
  · rw [hempty, Option.some.injEq, beq_eq_false_iff_ne, ne_eq, List.length_eq_zero_iff,
      h.order_eq_nil_iff, not_forall]
    exact exists_congr fun k => Option.ne_none_iff_exists'

/-! ## Every history -/

/-- One write to a store of a capacity: the parts of the store go on to agree, the loop removes at
most one key, and takes neither of the turns that it would take if they did not agree. -/
structure EvictsOnce (s : Bounded K V) (capacity : Nat) (key : K) (entry : Entry V) : Prop where
  tallies : (s.put key entry).1.Tallies capacity
  gone_eq : (s.put key entry).2 = removals (s.putTurns key entry)
  once : (s.put key entry).2.length ≤ 1
  spares : key ∉ (s.put key entry).2
  never_breaks : .breaks ∉ s.putTurns key entry
  always_stored : ∀ oldest stored, .removes oldest stored ∈ s.putTurns key entry → stored = true

/-- A write to a consistent store takes at most one key away, never its own, and the unreachable
turns are not taken. -/
theorem Consistent.evictsOnce (h : s.Consistent) (key : K) (entry : Entry V) :
    s.EvictsOnce s.capacity key entry := by
  have hputs : s.Puts key entry (s.put key entry) := h.puts key entry
  have hafter : (s.put key entry).1.Consistent := Puts.consistent h hputs
  have hgone : (s.put key entry).2 = removals (s.putTurns key entry) := by rw [put_eq]
  have hturns : Turns s key (s.putTurns key entry) := h.turns key entry
  refine ⟨?_, hgone, ?_, hputs.key_not_mem_gone, hturns.never_breaks,
    fun _ _ => hturns.always_stored⟩
  · rw [← s.capacity_put key entry]
    exact hafter.tallies
  · rw [hgone]
    exact hturns.length_removals_le

/-- In every store that has been put to any use its parts agree, and whatever is written next, at
most one key has to go: one that is stored, and not the one that is written. -/
theorem run_evicts_once (capacity : Nat) (hpos : 0 < capacity) (ops : List (Operation K V)) :
    let s : Bounded K V := (ofCapacity capacity hpos).run ops
    s.Tallies capacity ∧ ∀ key entry, s.EvictsOnce capacity key entry := by
  intro s
  have hconsistent : s.Consistent := (follows_run capacity hpos ops).consistent
  have hcapacity : s.capacity = capacity := capacity_run _ ops
  rw [← hcapacity]
  exact ⟨hconsistent.tallies, hconsistent.evictsOnce⟩

/-- A full store gives up its oldest key in the first turn and rests in the second. -/
theorem run_evicts_once_full :
    0 < 2 ∧
      let s : Bounded String Nat := (ofCapacity 2 Nat.two_pos).run returning
      s.keys = ["c", "a"] ∧
      s.putTurns "d" (.unstamped 6) = [.removes "c" true, .rests] ∧
      s.putTurns "a" (.unstamped 6) = [] ∧
      s.Tallies 2 ∧ ∀ key entry, s.EvictsOnce 2 key entry :=
  ⟨by decide, by decide, by decide, by decide, run_evicts_once 2 Nat.two_pos returning⟩

end Bounded

end ReadThrough
