import Mathlib.Data.List.Perm.Basic
import Mathlib.Data.String.Basic
import Mathlib.Logic.Function.Basic
import ReadThrough.Table
/-!
# Proofs: a write, and the order of the names

A write changes what a table has for one key (`Table.get?_insert`).

The names of the values that are picked from a table come in their own order, whatever the order in
which they were first written: they are the same in two tables that have these values under the same
names (`Table.keysWhere_congr`), and one more name comes in its place among them
(`Table.keysWhere_place`).
-/

namespace ReadThrough

namespace Table

variable {K W W' : Type}

/-- As a function of the keys, a table is updated at one of them. -/
theorem get?_insert [DecidableEq K] (t : Table K W) (k : K) (v : W) :
    (t.insert k v).get? = Function.update t.get? k (some v) := by
  funext k'
  by_cases hk : k' = k
  · rw [hk, get?_insert_self, Function.update_self]
  · rw [get?_insert_of_ne _ _ hk, Function.update_of_ne hk]

/-- The order in which two keys are put into a list does not matter. -/
theorem place_comm {le : K → K → Bool} (htotal : ∀ a b, le a b = true ∨ le b a = true)
    (hantisymm : ∀ {a b}, le a b = true → le b a = true → a = b)
    (htrans : ∀ {a b c}, le a b = true → le b c = true → le a c = true) (a b : K) (keys : List K) :
    place le a (place le b keys) = place le b (place le a keys) := by
  induction keys with
  | nil => grind [place]
  | cons c rest ih => grind [place]

/-- A key is picked exactly if it has a value that is chosen. -/
theorem mem_picked [DecidableEq K] (t : Table K W) (chosen : W → Bool) (k : K) :
    k ∈ (t.pairs.filter (chosen ·.2)).map (·.1) ↔ (t.get? k).any chosen = true := by
  constructor
  · intro hk
    obtain ⟨⟨_, v⟩, hmem, rfl⟩ := List.mem_map.mp hk
    obtain ⟨hpair, hv⟩ := List.mem_filter.mp hmem
    rw [t.get?_eq_some_iff.mpr hpair]
    exact hv
  · intro hany
    cases hget : t.get? k with
    | none =>
      rw [hget] at hany
      cases hany
    | some v =>
      rw [hget] at hany
      exact List.mem_map.mpr ⟨(k, v), List.mem_filter.mpr ⟨t.get?_eq_some_iff.mp hget, hany⟩, rfl⟩

/-- No key is picked twice. -/
theorem nodup_picked (t : Table K W) (chosen : W → Bool) :
    ((t.pairs.filter (chosen ·.2)).map (·.1)).Nodup :=
  t.distinct.sublist (List.filter_sublist.map _)

/-- Names can be placed one after the other in any order. -/
theorem leftCommutative_place :
    LeftCommutative (place fun a b : String => decide (a ≤ b)) := by
  refine ⟨place_comm (fun a b => ?_) (fun {a b} hab hba => ?_) fun {a b c} hab hbc => ?_⟩
  · simpa using String.le_total a b
  · exact String.le_antisymm (of_decide_eq_true hab) (of_decide_eq_true hba)
  · exact decide_eq_true (String.le_trans (of_decide_eq_true hab) (of_decide_eq_true hbc))

variable {t : Table String W} {t' : Table String W'} {chosen : W → Bool} {chosen' : W' → Bool}

/-- The names of the values that are picked, in order, are the same in two tables that have them
under the same names. -/
theorem keysWhere_congr (h : ∀ k, (t'.get? k).any chosen' = (t.get? k).any chosen) :
    t'.keysWhere (· ≤ ·) chosen' = t.keysWhere (· ≤ ·) chosen := by
  have hcomm := leftCommutative_place
  refine List.Perm.foldr_eq ?_ []
  refine (List.perm_ext_iff_of_nodup (t'.nodup_picked _) (t.nodup_picked _)).mpr fun k => ?_
  rw [mem_picked, mem_picked, h]

/-- One more name comes in its place among the others. -/
theorem keysWhere_place {k : String} (hpicked : (t.get? k).any chosen = true)
    (hnot : (t'.get? k).any chosen' = false)
    (h : ∀ k', k' ≠ k → (t'.get? k').any chosen' = (t.get? k').any chosen) :
    t.keysWhere (· ≤ ·) chosen = place (· ≤ ·) k (t'.keysWhere (· ≤ ·) chosen') := by
  have hcomm := leftCommutative_place
  have hnew : k ∉ (t'.pairs.filter (chosen' ·.2)).map (·.1) := by
    rw [mem_picked, hnot]
    exact Bool.false_ne_true
  have hnodup := List.nodup_cons.mpr ⟨hnew, t'.nodup_picked chosen'⟩
  have hperm : List.Perm ((t.pairs.filter (chosen ·.2)).map (·.1))
      (k :: (t'.pairs.filter (chosen' ·.2)).map (·.1)) := by
    refine (List.perm_ext_iff_of_nodup (t.nodup_picked _) hnodup).mpr fun k' => ?_
    rw [mem_picked, List.mem_cons, mem_picked]
    by_cases hk : k' = k
    · rw [hk, hpicked]
      exact iff_of_true rfl (.inl rfl)
    · rw [h k' hk]
      exact (or_iff_right hk).symm
  exact List.Perm.foldr_eq hperm []

/-- A key is put somewhere between the others. -/
theorem exists_place (le : K → K → Bool) (k : K) (keys : List K) :
    ∃ before after, keys = before ++ after ∧ place le k keys = before ++ k :: after := by
  induction keys with
  | nil => exact ⟨[], [], rfl, rfl⟩
  | cons first rest ih =>
    unfold place
    split
    · exact ⟨[], first :: rest, rfl, rfl⟩
    · obtain ⟨before, after, hrest, hplace⟩ := ih
      refine ⟨first :: before, after, ?_, ?_⟩
      · rw [hrest, List.cons_append]
      · rw [hplace, List.cons_append]

end Table

end ReadThrough
