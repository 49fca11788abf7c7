import Mathlib.Data.List.Infix
import Mathlib.Data.List.Nodup
import Mathlib.Data.List.Perm.Subperm
import ReadThrough.Store.Query
import ReadThrough.Proofs.Store.Arrivals
/-!
# Proofs: a bounded store only forgets

A bounded store and a recording one that are used alike from the beginning are compared answer by
answer. The bounded store may have forgotten an entry, and it may have displaced one; it never finds
an entry that the other does not find, it has no more entries, and it is empty when the other is
(`Forgets`). As long as no more keys were written since the last clearing than it has room for, it
has forgotten nothing: both answer the same (`findings_forget`).

Both stores have what one relation between them says (`Recalls`), which every use keeps
(`Recalls.use`).
-/

namespace ReadThrough

variable {K V : Type}

namespace Store

/-! ## Uses -/

/-- What a caller can want of any store. -/
inductive Use (K V : Type) where
  /-- One of the three operations. -/
  | operate (op : Operation K V)
  /-- The number of entries, and whether there are none. -/
  | measure

/-- The keys written since the last clearing, after one use more: each of them once. -/
def Use.recent [DecidableEq K] (recent : List K) : Use K V → List K
  | .operate (.put key _) => recent.insert key
  | .operate .clear => []
  | .operate (.get _) => recent
  | .measure => recent

/-- The keys written since the last clearing. -/
def recentKeys [DecidableEq K] (uses : List (Use K V)) : List K := uses.foldl Use.recent []

/-- How the findings of a store compare to those of one that forgets nothing. -/
inductive Forgets : Finding K V → Finding K V → Prop where
  | same (finding : Finding K V) : Forgets finding finding
  | lost (entry : Entry V) : Forgets (.entry none) (.entry (some entry))
  | fewer {size size' : Nat} (hle : size ≤ size') (isEmpty : Bool) :
      Forgets (.size (some size) (some isEmpty)) (.size (some size') (some isEmpty))
  | displaced (gone : List (K × Nat)) : Forgets (.written gone) (.written [])

variable [DecidableEq K]

/-- Uses a store. -/
def use (s : Store K V) : Use K V → Finding K V × Store K V
  | .operate op => s.operate op
  | .measure => s.ask .size

/-- What a store finds when it is used again and again. -/
def findings (s : Store K V) : List (Use K V) → List (Finding K V)
  | [] => []
  | first :: rest => (s.use first).1 :: (s.use first).2.findings rest

end Store

/-! ## What the two stores have in common -/

namespace Bounded

variable [DecidableEq K]

/-- A bounded store beside one that forgets nothing, with the keys written since the last
clearing. -/
structure Recalls (b : Bounded K V) (r : Recorded K V) (recent : List K) : Prop where
  consistent : b.Consistent
  found : ∀ k entry, b.get? k = some entry → r.data.get? k = some entry
  distinct : recent.Nodup
  written : ∀ k, k ∈ recent ↔ (r.data.get? k).isSome = true
  /-- The latest key is never forgotten. -/
  empty : b.order = [] → recent = []
  /-- Nothing is forgotten for want of room that is there. -/
  keeps : recent.length ≤ b.capacity → ∀ k ∈ recent, k ∈ b.order

variable {b b' : Bounded K V} {r : Recorded K V} {recent gone : List K} {key : K} {entry : Entry V}

/-- Two empty stores have all in common. -/
theorem recalls_empty {b : Bounded K V} (horder : b.order = []) (hget : ∀ k, b.get? k = none)
    {r : Recorded K V} (hdata : r.data = Table.empty) : b.Recalls r [] where
  consistent := {
    nodup := by rw [horder]; exact List.nodup_nil
    stored := fun k => by simp [horder, hget]
    fits := by rw [horder]; exact Nat.zero_le _ }
  found := fun k entry h => by simp [hget] at h
  distinct := List.nodup_nil
  written := fun k => by simp [hdata]
  empty := fun _ => rfl
  keeps := fun _ k hk => absurd hk List.not_mem_nil

/-- A bounded store has no other keys than those written since the last clearing. -/
theorem Recalls.order_subset (h : b.Recalls r recent) : b.order ⊆ recent := by
  intro k hk
  obtain ⟨entry, hentry⟩ := Option.isSome_iff_exists.mp ((h.consistent.stored k).mp hk)
  rw [h.written, h.found k entry hentry]
  rfl

/-- A key that is not stored was forgotten, or never written. -/
theorem Recalls.get?_eq (h : b.Recalls r recent) (k : K) :
    b.get? k = none ∨ b.get? k = r.data.get? k := by
  cases hget : b.get? k with
  | none => exact .inl rfl
  | some entry => exact .inr (h.found k entry hget).symm

/-- A bounded store forgets nothing while it has room for all keys written since the last clearing.
-/
theorem Recalls.get?_eq_of_room (h : b.Recalls r recent) (hroom : recent.length ≤ b.capacity)
    (k : K) : b.get? k = r.data.get? k := by
  refine (h.get?_eq k).elim (fun hnone => ?_) id
  have hgone : k ∉ b.order := fun hk => by simp [h.consistent.stored, hnone] at hk
  have hnever : k ∉ recent := fun hk => hgone (h.keeps hroom k hk)
  rw [hnone, eq_comm, ← Option.not_isSome_iff_eq_none, ← h.written]
  exact hnever

/-! ## How much is stored -/

/-- A store that forgets nothing has one entry for each key written since the last clearing. -/
theorem Recalls.size_eq (h : b.Recalls r recent) : r.size = recent.length := by
  have hkeys : (r.data.pairs.map (·.1)).Perm recent := by
    refine (List.perm_ext_iff_of_nodup r.data.distinct h.distinct).mpr fun k => ?_
    rw [h.written, Option.isSome_iff_exists, List.mem_map]
    constructor
    · rintro ⟨⟨_, entry⟩, hmem, rfl⟩
      exact ⟨entry, r.data.get?_eq_some_iff.mpr hmem⟩
    · rintro ⟨entry, hget⟩
      exact ⟨(k, entry), r.data.get?_eq_some_iff.mp hget, rfl⟩
  exact (List.length_map _).symm.trans hkeys.length_eq

/-- A bounded store has at most as many entries as one that forgets nothing. -/
theorem Recalls.size_le (h : b.Recalls r recent) : b.size ≤ r.size := by
  rw [h.size_eq]
  exact (List.subperm_of_subset h.consistent.nodup h.order_subset).length_le

/-- The stores are of the same size while there is room for all keys. -/
theorem Recalls.size_eq_of_room (h : b.Recalls r recent) (hroom : recent.length ≤ b.capacity) :
    b.size = r.size := by
  refine Nat.le_antisymm h.size_le ?_
  rw [h.size_eq]
  exact (List.subperm_of_subset h.distinct (h.keeps hroom)).length_le

/-- Either store is empty exactly if the other one is. -/
theorem Recalls.isEmpty_eq (h : b.Recalls r recent) : (b.size == 0) = (r.size == 0) := by
  rw [Bool.eq_iff_iff, beq_iff_eq, beq_iff_eq]
  constructor
  · intro hzero
    rw [h.size_eq, h.empty (List.length_eq_zero_iff.mp hzero)]
    rfl
  · exact fun hzero => Nat.le_zero.mp (hzero ▸ h.size_le)

/-! ## A write to both -/

/-- A store is not empty after a write. -/
theorem Puts.order_ne_nil (hputs : Puts b key entry (b', gone)) : b'.order ≠ [] := by
  cases hputs with
  | overwrites hold => exact List.ne_nil_of_mem hold
  | adds | displaces => exact List.append_ne_nil_of_right_ne_nil _ (List.cons_ne_nil _ _)

/-- A key is displaced only when more keys than the store has room for were written. -/
theorem Recalls.gone_eq_nil (h : b.Recalls r recent) (hputs : Puts b key entry (b', gone))
    (hroom : (recent.insert key).length ≤ b.capacity) : gone = [] := by
  cases hputs with
  | overwrites | adds => rfl
  | displaces hnew horder hfull =>
    by_cases hold : key ∈ recent
    · rw [List.insert_of_mem hold] at hroom
      exact absurd (h.keeps hroom key hold) hnew
    · rw [List.insert_of_not_mem hold, List.length_cons] at hroom
      have hle := (List.subperm_of_subset h.consistent.nodup h.order_subset).length_le
      omega

/-- A write leaves a bounded store beside one that forgets nothing, with the key among the recent
ones. -/
theorem Recalls.puts (h : b.Recalls r recent) (hputs : Puts b key entry (b', gone))
    (hcapacity : b'.capacity = b.capacity) :
    b'.Recalls (r.put key entry) (recent.insert key) := by
  have hput : ∀ k, (r.put key entry).data.get? k =
      Function.update r.data.get? key (some entry) k := by
    intro k
    by_cases hk : k = key
    · subst hk
      rw [Function.update_self]
      exact Table.get?_insert_self _ _ _
    · rw [Function.update_of_ne hk]
      exact Table.get?_insert_of_ne _ _ hk
  refine ⟨hputs.consistent h.consistent, ?_, h.distinct.insert, ?_, ?_, ?_⟩
  · intro k e hget
    rw [hputs.get?_eq] at hget
    split at hget
    · cases hget
    · rw [hput]
      by_cases hk : k = key
      · subst hk
        rwa [Function.update_self] at hget ⊢
      · rw [Function.update_of_ne hk] at hget ⊢
        exact h.found k e hget
  · intro k
    rw [hput, List.mem_insert_iff, h.written]
    by_cases hk : k = key
    · subst hk
      simp
    · simp [hk]
  · exact fun hnil => absurd hnil hputs.order_ne_nil
  · intro hroom k hk
    rw [hcapacity] at hroom
    rw [hputs.mem_order h.consistent, h.gone_eq_nil hputs hroom]
    refine ⟨List.not_mem_nil, (List.mem_insert_iff.mp hk).imp id fun hk => ?_⟩
    exact h.keeps (Nat.le_trans (List.suffix_insert key recent).length_le hroom) k hk

end Bounded

/-! ## Every use of both -/

namespace Store

variable [DecidableEq K] {b : Bounded K V} {r : Recorded K V} {recent : List K}

/-- What comes of one use of both stores: how their answers compare, and what the stores have in
common afterwards. -/
structure Answers (b : Bounded K V) (r : Recorded K V) (recent : List K) (u : Use K V) : Prop where
  forgets : Forgets ((bounded b).use u).1 ((recorded r).use u).1
  same : (u.recent recent).length ≤ b.capacity →
    ((bounded b).use u).1 = ((recorded r).use u).1
  recalls : ∃ b' r', ((bounded b).use u).2 = .bounded b' ∧ ((recorded r).use u).2 = .recorded r' ∧
    b'.capacity = b.capacity ∧ b'.Recalls r' (u.recent recent)

/-- A read finds in the bounded store what the other one finds, or nothing. -/
theorem answers_get (h : b.Recalls r recent) (key : K) :
    Answers b r recent (.operate (.get key)) where
  forgets := by
    show Forgets (.entry (b.get? key)) (.entry (r.data.get? key))
    rcases h.get?_eq key with hnone | hsame
    · rw [hnone]
      cases r.data.get? key with
      | none => exact .same _
      | some entry => exact .lost entry
    · rw [hsame]
      exact .same _
  same hroom := congrArg Finding.entry (h.get?_eq_of_room hroom key)
  recalls := ⟨b, _, rfl, rfl, rfl, ⟨h.consistent, h.found, h.distinct, h.written, h.empty, h.keeps⟩⟩

/-- A write is answered alike by both stores. -/
theorem answers_put (h : b.Recalls r recent) (key : K) (entry : Entry V) :
    Answers b r recent (.operate (.put key entry)) where
  forgets := .displaced _
  same hroom := by
    have hnone : (b.put key entry).2 = [] :=
      h.gone_eq_nil (h.consistent.puts key entry) hroom
    show Finding.written ((b.put key entry).2.map (·, b.capacity)) = .written []
    rw [hnone]
    rfl
  recalls := ⟨_, _, rfl, rfl, b.capacity_put key entry,
    h.puts (h.consistent.puts key entry) (b.capacity_put key entry)⟩

/-- A clearing is answered alike by both stores, and leaves them with all in common. -/
theorem answers_clear (b : Bounded K V) (r : Recorded K V) (recent : List K) :
    Answers b r recent (.operate .clear) where
  forgets := .same _
  same _ := rfl
  recalls := ⟨_, _, rfl, rfl, rfl, Bounded.recalls_empty rfl (fun _ => rfl) rfl⟩

/-- A bounded store tells a size that is at most the other one's, and is empty when the other one
is. -/
theorem answers_measure (h : b.Recalls r recent) : Answers b r recent .measure where
  forgets := by
    show Forgets (.size (some b.size) (some (b.size == 0)))
      (.size (some r.size) (some (r.size == 0)))
    rw [h.isEmpty_eq]
    exact .fewer h.size_le _
  same hroom := by
    show Finding.size (some b.size) (some (b.size == 0)) = .size (some r.size) (some (r.size == 0))
    rw [h.size_eq_of_room hroom]
  recalls := ⟨b, r, rfl, rfl, rfl, h⟩

/-- Every use of the two stores is answered as the forgetting allows. -/
theorem answers_use (h : b.Recalls r recent) (u : Use K V) : Answers b r recent u := by
  cases u with
  | measure => exact answers_measure h
  | operate op =>
    cases op with
    | get key => exact answers_get h key
    | put key entry => exact answers_put h key entry
    | clear => exact answers_clear b r recent

/-- Used side by side, the stores differ by what is forgotten at most, and not at all while there is
room for every key written since the last clearing. -/
theorem findings_of_recalls (h : b.Recalls r recent) (uses : List (Use K V)) :
    List.Forall₂ Forgets ((bounded b).findings uses) ((recorded r).findings uses) ∧
      ∀ i, ((uses.take (i + 1)).foldl Use.recent recent).length ≤ b.capacity →
        ((bounded b).findings uses)[i]? = ((recorded r).findings uses)[i]? := by
  induction uses generalizing b r recent with
  | nil => exact ⟨.nil, fun _ _ => rfl⟩
  | cons first rest ih =>
    obtain ⟨hforgets, hsame, b', r', hb, hr, hcapacity, hrecalls⟩ := answers_use h first
    obtain ⟨hrest, hagree⟩ := ih hrecalls
    simp only [findings, hb, hr]
    refine ⟨.cons hforgets hrest, fun i hroom => ?_⟩
    cases i with
    | zero => exact congrArg some (hsame hroom)
    | succ i => exact hagree i (hcapacity.symm ▸ hroom)

/-- A bounded store and one that forgets nothing, used alike from the beginning: the bounded one
only forgets, and every answer is the same that is given when no more keys have been written since
the last clearing than it has room for. -/
theorem findings_forget (capacity : Nat) (hpos : 0 < capacity) (uses : List (Use K V)) :
    List.Forall₂ Forgets ((bounded (.ofCapacity capacity hpos)).findings uses)
        ((recorded .empty).findings uses) ∧
      ∀ i, (recentKeys (uses.take (i + 1))).length ≤ capacity →
        ((bounded (.ofCapacity capacity hpos)).findings uses)[i]? =
          ((recorded .empty).findings uses)[i]? :=
  findings_of_recalls (Bounded.recalls_empty rfl (fun _ => rfl) rfl) uses

/-- A key that is displaced, written again and overwritten, with a clearing behind it. -/
def resurfacing : List (Use String Nat) :=
  [.operate (.put "a" (.unstamped 1)), .operate (.put "b" (.unstamped 2)), .operate (.get "a"),
    .operate (.put "a" (.unstamped 3)), .operate (.get "a"), .operate (.get "b"), .measure,
    .operate .clear, .operate (.put "b" (.unstamped 4)), .operate (.get "b"), .measure]

/-- With room for a single key the first writes are forgotten; behind the clearing both stores
answer the same. -/
theorem findings_forget_resurfacing :
    List.Forall₂ Forgets ((bounded (.ofCapacity 1 Nat.one_pos)).findings resurfacing)
        ((recorded .empty).findings resurfacing) ∧
      ((bounded (.ofCapacity 1 Nat.one_pos)).findings resurfacing)[5]? = some (.entry none) ∧
      ((bounded (.ofCapacity 1 Nat.one_pos)).findings resurfacing)[10]? =
        ((recorded .empty).findings resurfacing)[10]? := by
  obtain ⟨hforgets, hsame⟩ := findings_forget 1 Nat.one_pos resurfacing
  exact ⟨hforgets, rfl, hsame 10 (by decide)⟩

end Store

end ReadThrough
