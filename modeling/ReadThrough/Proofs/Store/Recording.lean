import ReadThrough.Proofs.Store.Contents
import ReadThrough.Store.Recorded
/-!
# Proofs: a record explains what is stored

Replayed onto what was stored when the record was last emptied, the record gives what is stored, and
each prefix of it gives what the next read finds (`Recorded.Did.explained`).
-/

namespace ReadThrough

variable {K V : Type}

namespace Operation

/-- Whether an operation is a write. -/
def isPut : Operation K V → Bool
  | .put _ _ => true
  | .get _ | .clear => false

variable [DecidableEq K]

/-- What an operation leaves of some contents. -/
def onto (contents : K → Option (Entry V)) : Operation K V → K → Option (Entry V)
  | .get _ => contents
  | .put key entry => Function.update contents key (some entry)
  | .clear => fun _ => none

/-- What some operations leave of some contents. -/
def replay (contents : K → Option (Entry V)) (ops : List (Operation K V)) :
    K → Option (Entry V) :=
  ops.foldl onto contents

/-- A replay goes on with each operation. -/
theorem replay_concat (contents : K → Option (Entry V)) (ops : List (Operation K V))
    (op : Operation K V) : replay contents (ops ++ [op]) = onto (replay contents ops) op :=
  List.foldl_concat ..

end Operation

open Operation (onto replay replay_concat)

/-- An operation that was done, with what a read has found. -/
abbrev Done (K V : Type) := Operation K V × Option (Entry V)

namespace Recorded

variable [DecidableEq K]

/-- What was done to a store, in order. -/
inductive Did (r : Recorded K V) : List (Done K V) → Recorded K V → Prop where
  | nil : Did r [] r
  | snoc {done : List (Done K V)} {r' : Recorded K V} (h : Did r done r') (op : Operation K V) :
      Did r (done ++ [(op, (r'.answer op).1)]) (r'.answer op).2

/-- The record tells what was done, and explains what is stored and what the reads have found, by
what was stored at first. -/
structure Explained (contents : K → Option (Entry V)) (done : List (Done K V))
    (r : Recorded K V) : Prop where
  operations_eq : r.operations = done.map (·.1)
  puts_eq : r.puts.map (fun p => Operation.put p.1 p.2) = r.operations.filter Operation.isPut
  contents_eq : r.data.get? = replay contents r.operations
  found_eq : ∀ before key found after, done = before ++ (.get key, found) :: after →
    found = replay contents (r.operations.take before.length) key

section Did

variable {r r' r'' : Recorded K V} {done done' : List (Done K V)}

/-- One operation is a history of its own. -/
theorem Did.single (r : Recorded K V) (op : Operation K V) :
    r.Did [(op, (r.answer op).1)] (r.answer op).2 := .snoc .nil op

/-- Two histories one after the other are one history. -/
theorem Did.trans (h : r.Did done r') (h' : r'.Did done' r'') : r.Did (done ++ done') r'' := by
  induction h' with
  | nil =>
    rw [List.append_nil]
    exact h
  | snoc _ op ih =>
    rw [← List.append_assoc]
    exact ih.snoc op

/-- Every operation goes to the end of the record. -/
theorem record_answer (r : Recorded K V) (op : Operation K V) :
    (r.answer op).2.record = r.record ++ [op] := by
  cases op <;> rfl

/-- An operation leaves in the store what it leaves of its contents. -/
theorem get?_answer (r : Recorded K V) (op : Operation K V) :
    (r.answer op).2.data.get? = onto r.data.get? op := by
  cases op with
  | get key => rfl
  | put key entry => exact r.data.get?_insert key entry
  | clear => rfl

/-- The record grows by exactly the operations that were done, in order. -/
theorem Did.record_eq (h : r.Did done r') : r'.record = r.record ++ done.map (·.1) := by
  induction h with
  | nil => exact (List.append_nil _).symm
  | snoc _ op ih =>
    rw [record_answer, ih, List.map_append, List.append_assoc]
    rfl

/-- The contents are the replay of the operations that were done. -/
theorem Did.get?_eq (h : r.Did done r') :
    r'.data.get? = replay r.data.get? (done.map (·.1)) := by
  induction h with
  | nil => rfl
  | snoc _ op ih =>
    rw [get?_answer, ih, List.map_append, List.map_singleton, replay_concat]

/-- A read finds what the operations before it have left. -/
theorem Did.found_eq (h : r.Did done r') {before after : List (Done K V)} {key : K}
    {found : Option (Entry V)} (hsplit : done = before ++ (.get key, found) :: after) :
    found = replay r.data.get? (before.map (·.1)) key := by
  induction h generalizing after with
  | nil => cases before <;> cases hsplit
  | @snoc done r' h op ih =>
    rcases append_eq_split hsplit with ⟨rest, hdone⟩ | ⟨begun, rfl, hlast⟩
    · exact ih hdone
    · -- It is the last operation.
      obtain ⟨rfl, heq⟩ | ⟨-, hnil⟩ := List.singleton_eq_append_iff.mp hlast
      · obtain ⟨rfl, rfl⟩ := Prod.mk.inj (List.cons.inj heq).1
        rw [List.append_nil]
        exact congrFun h.get?_eq key
      · cases hnil

omit [DecidableEq K] in
/-- The recorded writes are the writes among the recorded operations, in the same order. -/
theorem map_puts (r : Recorded K V) :
    r.puts.map (fun p => Operation.put p.1 p.2) = r.operations.filter Operation.isPut := by
  unfold puts operations
  induction r.record with
  | nil => rfl
  | cons op ops ih =>
    cases op with
    | put key entry =>
      have hwrite : (Operation.put key entry).write? = some (key, entry) := rfl
      rw [List.filterMap_cons_some hwrite, List.map_cons, ih, List.filter_cons_of_pos rfl]
    | get | clear =>
      rw [List.filterMap_cons_none rfl, ih, List.filter_cons_of_neg Bool.false_ne_true]

/-- A record that was empty at first explains what has become of the store. -/
theorem Did.explained (h : r.Did done r') (hempty : r.record = []) :
    Explained r.data.get? done r' := by
  have hoperations : r'.operations = done.map (·.1) := by
    rw [operations, h.record_eq, hempty, List.nil_append]
  refine ⟨hoperations, r'.map_puts, ?_, fun before key found after hsplit => ?_⟩
  · rw [h.get?_eq, hoperations]
  · have htake : r'.operations.take before.length = before.map (·.1) := by
      rw [hoperations, hsplit, ← List.map_take, List.take_left]
    rw [htake]
    exact h.found_eq hsplit

end Did

end Recorded

end ReadThrough
