import ReadThrough.Proofs.Flights.Stages
import ReadThrough.Proofs.Load.Books
/-!
# Proofs: what the callers of executions receive

The books agree with the stages of the executions (`Answered`): an execution that has settled is in
the books once, with the outcome that the registry keeps for it, and whoever receives a result
receives that of an execution in the books.
-/

namespace ReadThrough

variable {P A V E : Type}

/-- The result of an execution that was not shared. -/
def Settlement.alone? (s : Settlement P A V E) : Option (Result V E) :=
  match s.execution with
  | none => some (Load.resultOf s.outcome)
  | some _ => none

/-- The result of an execution that was not shared, as its caller receives it. -/
def aloneReceipt? : Option Nat × Result V E → Option (Result V E)
  | (none, result) => some result
  | (some _, _) => none

/-- The books agree with the stages of the executions, and whoever has received a result has
received that of an execution. -/
structure Answered (b : Books P A V E)
    (f : Flights (Key P A) (Work P A V E) (Result V E)) : Prop where
  settled : ∀ s ∈ b.settled, ∀ e, s.execution = some e → f.stage? e = some (.settled s.outcome)
  recorded : ∀ e outcome, f.stage? e = some (.settled outcome) →
    ∃ s ∈ b.settled, s.execution = some e ∧ s.outcome = outcome
  once : (b.settled.filterMap (·.execution)).Nodup
  received : ∀ e result, (some e, result) ∈ b.received →
    ∃ s ∈ b.settled, s.execution = some e ∧ result = Load.resultOf s.outcome
  alone : b.settled.filterMap Settlement.alone? = b.received.filterMap aloneReceipt?

namespace Answered

variable {b : Books P A V E} {f f' : Flights (Key P A) (Work P A V E) (Result V E)}

/-- No execution ends and nobody receives anything. -/
theorem silent (h : Answered b f) (hsame : f.SettledAlike f') (calls : List (Nat × Key P A))
    (published : List (P × Failure E)) : Answered (b ++ ⟨calls, [], [], published⟩) f' := by
  have hsettled : (b ++ ⟨calls, [], [], published⟩ : Books P A V E).settled = b.settled :=
    List.append_nil _
  have hreceived : (b ++ ⟨calls, [], [], published⟩ : Books P A V E).received = b.received :=
    List.append_nil _
  refine ⟨?_, ?_, ?_, ?_, ?_⟩ <;> simp only [hsettled, hreceived]
  · exact fun s hs e he => (hsame e s.outcome).mpr (h.settled s hs e he)
  · exact fun e outcome he => h.recorded e outcome ((hsame e outcome).mp he)
  · exact h.once
  · exact h.received
  · exact h.alone

/-- Somebody receives the result of a shared execution that has ended before. -/
theorem receive (h : Answered b f) (hsame : f.SettledAlike f') {e : Nat}
    {outcome : Outcome (Result V E)} (he : f.stage? e = some (.settled outcome)) :
    Answered (b ++ ⟨[], [], [(some e, Load.resultOf outcome)], []⟩) f' := by
  have hsettled : (b ++ ⟨[], [], [(some e, Load.resultOf outcome)], []⟩ :
      Books P A V E).settled = b.settled := List.append_nil _
  refine ⟨?_, ?_, ?_, ?_, ?_⟩ <;> simp only [hsettled, Books.received_append]
  · exact fun s hs e he => (hsame e s.outcome).mpr (h.settled s hs e he)
  · exact fun e outcome he => h.recorded e outcome ((hsame e outcome).mp he)
  · exact h.once
  · intro e' result hr
    rcases List.mem_append.mp hr with hr | hr
    · exact h.received e' result hr
    · obtain ⟨s, hs, hexecution, houtcome⟩ := h.recorded e outcome he
      simp only [List.mem_singleton, Prod.mk.injEq, Option.some.injEq] at hr
      exact ⟨s, hs, hr.1 ▸ hexecution, by rw [hr.2, houtcome]⟩
  · rw [List.filterMap_append, h.alone]
    exact (List.append_nil _).symm

/-- A shared execution ends, and one of its callers receives the result at once. -/
theorem settle (h : Answered b f) {e : Nat} {outcome : Outcome (Result V E)}
    (hbefore : ∀ outcome, f.stage? e ≠ some (.settled outcome))
    (hafter : f'.stage? e = some (.settled outcome))
    (hother : ∀ e', e' ≠ e → f'.stage? e' = f.stage? e') (number : Nat) (key : Key P A)
    (calls : List (Nat × Key P A)) (published : List (P × Failure E)) :
    Answered (b ++ ⟨calls, [{ execution := some e, number, key, outcome }],
      [(some e, Load.resultOf outcome)], published⟩) f' := by
  have hnew : ∀ s ∈ b.settled, s.execution ≠ some e := fun s hs he =>
    hbefore _ (h.settled s hs e he)
  let s₀ : Settlement P A V E := { execution := some e, number, key, outcome }
  refine ⟨?_, ?_, ?_, ?_, ?_⟩
  · intro s hs e' he'
    rcases List.mem_append.mp hs with hs | hs
    · have hne : e' ≠ e := fun heq => hnew s hs (heq ▸ he')
      rw [hother e' hne]
      exact h.settled s hs e' he'
    · rw [List.mem_singleton.mp hs] at he' ⊢
      rw [← Option.some.inj he']
      exact hafter
  · intro e' outcome' he'
    by_cases heq : e' = e
    · subst heq
      rw [hafter, Option.some.injEq, Stage.settled.injEq] at he'
      exact ⟨s₀, List.mem_append_right _ (List.mem_singleton_self _), rfl, he'⟩
    · rw [hother e' heq] at he'
      obtain ⟨s, hs, hexecution⟩ := h.recorded e' outcome' he'
      exact ⟨s, List.mem_append_left _ hs, hexecution⟩
  · rw [Books.settled_append, List.filterMap_append]
    refine List.nodup_append.mpr ⟨h.once, List.nodup_singleton e, fun e' he' e'' he'' => ?_⟩
    obtain ⟨s, hs, hexecution⟩ := List.mem_filterMap.mp he'
    rw [show e'' = e from List.mem_singleton.mp he'']
    exact fun heq => hnew s hs (heq ▸ hexecution)
  · intro e' result hr
    rcases List.mem_append.mp hr with hr | hr
    · obtain ⟨s, hs, hexecution⟩ := h.received e' result hr
      exact ⟨s, List.mem_append_left _ hs, hexecution⟩
    · simp only [List.mem_singleton, Prod.mk.injEq, Option.some.injEq] at hr
      exact ⟨s₀, List.mem_append_right _ (List.mem_singleton_self _), by rw [hr.1], hr.2⟩
  · rw [Books.settled_append, Books.received_append, List.filterMap_append, List.filterMap_append,
      h.alone]
    rfl

/-- An execution that is not shared ends, and its caller receives the result at once. -/
theorem settleAlone (h : Answered b f) (outcome : Outcome (Result V E)) (number : Nat)
    (key : Key P A) (calls : List (Nat × Key P A)) (published : List (P × Failure E)) :
    Answered (b ++ ⟨calls, [{ execution := none, number, key, outcome }],
      [(none, Load.resultOf outcome)], published⟩) f := by
  refine ⟨?_, ?_, ?_, ?_, ?_⟩
  · intro s hs e he
    rcases List.mem_append.mp hs with hs | hs
    · exact h.settled s hs e he
    · rw [List.mem_singleton.mp hs] at he
      cases he
  · intro e outcome' he
    obtain ⟨s, hs, hexecution⟩ := h.recorded e outcome' he
    exact ⟨s, List.mem_append_left _ hs, hexecution⟩
  · rw [Books.settled_append, List.filterMap_append]
    exact (List.append_nil _).symm ▸ h.once
  · intro e result hr
    rcases List.mem_append.mp hr with hr | hr
    · obtain ⟨s, hs, hexecution⟩ := h.received e result hr
      exact ⟨s, List.mem_append_left _ hs, hexecution⟩
    · simp at hr
  · rw [Books.settled_append, Books.received_append, List.filterMap_append, List.filterMap_append,
      h.alone]
    rfl

end Answered

end ReadThrough
