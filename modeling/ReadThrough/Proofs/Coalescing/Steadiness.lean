import ReadThrough.Proofs.Coalescing.Unfolding
import ReadThrough.Proofs.Flights.Works
/-!
# Proofs: producers that do not count

A producer is steady if its work ends the same way however many producers have been called before.
What its work does then depends on the gates and on how often it is polled, and on nothing else
(`Production.poll_likewise`). If all producers of a run are steady, so is all work at every moment
of it (`Steady.step`).
-/

namespace ReadThrough

variable {K V : Type}

/-- The work ends the same way, whichever number the call of the producer has. -/
def Producer.Steady (producer : Producer V) : Prop :=
  ∀ n m, producer.ending n = producer.ending m

/-- How the work ends does not depend on the number of a call that is still to come. -/
def Production.Steady : Production V → Prop
  | .uncalled _ producer => producer.Steady
  | .working _ _ _ => True

/-- The workshops `after` and `after'` differ from `shop` and `shop'` by the same calls of
producers. -/
structure Workshop.Likewise (shop shop' after after' : Workshop) : Prop where
  gates : after'.gates = after.gates
  started : ∃ calls, after.started = shop.started ++ calls ∧ after'.started = shop'.started ++ calls

theorem Workshop.Likewise.refl {shop shop' : Workshop} (h : shop'.gates = shop.gates) :
    Likewise shop shop' shop shop' :=
  ⟨h, [], (List.append_nil _).symm, (List.append_nil _).symm⟩

namespace Production

/-- Work that has called its producer ends as it will, whatever is called later. -/
theorem steady_of_proceed {id : String} {wait : Wait} {outcome : Outcome V}
    {shop after : Workshop} {rest : Production V}
    (h : proceed id wait outcome shop = (.waiting rest, after)) : rest.Steady := by
  unfold proceed at h
  split at h
  · cases h
    trivial
  · cases h

/-- Work that has been polled knows how it will end. -/
theorem steady_of_poll {work rest : Production V} {shop after : Workshop}
    (h : work.poll shop = (.waiting rest, after)) : rest.Steady := by
  cases work with
  | working id wait outcome => exact steady_of_proceed h
  | uncalled id producer =>
    simp only [poll] at h
    split at h
    · cases h
    · exact steady_of_proceed h

/-- Work that waits looks at nothing but the gates. -/
theorem proceed_likewise (id : String) (wait : Wait) (outcome : Outcome V) {shop shop' : Workshop}
    (hgates : shop'.gates = shop.gates) :
    (proceed id wait outcome shop').1 = (proceed id wait outcome shop).1 ∧
      (proceed id wait outcome shop).2 = shop ∧ (proceed id wait outcome shop').2 = shop' := by
  unfold proceed
  rw [hgates]
  cases wait.poll shop.gates with
  | none => exact ⟨rfl, rfl, rfl⟩
  | some wait => exact ⟨rfl, rfl, rfl⟩

/-- A poll of work opens and closes no gate. -/
theorem gates_poll (work : Production V) (shop : Workshop) :
    (work.poll shop).2.gates = shop.gates := by
  have hproceed : ∀ (id : String) (wait : Wait) (outcome : Outcome V) (shop : Workshop),
      (proceed id wait outcome shop).2 = shop :=
    fun id wait outcome shop => (proceed_likewise id wait outcome rfl).2.1
  cases work with
  | working id wait outcome => rw [poll, hproceed]
  | uncalled id producer =>
    simp only [poll]
    split
    · rfl
    · rw [hproceed]

/-- The next poll of steady work gives the same in every workshop with the same gates. -/
theorem poll_likewise {work : Production V} (hsteady : work.Steady) {shop shop' : Workshop}
    (hgates : shop'.gates = shop.gates) :
    (work.poll shop').1 = (work.poll shop).1 ∧
      Workshop.Likewise shop shop' (work.poll shop).2 (work.poll shop').2 := by
  cases work with
  | working id wait outcome =>
    obtain ⟨hprogress, hshop, hshop'⟩ := proceed_likewise id wait outcome hgates
    refine ⟨hprogress, ?_⟩
    rw [poll, poll, hshop, hshop']
    exact .refl hgates
  | uncalled id producer =>
    have hcalled : Workshop.Likewise shop shop' { shop with started := shop.started ++ [id] }
        { shop' with started := shop'.started ++ [id] } := ⟨hgates, [id], rfl, rfl⟩
    cases hrefusal : producer.refusal with
    | some message =>
      simp only [poll, hrefusal]
      exact ⟨trivial, hcalled⟩
    | none =>
      have hending := hsteady (shop'.started ++ [id]).length (shop.started ++ [id]).length
      obtain ⟨hprogress, hshop, hshop'⟩ := proceed_likewise id producer.wait
        (producer.ending (shop.started ++ [id]).length) hcalled.gates
      simp only [poll, hrefusal, hending, hshop, hshop']
      exact ⟨hprogress, hcalled⟩

end Production

/-- The work ends with the outcome, whether or not its producer has been called. -/
def Production.Promises (outcome : Outcome V) : Production V → Prop
  | .uncalled _ producer => ∀ n, producer.outcome n = outcome
  | .working _ _ outcome' => outcome' = outcome

/-- Work that promises an outcome ends with it, whichever poll calls its producer. -/
theorem Production.Promises.carries {outcome : Outcome V} {work : Production V}
    (h : work.Promises outcome) (shop : Workshop) :
    ∃ id, Production.Carries id outcome (work.poll shop).1 := by
  cases work with
  | uncalled id producer =>
    obtain ⟨progress, hpoll, hcarries⟩ := Production.carries_poll_uncalled id producer shop
    refine ⟨id, ?_⟩
    rw [hpoll, ← h (shop.started.length + 1)]
    exact hcarries
  | working id wait outcome' =>
    obtain ⟨progress, hpoll, hcarries⟩ := Production.carries_poll_working id wait outcome' shop
    refine ⟨id, ?_⟩
    rw [hpoll, ← show outcome' = outcome from h]
    exact hcarries

/-- A steady producer has one outcome. -/
theorem Producer.Steady.outcome_eq {producer : Producer V} (h : producer.Steady) (n m : Nat) :
    producer.outcome n = producer.outcome m := by
  unfold Producer.outcome
  rw [h n m]

namespace Coalescing

/-- The producer that a step brings along, if there is one, is steady. -/
def Step.Steady : Step K V → Prop
  | .shared _ _ producer | .exclusive _ producer => producer.Steady
  | _ => True

/-- All work is steady, whether jobs share it or run alone. -/
structure Steady (r : Coalescing K V) : Prop where
  shared : ∀ work ∈ r.flights.works, work.Steady
  alone : ∀ {id work}, r.jobs.get? id = some (.exclusive work) → work.Steady

/-- At first there is no work that could be unsteady. -/
theorem steady_init (shop : Workshop) : Steady ({ shop } : Coalescing K V) :=
  ⟨fun _ h => absurd h (Multiset.notMem_zero _), nofun⟩

variable {r : Coalescing K V} {id : String}

/-- A job under whatever name leaves the work steady if its own is. -/
theorem Steady.keep (h : r.Steady) (id : String) {job : Job V}
    (hjob : ∀ work, job = .exclusive work → work.Steady) : (r.keep id job).Steady := by
  refine ⟨h.shared, ?_⟩
  intro id' work hget
  by_cases hid : id' = id
  · rw [hid] at hget
    exact hjob work (Option.some.inj ((Table.get?_insert_self ..).symm.trans hget).symm ▸ rfl)
  · exact h.alone ((Table.get?_insert_of_ne _ _ hid).symm.trans hget)

variable [DecidableEq K]

/-- A poll keeps all work steady. -/
theorem Steady.pollJob (h : r.Steady) (id : String) : (r.pollJob id).2.Steady := by
  unfold Coalescing.pollJob
  cases hget : r.jobs.get? id with
  | none => exact h
  | some job =>
    cases job with
    | ended => exact h
    | exclusive production =>
      dsimp only
      rcases hpoll : production.poll r.shop with ⟨rest | outcome, shop⟩
      · have hnext : Steady { r with shop } := ⟨h.shared, h.alone⟩
        refine hnext.keep id ?_
        rintro work ⟨⟩
        exact Production.steady_of_poll hpoll
      · have hnext : Steady { r with shop } := ⟨h.shared, h.alone⟩
        exact hnext.keep id nofun
    | shared e =>
      have hworks : ∀ work ∈ (r.flights.poll Production.poll e r.shop).2.1.works, work.Steady := by
        intro work hwork
        rcases Flights.mem_works_poll Production.poll r.flights e r.shop hwork with
          hold | ⟨before, -, hstep⟩
        · exact h.shared work hold
        · exact Production.steady_of_poll (Prod.ext hstep rfl)
      dsimp only
      rcases hpoll : r.flights.poll Production.poll e r.shop with ⟨_ | outcome, f', shop, ns⟩
      · rw [hpoll] at hworks
        exact ⟨hworks, h.alone⟩
      · rw [hpoll] at hworks
        have hnext : Steady { r with flights := f', shop, notices := r.notices ++ ns } :=
          ⟨hworks, h.alone⟩
        exact hnext.keep id nofun

/-- Work that is dropped is steady no more and no less than it was. -/
theorem Steady.dropJob (h : r.Steady) (id : String) : (r.dropJob id).Steady := by
  refine ⟨?_, ?_⟩
  · unfold Coalescing.dropJob
    cases hget : r.jobs.get? id with
    | none => exact h.shared
    | some job =>
      cases job with
      | ended => exact h.shared
      | exclusive production => exact h.shared
      | shared e =>
        have hworks : ∀ work ∈ (r.flights.leave e).2.1.works, work.Steady := by
          intro work hwork
          refine h.shared work ?_
          rw [Flights.works_leave r.flights e]
          exact Multiset.mem_of_le (le_held _ _) hwork
        dsimp only
        rcases hleave : r.flights.leave e with ⟨_ | production, f', ns⟩
        · rw [hleave] at hworks
          exact hworks
        · rw [hleave] at hworks
          exact hworks
  · intro id' work hget
    rw [jobs_dropJob] at hget
    by_cases hid : id' = id
    · rw [hid, Table.get?_erase_self] at hget
      cases hget
    · rw [Table.get?_erase_of_ne _ hid] at hget
      exact h.alone hget

/-- Jobs that are dropped leave the work of the others steady. -/
theorem Steady.dropJobs (h : r.Steady) (ids : List String) :
    (ids.foldl (fun r id => r.dropJob id) r).Steady := by
  induction ids generalizing r with
  | nil => exact h
  | cons id ids ih => exact ih (h.dropJob id)

/-- A call with a steady producer keeps all work steady. -/
theorem Steady.call (h : r.Steady) (id : String) (key : K) {producer : Producer V}
    (hproducer : producer.Steady) : (r.call id key producer).Steady := by
  have hworks := r.flights.works_enter key (.uncalled id producer)
  unfold Coalescing.call
  rcases henter : r.flights.enter key (.uncalled id producer) with ⟨e, f', notice⟩
  rw [henter] at hworks
  have hentered : Steady { r with flights := f', notices := r.notices ++ [notice] } := by
    refine ⟨?_, h.alone⟩
    intro work (hwork : work ∈ f'.works)
    rcases hworks with hsame | hmore
    · exact h.shared work (hsame ▸ hwork)
    · rcases Multiset.mem_cons.mp (hmore ▸ hwork) with rfl | hold
      · exact hproducer
      · exact h.shared work hold
  exact (hentered.dropJob id).keep id nofun

/-- A step with a steady producer, or with none, keeps all work steady. -/
theorem Steady.step (h : r.Steady) {s : Step K V} (hs : s.Steady) (hsingle : s.isJoin = false) :
    (r.step s).2.Steady := by
  have hquiet : r.quiet.Steady := ⟨h.shared, h.alone⟩
  rw [step_snd, attempt]
  split
  · exact hquiet
  · cases s with
    | shared id key producer => exact hquiet.call id key hs
    | exclusive id producer =>
      refine (hquiet.dropJob id).keep id ?_
      rintro work ⟨⟩
      exact hs
    | poll id => exact hquiet.pollJob id
    | join ids => cases hsingle
    | drop id => exact hquiet.dropJob id
    | openGate gate => exact ⟨h.shared, h.alone⟩
    | closeGate gate => exact ⟨h.shared, h.alone⟩
    | inspect => exact hquiet
    | dropRegistry =>
      have hdrop := hquiet.dropJobs r.exclusives
      exact ⟨hdrop.shared, hdrop.alone⟩

/-- A run of steady steps keeps all work steady. -/
theorem Steady.run (h : r.Steady) {steps : List (Step K V)} (hsteps : ∀ s ∈ steps, s.Steady)
    (hsingle : ∀ s ∈ steps, s.isJoin = false) : (r.run steps).2.Steady := by
  induction steps generalizing r with
  | nil => exact h
  | cons s rest ih =>
    have hnext := h.step (hsteps s (List.mem_cons_self ..)) (hsingle s (List.mem_cons_self ..))
    exact ih hnext (fun s hs => hsteps s (List.mem_cons_of_mem _ hs))
      fun s hs => hsingle s (List.mem_cons_of_mem _ hs)

/-- Single polls in the place of joins bring no producers along. -/
theorem steady_unfolded {r : Coalescing K V} {steps : List (Step K V)}
    (h : ∀ s ∈ steps, s.Steady) : ∀ s ∈ r.unfolded steps, s.Steady := by
  induction steps generalizing r with
  | nil => exact nofun
  | cons first rest ih =>
    intro s hs
    rcases List.mem_append.mp hs with hs | hs
    · cases first with
      | join ids =>
        obtain ⟨id, -, rfl⟩ := List.mem_map.mp hs
        trivial
      | _ =>
        rw [List.mem_singleton.mp hs]
        exact h _ (List.mem_cons_self ..)
    · exact ih (fun s hs => h s (List.mem_cons_of_mem _ hs)) s hs

end Coalescing

end ReadThrough
