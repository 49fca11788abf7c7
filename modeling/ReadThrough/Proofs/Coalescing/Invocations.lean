import ReadThrough.Proofs.Coalescing.Invariant
import ReadThrough.Proofs.Flights.Stages
/-!
# Proofs: which producers are called

A ledger of the calls of producers, kept along a run: each call belongs to the execution that some
job has started with that producer, or to a job that runs alone. No execution calls its producer
twice, none calls it before one of its jobs is polled, and an execution ends as the producer of
the job that started it does. A job that attached to an execution brings no producer to the ledger.
-/

namespace ReadThrough

variable {K V α : Type}

/-- How the work of a producer ends that is called as the one with this number. -/
def Producer.outcome (producer : Producer V) (number : Nat) : Outcome V :=
  match producer.refusal with
  | some message => .panicked message
  | none => producer.ending number

/-! ## Polling a production -/

namespace Production

/-- After a poll the work has ended with the outcome, or will. -/
def Carries (id : String) (outcome : Outcome V) : Progress (Production V) (Outcome V) → Prop
  | .waiting rest => ∃ wait, rest = .working id wait outcome
  | .finished outcome' => outcome' = outcome

/-- Work that waits goes on without calling anything, and ends as it was to end. -/
theorem carries_proceed (id : String) (wait : Wait) (outcome : Outcome V) (shop : Workshop) :
    ∃ progress, proceed id wait outcome shop = (progress, shop) ∧ Carries id outcome progress := by
  unfold proceed
  split
  · exact ⟨_, rfl, _, rfl⟩
  · exact ⟨_, rfl, rfl⟩

/-- The first poll calls the producer. -/
theorem carries_poll_uncalled (id : String) (producer : Producer V) (shop : Workshop) :
    ∃ progress, (uncalled id producer).poll shop =
        (progress, { shop with started := shop.started ++ [id] }) ∧
      Carries id (producer.outcome (shop.started.length + 1)) progress := by
  have hlength : (shop.started ++ [id]).length = shop.started.length + 1 := by simp
  unfold poll Producer.outcome
  rw [← hlength]
  cases hrefusal : producer.refusal with
  | some message => simp only [hrefusal]; exact ⟨_, rfl, rfl⟩
  | none => simp only [hrefusal]; exact carries_proceed id producer.wait _ _

/-- Every later poll calls nothing. -/
theorem carries_poll_working (id : String) (wait : Wait) (outcome : Outcome V)
    (shop : Workshop) :
    ∃ progress, (working id wait outcome).poll shop = (progress, shop) ∧
      Carries id outcome progress := carries_proceed id wait outcome shop

end Production

/-- Whether a job runs alone and its producer, which came under this name, has not been called. -/
def Job.withholds (name : String) : Job V → Bool
  | .exclusive (.uncalled id _) => id = name
  | .exclusive (.working _ _ _) | .shared _ | .ended => false

/-- A call of a producer: for which execution, if it was for one, and the name of the job that had
brought the producer. -/
structure Invocation where
  execution : Option Nat
  name : String
  deriving DecidableEq

namespace Coalescing

/-- Whether a step polls jobs. -/
def Step.polls : Step K V → Bool
  | .poll _ | .join _ => true
  | _ => false

/-- The execution that a job waits for. -/
def attachedTo (r : Coalescing K V) (id : String) : List Nat :=
  match r.jobs.get? id with
  | some (.shared e) => [e]
  | _ => []

/-- The executions whose jobs a step polls. -/
def polled (r : Coalescing K V) (s : Step K V) : List Nat :=
  match s with
  | .poll id => r.attachedTo id
  | .join ids => ids.flatMap r.attachedTo
  | _ => []

/-- The execution of a job is the one that it shares. -/
theorem mem_attachedTo {r : Coalescing K V} {id : String} {e : Nat} :
    e ∈ r.attachedTo id ↔ r.jobs.get? id = some (.shared e) := by
  unfold attachedTo
  cases r.jobs.get? id with
  | none => simp
  | some job => cases job <;> simp [eq_comm]

/-! ## The ledger -/

/-- The producer that started an execution has been called for it, and ends its work so. -/
def Produced (started : List (String × Producer V)) (log : List Invocation) (e : Nat)
    (outcome : Outcome V) : Prop :=
  ∃ id producer n, started[e]? = some (id, producer) ∧ log[n]? = some ⟨some e, id⟩ ∧
    outcome = producer.outcome (n + 1)

/-- What the stage of an execution says about the calls of producers. -/
def Accounts (started : List (String × Producer V)) (log : List Invocation) (e : Nat) :
    Stage (Production V) V → Prop
  | .running (.uncalled id producer) =>
    started[e]? = some (id, producer) ∧ ∀ i ∈ log, i.execution ≠ some e
  | .running (.working id _ outcome) =>
    Produced started log e outcome ∧ ∃ producer, started[e]? = some (id, producer)
  | .settled outcome => Produced started log e outcome
  | .abandoned => True

/-- The log of the calls of producers agrees with the state, with the jobs that have started
executions so far, those that have begun to run alone and the executions that were polled. -/
structure Ledger (r : Coalescing K V) (started : List (String × Producer V)) (alone : List String)
    (seen : List Nat) (log : List Invocation) : Prop where
  length : started.length = r.flights.executions.length
  names : log.map (·.name) = r.shop.started
  once : (log.filterMap (·.execution)).Nodup
  sourced : ∀ i ∈ log, ∀ e, i.execution = some e →
    e ∈ seen ∧ ∃ producer, started[e]? = some (i.name, producer)
  stages : ∀ e stage, r.flights.stage? e = some stage → Accounts started log e stage
  lone : ∀ name, log.count ⟨none, name⟩ + r.jobs.count (Job.withholds name) ≤ alone.count name

variable {r r' : Coalescing K V} {started : List (String × Producer V)} {alone : List String}
  {seen : List Nat} {log : List Invocation}

/-- From `r` to `r'` no producer is called or brought. -/
structure Idles (r r' : Coalescing K V) : Prop where
  shop : r'.shop.started = r.shop.started
  length : r'.flights.executions.length = r.flights.executions.length
  stages : ∀ e, r'.flights.stage? e = r.flights.stage? e ∨
    r'.flights.stage? e = some .abandoned
  lone : ∀ name, r'.jobs.count (Job.withholds name) ≤ r.jobs.count (Job.withholds name)

theorem Idles.refl (r : Coalescing K V) : Idles r r :=
  ⟨rfl, rfl, fun _ => .inl rfl, fun _ => le_rfl⟩

theorem Idles.trans {r'' : Coalescing K V} (h : Idles r r') (h' : Idles r' r'') :
    Idles r r'' := by
  refine ⟨h'.shop.trans h.shop, h'.length.trans h.length, fun e => ?_,
    fun name => (h'.lone name).trans (h.lone name)⟩
  rcases h'.stages e with h2 | h2
  · rw [h2]; exact h.stages e
  · exact .inr h2

/-- The log stays right as long as no producer is called or brought. -/
theorem Ledger.idles (h : Ledger r started alone seen log) (hi : Idles r r') :
    Ledger r' started alone seen log where
  length := h.length.trans hi.length.symm
  names := h.names.trans hi.shop.symm
  once := h.once
  sourced := h.sourced
  stages e stage hs := by
    rcases hi.stages e with hsame | hgone
    · exact h.stages e stage (hsame ▸ hs)
    · rw [hgone] at hs
      cases hs
      trivial
  lone name := (Nat.add_le_add_left (hi.lone name) _).trans (h.lone name)

/-- A log that goes on tells nothing new about the executions that were over before. -/
def Grows (r : Coalescing K V) (log log' : List Invocation) : Prop :=
  ∀ e name, r.flights.isOver e = true → (⟨some e, name⟩ ∈ log' ↔ ⟨some e, name⟩ ∈ log)

theorem Grows.refl (r : Coalescing K V) (log : List Invocation) : Grows r log log :=
  fun _ _ _ => Iff.rfl

/-- A log that goes on, and then goes on again, has gone on. -/
theorem Grows.trans {log' log'' : List Invocation} (h : Grows r log log')
    (hf : r.flights.Extends r'.flights) (h' : Grows r' log' log'') : Grows r log log'' :=
  fun e name hover => (h' e name (hf.isOver hover)).trans (h e name hover)

/-- At first no producer has been called. -/
theorem ledger_init : Ledger ({} : Coalescing K V) [] [] [] [] where
  length := rfl
  names := rfl
  once := List.nodup_nil
  sourced := nofun
  stages e stage hs := by cases hs
  lone name := le_rfl

/-- Jobs that begin to run alone and polls that follow leave the ledger right. -/
theorem Ledger.append (h : Ledger r started alone seen log) (alone' : List String)
    (seen' : List Nat) : Ledger r started (alone ++ alone') (seen ++ seen') log where
  length := h.length
  names := h.names
  once := h.once
  sourced i hi e hie := ⟨List.mem_append_left _ (h.sourced i hi e hie).1, (h.sourced i hi e hie).2⟩
  stages := h.stages
  lone name := by
    rw [List.count_append]
    exact (h.lone name).trans (Nat.le_add_right _ _)

/-! ## Steps that call nothing -/

/-- A job that is kept adds at most itself to those whose producers have not been called. -/
theorem count_keep_le (r : Coalescing K V) (id : String) (job : Job V) (name : String) :
    (r.keep id job).jobs.count (Job.withholds name) ≤
      r.jobs.count (Job.withholds name) + if job.withholds name then 1 else 0 := by
  have hcount := r.jobs.count_insert id job (Job.withholds name)
  show (r.jobs.insert id job).count _ ≤ _
  omega

/-- No producer is brought by a job that withholds none. -/
theorem idles_keep (id : String) {job : Job V} (hjob : ∀ name, job.withholds name = false)
    (r : Coalescing K V) : Idles r (r.keep id job) := by
  refine ⟨rfl, rfl, fun _ => .inl rfl, fun name => ?_⟩
  have hkeep := count_keep_le r id job name
  rwa [hjob name, if_neg Bool.false_ne_true, Nat.add_zero] at hkeep

variable [DecidableEq K]

/-- Work that is dropped calls no producer. -/
theorem discard_started (production : Production V) (shop : Workshop) :
    (production.discard shop).started = shop.started := by
  cases production <;> rfl

/-- To drop a job calls no producer. -/
theorem idles_dropJob (id : String) (r : Coalescing K V) : Idles r (r.dropJob id) := by
  have hlone : ∀ name,
      (r.jobs.erase id).count (Job.withholds name) ≤ r.jobs.count (Job.withholds name) := by
    intro name
    have := r.jobs.count_erase id (Job.withholds name)
    omega
  unfold dropJob
  cases hget : r.jobs.get? id with
  | none => exact ⟨rfl, rfl, fun _ => .inl rfl, hlone⟩
  | some job =>
    cases job with
    | ended => exact ⟨rfl, rfl, fun _ => .inl rfl, hlone⟩
    | exclusive production =>
      exact ⟨discard_started production r.shop, rfl, fun _ => .inl rfl, hlone⟩
    | shared e =>
      have hlength := Flights.length_leave r.flights e
      have hstages := Flights.stage?_leave r.flights e
      simp only
      rcases hl : r.flights.leave e with ⟨_ | production, f', ns⟩
      all_goals rw [hl] at hlength hstages
      · exact ⟨rfl, hlength, fun e' => (hstages e').imp_right And.right, hlone⟩
      · exact ⟨discard_started production r.shop, hlength,
          fun e' => (hstages e').imp_right And.right, hlone⟩

/-- To drop several jobs calls no producer. -/
theorem idles_dropJobs (ids : List String) (r : Coalescing K V) :
    Idles r (ids.foldl (fun r id => r.dropJob id) r) := by
  induction ids generalizing r with
  | nil => exact .refl r
  | cons id ids ih => exact (idles_dropJob id r).trans (ih _)

/-- Putting a job in the place of another calls nothing. -/
theorem idles_replace (id : String) {job : Job V} (hjob : ∀ name, job.withholds name = false)
    (r : Coalescing K V) : Idles r (r.replace id job) :=
  (idles_dropJob id r).trans (idles_keep id hjob _)

/-! ## Polls -/

/-- A longer log agrees with what is said about an execution as long as it adds nothing for it. -/
theorem Accounts.append {e : Nat} {stage : Stage (Production V) V}
    (h : Accounts started log e stage) {i : Invocation} (hi : i.execution ≠ some e) :
    Accounts started (log ++ [i]) e stage := by
  have hproduced : ∀ {outcome}, Produced started log e outcome →
      Produced started (log ++ [i]) e outcome := by
    rintro outcome ⟨id, producer, n, horigin, hn, hout⟩
    have hlt := (List.getElem?_eq_some_iff.mp hn).1
    exact ⟨id, producer, n, horigin, by rw [List.getElem?_append_left hlt, hn], hout⟩
  cases stage with
  | running production =>
    cases production with
    | uncalled id producer =>
      refine ⟨h.1, fun j hj => ?_⟩
      rcases List.mem_append.mp hj with hj | hj
      · exact h.2 j hj
      · rw [List.mem_singleton.mp hj]; exact hi
    | working id wait outcome => exact ⟨hproduced h.1, h.2⟩
  | settled outcome => exact hproduced h
  | abandoned => trivial

/-- An execution whose producer has been called is accounted for however its work goes on. -/
theorem Produced.accounts {e : Nat} {id : String} {producer : Producer V} {outcome : Outcome V}
    (h : Produced started log e outcome) (horigin : started[e]? = some (id, producer))
    {progress : Progress (Production V) (Outcome V)}
    (hp : Production.Carries id outcome progress) :
    Accounts started log e (Stage.ofProgress progress) := by
  cases progress with
  | waiting rest =>
    obtain ⟨wait, rfl⟩ := hp
    exact ⟨h, producer, horigin⟩
  | finished outcome' => exact (show outcome' = outcome from hp) ▸ h

/-- A poll of an execution enters into the ledger the call of its producer, if there is one. -/
theorem Ledger.pollShared (h : Ledger r started alone seen log) {e : Nat} (he : e ∈ seen)
    {answer : Option (Outcome V)} {f' : Flights K (Production V) V} {shop : Workshop}
    {ns : List Notice}
    (hpoll : r.flights.Polls Production.poll e r.shop (answer, f', shop, ns)) :
    ∃ log', Grows r log log' ∧ Ledger { r with flights := f', shop } started alone seen log' := by
  obtain ⟨stage, stage', hstage, hstage', hadv⟩ := hpoll.advances
  -- All other executions are as before, so that only the polled one has to be looked at.
  have hothers : ∀ {log'}, (∀ e' ≠ e, ∀ stage, Accounts started log e' stage →
      Accounts started log' e' stage) → Accounts started log' e stage' →
      ∀ e' stage, f'.stage? e' = some stage → Accounts started log' e' stage := by
    intro log' hkeep hself e' stage₁ hs
    by_cases he' : e' = e
    · subst he'
      rw [hstage'] at hs
      cases hs
      exact hself
    · rw [hpoll.stage?_of_ne he'] at hs
      exact hkeep e' he' _ (h.stages e' _ hs)
  have hlength := h.length.trans hpoll.length.symm
  cases hadv with
  | receives => exact ⟨log, .refl r log, hlength, h.names, h.once, h.sourced,
      hothers (fun _ _ _ => id) (h.stages e _ hstage), h.lone⟩
  | @works work progress _ hw =>
    have hwork := h.stages e _ hstage
    cases work with
    | working id wait outcome =>
      obtain ⟨progress', hpoll', hcarries⟩ :=
        Production.carries_poll_working id wait outcome r.shop
      obtain ⟨rfl, rfl⟩ := Prod.mk.inj (hw.symm.trans hpoll')
      obtain ⟨hproduced, producer, horigin⟩ := hwork
      exact ⟨log, .refl r log, hlength, h.names, h.once, h.sourced,
        hothers (fun _ _ _ => fun h => h) (hproduced.accounts horigin hcarries), h.lone⟩
    | uncalled id producer =>
      obtain ⟨progress', hpoll', hcarries⟩ :=
        Production.carries_poll_uncalled id producer r.shop
      obtain ⟨rfl, rfl⟩ := Prod.mk.inj (hw.symm.trans hpoll')
      obtain ⟨horigin, hfresh⟩ := hwork
      have hnumber : r.shop.started.length = log.length := by
        rw [← h.names, List.length_map]
      have hproduced : Produced started (log ++ [⟨some e, id⟩]) e
          (producer.outcome (r.shop.started.length + 1)) :=
        ⟨id, producer, log.length, horigin, by simp, by rw [hnumber]⟩
      refine ⟨log ++ [⟨some e, id⟩], fun e' name hover => ?_, hlength, ?_, ?_, ?_, ?_, ?_⟩
      · have hne : e' ≠ e := by
          rintro rfl
          rw [Flights.isOver_eq_of_stage? hstage] at hover
          cases hover
        simp [hne]
      · rw [List.map_append, h.names]
        rfl
      · rw [List.filterMap_append, List.nodup_append]
        refine ⟨h.once, by simp, ?_⟩
        intro e' he' e'' he'' heq
        obtain ⟨i, hi, hie⟩ := List.mem_filterMap.mp he'
        have he₂ : e'' = e := by simpa using he''
        exact hfresh i hi (by rw [hie, heq, he₂])
      · intro i hi e' hie
        rcases List.mem_append.mp hi with hi | hi
        · exact h.sourced i hi e' hie
        · rw [List.mem_singleton.mp hi] at hie ⊢
          cases hie
          exact ⟨he, producer, horigin⟩
      · exact hothers
          (fun e' he' stage hacc => hacc.append fun heq => he' (by simpa using heq.symm))
          (hproduced.accounts horigin hcarries)
      · intro name
        have hlone := h.lone name
        rw [List.count_append, List.count_singleton]
        simpa using hlone

/-- A poll of a job that runs alone enters into the ledger the call of its producer, if there is
one. -/
theorem Ledger.pollAlone (h : Ledger r started alone seen log) {id : String}
    {production : Production V} (hget : r.jobs.get? id = some (.exclusive production)) :
    ∃ log', Grows r log log' ∧ Ledger (r.pollJob id).2 started alone seen log' := by
  unfold pollJob
  rw [hget]
  cases production with
  | working id' wait outcome =>
    obtain ⟨progress, hpoll, hcarries⟩ := Production.carries_poll_working id' wait outcome r.shop
    simp only [hpoll]
    cases progress with
    | waiting rest =>
      obtain ⟨wait', rfl⟩ := hcarries
      exact ⟨log, .refl r log, h.idles (idles_keep id (fun _ => rfl) r)⟩
    | finished outcome' => exact ⟨log, .refl r log, h.idles (idles_keep id (fun _ => rfl) r)⟩
  | uncalled id' producer =>
    obtain ⟨progress, hpoll, hcarries⟩ :=
      Production.carries_poll_uncalled id' producer r.shop
    -- The first poll calls the producer. Whatever the job is afterwards, it withholds no name.
    have hcalled : ∀ job : Job V, (∀ name, job.withholds name = false) →
        ∃ log', Grows r log log' ∧ Ledger
          (Coalescing.keep { r with shop.started := r.shop.started ++ [id'] } id job)
          started alone seen log' := by
      intro job hjob
      refine ⟨log ++ [⟨none, id'⟩], fun e name _ => by simp, h.length, ?_, ?_, ?_,
        fun e stage hs => ?_, fun name => ?_⟩
      · rw [List.map_append, h.names]
        rfl
      · simpa using h.once
      · intro i hi e hie
        rcases List.mem_append.mp hi with hi | hi
        · exact h.sourced i hi e hie
        · rw [List.mem_singleton.mp hi] at hie
          cases hie
      · exact (h.stages e stage hs).append nofun
      · have hlone := h.lone name
        have hinsert := r.jobs.count_insert id job (Job.withholds name)
        have hweight : r.jobs.weight id (Job.withholds name) = if id' = name then 1 else 0 := by
          simp [Table.weight, hget, Job.withholds]
        rw [hjob name, hweight] at hinsert
        show _ + (r.jobs.insert id job).count _ ≤ _
        rw [List.count_append, List.count_singleton]
        by_cases hname : id' = name
        · subst hname
          simp only [if_true, beq_self_eq_true, Bool.false_eq_true, if_false] at hinsert ⊢
          omega
        · simp only [hname, if_false, Bool.false_eq_true, Nat.add_zero] at hinsert ⊢
          rw [if_neg (by simpa using hname), hinsert]
          exact hlone
    simp only [hpoll]
    cases progress with
    | waiting rest =>
      obtain ⟨wait, rfl⟩ := hcarries
      exact hcalled _ fun _ => rfl
    | finished outcome => exact hcalled _ fun _ => rfl

/-- A poll calls at most the producer of the job's own work, and the log tells so. -/
theorem Ledger.pollJob (hsound : r.Sound) (h : Ledger r started alone seen log) {id : String}
    (hid : ∀ e ∈ r.attachedTo id, e ∈ seen) :
    ∃ log', Grows r log log' ∧ Ledger (r.pollJob id).2 started alone seen log' := by
  cases hget : r.jobs.get? id with
  | none => exact ⟨log, .refl r log, by simpa only [Coalescing.pollJob, hget] using h⟩
  | some job =>
    cases job with
    | ended => exact ⟨log, .refl r log, by simpa only [Coalescing.pollJob, hget] using h⟩
    | exclusive production => exact h.pollAlone hget
    | shared e =>
      have hpoll := Flights.polls_of_waiting Production.poll hsound.tracked (waiting_pos hget)
        r.shop
      have he : e ∈ seen := hid e (mem_attachedTo.mpr hget)
      unfold Coalescing.pollJob
      rw [hget]
      simp only
      rcases hp : r.flights.poll Production.poll e r.shop with ⟨_ | outcome, f', shop, ns⟩
      all_goals
        rw [hp] at hpoll
        obtain ⟨log', hgrows, h'⟩ := h.pollShared he hpoll
      · exact ⟨log', hgrows, h'.idles ⟨rfl, rfl, fun _ => .inl rfl, fun _ => le_rfl⟩⟩
      · have hkeep := idles_keep id (fun _ => rfl : ∀ name, Job.ended.withholds name = false)
          { r with flights := f', shop, notices := r.notices ++ ns }
        exact ⟨log', hgrows, h'.idles ⟨hkeep.shop, hkeep.length, hkeep.stages, hkeep.lone⟩⟩

/-- A poll attaches no job to an execution. -/
theorem attachedTo_pollJob {r : Coalescing K V} {id id' : String} {e : Nat}
    (h : e ∈ (r.pollJob id).2.attachedTo id') : e ∈ r.attachedTo id' := by
  rw [mem_attachedTo] at h ⊢
  have hinsert : ∀ job, (∀ e, job ≠ Job.shared e) →
      (r.jobs.insert id job).get? id' = some (.shared e) → r.jobs.get? id' = some (.shared e) := by
    intro job hjob hi
    by_cases hid : id' = id
    · subst hid
      rw [Table.get?_insert_self, Option.some.injEq] at hi
      exact absurd hi (hjob e)
    · rwa [Table.get?_insert_of_ne _ _ hid] at hi
  unfold Coalescing.pollJob at h
  split at h
  · exact h
  · exact h
  · split at h
    · exact hinsert .ended (fun _ h => by cases h) h
    · exact h
  · split at h
    · exact hinsert .ended (fun _ h => by cases h) h
    · rename_i rest _ _
      exact hinsert (.exclusive rest) (fun _ h => by cases h) h

/-- Joined polls call producers one after the other, and the log tells so. -/
theorem Ledger.join (ids : List String) (passes : Nat) (hsound : r.Sound)
    (h : Ledger r started alone seen log)
    (hids : ∀ id ∈ ids, ∀ e ∈ r.attachedTo id, e ∈ seen) :
    ∃ log', Grows r log log' ∧ Ledger (ReadThrough.join Coalescing.pollJob passes ids r).2
      started alone seen log' := by
  let Polled (r : Coalescing K V) : Prop := ∀ id ∈ ids, ∀ e ∈ r.attachedTo id, e ∈ seen
  let Kept (r r' : Coalescing K V) : Prop :=
    ∀ log, r.Sound → Polled r → Ledger r started alone seen log →
      r'.Sound ∧ Polled r' ∧ r.flights.Extends r'.flights ∧
        ∃ log', Grows r log log' ∧ Ledger r' started alone seen log'
  have hkept : Kept r (ReadThrough.join Coalescing.pollJob passes ids r).2 := by
    refine join_rel (R := fun r _ r' => Kept r r') (fun r log hs hp hl => ?_)
      (fun h h' log hs hp hl => ?_) (fun id hid r log hs hp hl => ?_) passes r
    · exact ⟨hs, hp, .refl _, log, .refl r log, hl⟩
    · obtain ⟨hs', hp', hf, log', hgrows, hl'⟩ := h log hs hp hl
      obtain ⟨hs'', hp'', hf', log'', hgrows', hl''⟩ := h' log' hs' hp' hl'
      exact ⟨hs'', hp'', hf.trans hf', log'', hgrows.trans hf hgrows', hl''⟩
    · have hmoves := moves_pollJob id hs
      exact ⟨hmoves.sound, fun id' hid' e he => hp id' hid' e (attachedTo_pollJob he),
        hmoves.continues, hl.pollJob hs (hp id hid)⟩
  obtain ⟨-, -, -, hlog⟩ := hkept log hsound hids h
  exact hlog

/-! ## Runs -/

/-- What `f` reads off each step of a run, in order. -/
def along (f : Coalescing K V → Step K V → List α) : Coalescing K V → List (Step K V) → List α
  | _, [] => []
  | r, s :: rest => f r s ++ along f (r.step s).2 rest

/-- The job that starts an execution in a step, with its producer. -/
def origins (r : Coalescing K V) (s : Step K V) : List (String × Producer V) :=
  match s with
  | .shared id _ producer =>
    if (r.step s).2.flights.executions.length = r.flights.executions.length then []
    else [(id, producer)]
  | _ => []

/-- The job that begins to run alone in a step. -/
def soloists (r : Coalescing K V) (s : Step K V) : List String :=
  match s with
  | .exclusive id _ => if r.closed then [] else [id]
  | _ => []

/-! ### Steps -/

/-- What is known of an execution does not depend on jobs that start others later. -/
theorem Accounts.started_append {e : Nat} {stage : Stage (Production V) V}
    (h : Accounts started log e stage) (more : List (String × Producer V)) :
    Accounts (started ++ more) log e stage := by
  have horigin : ∀ {p}, started[e]? = some p → (started ++ more)[e]? = some p := fun hp =>
    (List.getElem?_append_left (List.getElem?_eq_some_iff.mp hp).1).trans hp
  have hproduced : ∀ {outcome}, Produced started log e outcome →
      Produced (started ++ more) log e outcome := fun ⟨id, producer, n, ho, hn, hout⟩ =>
    ⟨id, producer, n, horigin ho, hn, hout⟩
  cases stage with
  | running production =>
    cases production with
    | uncalled id producer => exact ⟨horigin h.1, h.2⟩
    | working id wait outcome => exact ⟨hproduced h.1, h.2.imp fun _ => horigin⟩
  | settled outcome => exact hproduced h
  | abandoned => trivial

/-- A call for a key brings a producer to the ledger if it starts an execution, and none if it
attaches to one. -/
theorem Ledger.enter (hsound : r.Sound) (hopen : r.closed = false)
    (h : Ledger r started alone seen log) (id : String) (key : K) (producer : Producer V) :
    let f' := (r.flights.enter key (.uncalled id producer)).2.1
    Ledger { r with flights := f' }
      (started ++ if f'.executions.length = r.flights.executions.length then []
        else [(id, producer)]) alone seen log := by
  intro f'
  rcases Flights.enter_cases hsound.tracked (hsound.registered hopen) key
    (.uncalled id producer) with ⟨e, x, hx, -, -, henter⟩ | ⟨-, henter⟩
  · have hf' : f' = r.flights.set e { x with callers := x.callers + 1 } :=
      congrArg (·.2.1) henter
    have hlength : f'.executions.length = r.flights.executions.length := by
      rw [hf', Flights.length_set]
    rw [if_pos hlength, List.append_nil]
    refine h.idles ⟨rfl, hlength, fun e' => .inl ?_, fun _ => le_rfl⟩
    rw [hf']
    exact Flights.stage?_set_same (y := { x with callers := x.callers + 1 }) hx rfl e'
  · have hf' : f' = (r.flights.start key (.uncalled id producer)).2.1 :=
      congrArg (·.2.1) henter
    have hlength : f'.executions.length = r.flights.executions.length + 1 := by
      rw [hf', Flights.executions_start, List.length_append, List.length_singleton]
    rw [if_neg (by omega)]
    refine ⟨by rw [List.length_append, h.length, hlength]; rfl, h.names, h.once, ?_, ?_, h.lone⟩
    · intro i hi e hie
      obtain ⟨hseen, producer', horigin⟩ := h.sourced i hi e hie
      have hlt := (List.getElem?_eq_some_iff.mp horigin).1
      exact ⟨hseen, producer', by rw [List.getElem?_append_left hlt, horigin]⟩
    · intro e stage hs
      by_cases he : e = r.flights.executions.length
      · subst he
        rw [hf', Flights.stage?_start_self] at hs
        cases hs
        refine ⟨by rw [← h.length]; simp, fun i hi hie => ?_⟩
        obtain ⟨-, producer', horigin⟩ := h.sourced i hi _ hie
        have hlt := (List.getElem?_eq_some_iff.mp horigin).1
        exact absurd hlt (by rw [h.length]; exact lt_irrefl _)
      · rw [hf', Flights.stage?_start_of_ne _ _ _ he] at hs
        exact (h.stages e stage hs).started_append _

/-- A call brings its producer to the ledger if it starts an execution. -/
theorem Ledger.call (hsound : r.Sound) (hopen : r.closed = false)
    (h : Ledger r started alone seen log) (id : String) (key : K) (producer : Producer V) :
    Ledger (r.call id key producer)
      (started ++ if (r.call id key producer).flights.executions.length =
        r.flights.executions.length then [] else [(id, producer)]) alone seen log := by
  have henter := h.enter hsound hopen id key producer
  unfold Coalescing.call
  rcases hcall : r.flights.enter key (.uncalled id producer) with ⟨e, f', notice⟩
  rw [hcall] at henter
  have hreplace := idles_replace id (fun _ => rfl : ∀ name, (Job.shared e).withholds name = false)
    { r with flights := f', notices := r.notices ++ [notice] }
  simp only [hreplace.length]
  exact henter.idles ⟨hreplace.shop, hreplace.length, hreplace.stages, hreplace.lone⟩

/-- A job that begins to run alone brings its producer to the ledger. -/
theorem Ledger.exclusive (h : Ledger r started alone seen log) (id : String)
    (producer : Producer V) :
    Ledger (r.replace id (.exclusive (.uncalled id producer))) started (alone ++ [id]) seen
      log := by
  have hdrop := h.idles (idles_dropJob id r)
  refine ⟨hdrop.length, hdrop.names, hdrop.once, hdrop.sourced, hdrop.stages, fun name => ?_⟩
  have hkeep := count_keep_le (r.dropJob id) id (.exclusive (.uncalled id producer)) name
  have hlone := hdrop.lone name
  have hnew : (Job.exclusive (.uncalled id producer)).withholds name = decide (id = name) := rfl
  rw [List.count_append, List.count_singleton]
  rw [hnew] at hkeep
  show _ + ((r.dropJob id).keep id _).jobs.count _ ≤ _
  by_cases hname : id = name
  · subst hname
    simp only [decide_true, beq_self_eq_true, if_true] at hkeep ⊢
    omega
  · simp only [hname, decide_false, beq_eq_false_iff_ne.mpr hname, Bool.false_eq_true, if_false]
      at hkeep ⊢
    omega

/-- A step calls producers for executions that are not over, and only if it polls. -/
theorem Ledger.step (s : Step K V) (hsound : r.Sound) (h : Ledger r started alone seen log) :
    ∃ log', Grows r log log' ∧ (s.polls = false → log' = log) ∧
      Ledger (r.step s).2 (started ++ origins r s) (alone ++ soloists r s)
        (seen ++ polled r s) log' := by
  have hquiet : Idles r { r with notices := [] } :=
    ⟨rfl, rfl, fun _ => .inl rfl, fun _ => le_rfl⟩
  have h₀ := h.idles hquiet
  have hsound₀ : Sound { r with notices := [] } := ⟨hsound.tracked, hsound.registered⟩
  -- A step that idles adds nothing to the log, whatever else it is said to add.
  have hidle : origins r s = [] → Idles { r with notices := [] } (r.step s).2 →
      ∃ log', Grows r log log' ∧ (s.polls = false → log' = log) ∧
        Ledger (r.step s).2 (started ++ origins r s) (alone ++ soloists r s)
          (seen ++ polled r s) log' := fun ho hi => by
    rw [ho, List.append_nil]
    exact ⟨log, .refl r log, fun _ => rfl, (h₀.idles hi).append _ _⟩
  by_cases hrefused : (r.closed && s.needsRegistry) = true
  · have hstep : (r.step s).2 = { r with notices := [] } := by
      rw [step_snd, attempt, if_pos hrefused]
    refine hidle ?_ (hstep ▸ .refl _)
    unfold origins
    rw [hstep]
    cases s <;> simp
  · have hstep : (r.step s).2 = (perform { r with notices := [] } s).2 := by
      rw [step_snd, attempt, if_neg hrefused]
    have hopen : s.needsRegistry = true → r.closed = false := fun hs => by
      simpa [hs] using hrefused
    unfold origins
    rw [hstep] at hidle ⊢
    cases s with
    | shared id key producer =>
      refine ⟨log, .refl r log, fun _ => rfl, Ledger.append ?_ _ _⟩
      exact h₀.call hsound₀ (hopen rfl) id key producer
    | exclusive id producer =>
      have hexclusive := (h₀.exclusive id producer).append [] (polled r (.exclusive id producer))
      have hsoloist : soloists r (.exclusive id producer) = [id] := by
        rw [soloists, hopen rfl]; rfl
      rw [List.append_nil] at hexclusive ⊢
      rw [hsoloist]
      exact ⟨log, .refl r log, fun _ => rfl, hexclusive⟩
    | poll id =>
      have hseen := h₀.append [] (r.attachedTo id)
      obtain ⟨log', hgrows, h'⟩ := hseen.pollJob hsound₀ fun e he => List.mem_append_right _ he
      rw [List.append_nil]
      exact ⟨log', hgrows, nofun, h'⟩
    | join ids =>
      have hseen := h₀.append [] (ids.flatMap r.attachedTo)
      obtain ⟨log', hgrows, h'⟩ := hseen.join ids (ids.length + 1) hsound₀ fun id hid e he =>
        List.mem_append_right _ (List.mem_flatMap.mpr ⟨id, hid, he⟩)
      rw [List.append_nil]
      exact ⟨log', hgrows, nofun, h'⟩
    | drop id => exact hidle rfl (idles_dropJob id _)
    | openGate gate => exact hidle rfl ⟨rfl, rfl, fun _ => .inl rfl, fun _ => le_rfl⟩
    | closeGate gate => exact hidle rfl ⟨rfl, rfl, fun _ => .inl rfl, fun _ => le_rfl⟩
    | inspect => exact hidle rfl (.refl _)
    | dropRegistry =>
      have hdrop := idles_dropJobs (exclusives { r with notices := [] }) { r with notices := [] }
      exact hidle rfl ⟨hdrop.shop, hdrop.length, hdrop.stages, hdrop.lone⟩

/-- The log stays right throughout a run. -/
theorem Ledger.run (steps : List (Step K V)) (hsound : r.Sound)
    (h : Ledger r started alone seen log) :
    ∃ log', Ledger (r.run steps).2 (started ++ along origins r steps)
      (alone ++ along soloists r steps) (seen ++ along polled r steps) log' := by
  induction steps generalizing r started alone seen log with
  | nil =>
    simp only [along, List.append_nil]
    exact ⟨log, h⟩
  | cons s rest ih =>
    obtain ⟨log', -, -, h'⟩ := h.step s hsound
    obtain ⟨log'', h''⟩ := ih (stepsTo_step s hsound).sound h'
    simp only [List.append_assoc] at h''
    exact ⟨log'', h''⟩

/-- Every run has a ledger. -/
theorem exists_ledger (steps : List (Step K V)) :
    ∃ log, Ledger (Coalescing.run ({} : Coalescing K V) steps).2 (along origins {} steps)
      (along soloists {} steps) (along polled {} steps) log := by
  simpa using ledger_init.run steps sound_init

end Coalescing

end ReadThrough
