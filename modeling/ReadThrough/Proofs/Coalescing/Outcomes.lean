import ReadThrough.Proofs.Coalescing.Invocations
import ReadThrough.Proofs.Coalescing.Registry
/-!
# Proofs: who receives which outcome

A call for a key is attached to one execution for good, live when it is made. The job of the call
receives at most one outcome, that of its execution, and whoever else receives an outcome of that
execution receives the same one.
-/

namespace ReadThrough

variable {K V : Type}

/-- An outcome of an execution that a job has received. -/
structure Receipt (V : Type) where
  name : String
  execution : Nat
  outcome : Outcome V
  deriving DecidableEq

namespace Coalescing

/-- What a step answers for each of the jobs that it polls. -/
def Step.answers (s : Step K V) (response : Response V) :
    List (String × TaskAnswer (Outcome V)) :=
  match s, response with
  | .poll id, .answer answer => [(id, answer)]
  | .join _, .joined answers => answers
  | _, _ => []

/-- Whether a step gives a name to a new job. -/
def Step.names (s : Step K V) (name : String) : Bool :=
  match s with
  | .shared id _ _ | .exclusive id _ => id = name
  | _ => false

/-- The receipts of a job for outcomes that it is answered, if it waits for an execution. -/
def receiptsFor (id : String) (job : Option (Job V)) (outcomes : List (Outcome V)) :
    List (Receipt V) :=
  match job with
  | some (.shared e) => outcomes.map (⟨id, e, ·⟩)
  | _ => []

/-- The receipts of a step. -/
def receipts [DecidableEq K] (r : Coalescing K V) (s : Step K V) : List (Receipt V) :=
  (s.answers (r.step s).1.response).flatMap fun p =>
    receiptsFor p.1 (r.jobs.get? p.1) p.2.item?.toList

/-! ## The fate of a job -/

/-- The outcomes among the answers for a job. -/
def outcomesFor (id : String) (answers : List (String × TaskAnswer (Outcome V))) :
    List (Outcome V) :=
  answers.flatMap fun p => if p.1 = id then p.2.item?.toList else []

/-- What can become of a job while its name is not taken by another one: it stays, it goes away, or
it receives the outcome of its execution. Nothing is said about the answers to a job that runs
alone. -/
inductive Fate (f : Flights K (Production V) V) :
    Option (Job V) → List (Outcome V) → Option (Job V) → Prop where
  | stays {job : Option (Job V)} : Fate f job [] job
  | goes {job : Option (Job V)} : Fate f job [] none
  | receives {e : Nat} {outcome : Outcome V} (hs : f.stage? e = some (.settled outcome)) :
      Fate f (some (.shared e)) [outcome] (some .ended)
  /-- It has received the outcome of its execution and is dropped. -/
  | leaves {e : Nat} {outcome : Outcome V} (hs : f.stage? e = some (.settled outcome)) :
      Fate f (some (.shared e)) [outcome] none
  | alone {production : Production V} {outcomes : List (Outcome V)} {job : Option (Job V)}
      (hjob : ∀ e, job ≠ some (.shared e)) : Fate f (some (.exclusive production)) outcomes job

variable {f f' : Flights K (Production V) V} {job job' job'' : Option (Job V)}
  {outcomes outcomes' : List (Outcome V)}

/-- What has become of a job is not changed by what the executions do later. -/
theorem Fate.continues (h : Fate f job outcomes job') (hf : f.Extends f') :
    Fate f' job outcomes job' := by
  cases h with
  | stays => exact .stays
  | goes => exact .goes
  | receives hs => exact .receives (hf.settled hs)
  | leaves hs => exact .leaves (hf.settled hs)
  | alone hjob => exact .alone hjob

/-- A job that waits for an execution goes on waiting, goes away, or receives the one outcome of it.
-/
theorem Fate.of_shared {e : Nat} (h : Fate f (some (.shared e)) outcomes job') :
    (outcomes = [] ∧ (job' = some (.shared e) ∨ job' = none)) ∨
      ∃ outcome, outcomes = [outcome] ∧ f.stage? e = some (.settled outcome) := by
  cases h with
  | stays => exact .inl ⟨rfl, .inl rfl⟩
  | goes => exact .inl ⟨rfl, .inr rfl⟩
  | receives hs => exact .inr ⟨_, rfl, hs⟩
  | leaves hs => exact .inr ⟨_, rfl, hs⟩

/-- A name without a job receives nothing. -/
theorem Fate.of_none (h : Fate f none outcomes job') : outcomes = [] ∧ job' = none := by
  cases h with
  | stays => exact ⟨rfl, rfl⟩
  | goes => exact ⟨rfl, rfl⟩

/-- A job that has ended receives nothing more. -/
theorem Fate.of_ended (h : Fate f (some .ended) outcomes job') :
    outcomes = [] ∧ (job' = some .ended ∨ job' = none) := by
  cases h with
  | stays => exact ⟨rfl, .inl rfl⟩
  | goes => exact ⟨rfl, .inr rfl⟩

/-- A job that shares nothing never comes to share something. -/
theorem Fate.not_shared (h : Fate f job outcomes job') (hjob : ∀ e, job ≠ some (.shared e)) :
    ∀ e, job' ≠ some (.shared e) := by
  cases h with
  | stays => exact hjob
  | goes => exact fun _ => nofun
  | receives hs => exact fun _ => nofun
  | leaves hs => exact fun _ => nofun
  | alone hjob' => exact hjob'

/-- What becomes of a job in two stretches, one after the other. -/
theorem Fate.trans (h : Fate f job outcomes job') (h' : Fate f' job' outcomes' job'')
    (hf : f.Extends f') : Fate f' job (outcomes ++ outcomes') job'' := by
  cases h with
  | stays => exact h'
  | goes =>
    obtain ⟨rfl, rfl⟩ := h'.of_none
    exact .goes
  | receives hs =>
    obtain ⟨rfl, rfl | rfl⟩ := h'.of_ended
    · exact .receives (hf.settled hs)
    · exact .leaves (hf.settled hs)
  | leaves hs =>
    obtain ⟨rfl, rfl⟩ := h'.of_none
    exact .leaves (hf.settled hs)
  | alone hjob => exact .alone (h'.not_shared hjob)

/-! ## Answers and receipts -/

/-- The receipts for more outcomes are those for the first and those for the others. -/
theorem receiptsFor_append (id : String) (job : Option (Job V)) (os os' : List (Outcome V)) :
    receiptsFor id job (os ++ os') = receiptsFor id job os ++ receiptsFor id job os' := by
  unfold receiptsFor
  split
  · exact List.map_append
  · rfl

theorem receiptsFor_nil (id : String) (job : Option (Job V)) : receiptsFor id job [] = [] := by
  unfold receiptsFor
  split <;> rfl

/-- A job that shares nothing has no receipts. -/
theorem receiptsFor_of_not_shared (id : String) (hjob : ∀ e, job ≠ some (.shared e))
    (outcomes : List (Outcome V)) : receiptsFor id job outcomes = [] := by
  unfold receiptsFor
  split
  · exact absurd rfl (hjob _)
  · rfl

/-- What a job receives later, it receives for what it was in the beginning. -/
theorem Fate.receiptsFor_eq (id : String) (h : Fate f job outcomes job')
    (h' : Fate f' job' outcomes' job'') :
    receiptsFor id job' outcomes' = receiptsFor id job outcomes' := by
  cases h with
  | stays => rfl
  | goes => rw [h'.of_none.1, receiptsFor_nil, receiptsFor_nil]
  | receives hs => rw [h'.of_ended.1, receiptsFor_nil, receiptsFor_nil]
  | leaves hs => rw [h'.of_none.1, receiptsFor_nil, receiptsFor_nil]
  | alone hjob => exact receiptsFor_of_not_shared id hjob _

/-- The receipts of a job are under its name. -/
theorem filter_receiptsFor_self (id : String) (job : Option (Job V)) (os : List (Outcome V)) :
    (receiptsFor id job os).filter (·.name = id) = receiptsFor id job os := by
  refine List.filter_eq_self.mpr fun c hc => ?_
  unfold receiptsFor at hc
  split at hc
  · obtain ⟨outcome, -, rfl⟩ := List.mem_map.mp hc
    exact decide_eq_true rfl
  · cases hc

/-- The receipts of other jobs are under other names. -/
theorem filter_receiptsFor_of_ne {id id' : String} (h : id' ≠ id) (job : Option (Job V))
    (os : List (Outcome V)) : (receiptsFor id' job os).filter (·.name = id) = [] := by
  rw [← filter_receiptsFor_self, List.filter_filter]
  refine List.filter_eq_nil_iff.mpr fun c _ => ?_
  simp only [Bool.and_eq_true, decide_eq_true_eq, not_and]
  exact fun hc hc' => h (hc'.symm.trans hc)

/-- The receipts for one job among all receipts. -/
theorem filter_receipts (r : Coalescing K V) (id : String)
    (answers : List (String × TaskAnswer (Outcome V))) :
    (answers.flatMap fun p =>
        receiptsFor p.1 (r.jobs.get? p.1) p.2.item?.toList).filter (·.name = id) =
      receiptsFor id (r.jobs.get? id) (outcomesFor id answers) := by
  induction answers with
  | nil => exact (receiptsFor_nil id _).symm
  | cons p rest ih =>
    unfold outcomesFor at ih ⊢
    rw [List.flatMap_cons, List.filter_append, ih, List.flatMap_cons, receiptsFor_append]
    congr 1
    by_cases hid : p.1 = id
    · subst hid
      rw [if_pos rfl, filter_receiptsFor_self]
    · rw [if_neg hid, receiptsFor_nil, filter_receiptsFor_of_ne hid]

/-- The outcomes among more answers are those among the first and those among the others. -/
theorem outcomesFor_append (id : String) (as bs : List (String × TaskAnswer (Outcome V))) :
    outcomesFor id (as ++ bs) = outcomesFor id as ++ outcomesFor id bs := List.flatMap_append

/-- An answer to the job itself gives its item. -/
theorem outcomesFor_self (id : String) (answer : TaskAnswer (Outcome V)) :
    outcomesFor id [(id, answer)] = answer.item?.toList := by
  simp [outcomesFor]

/-- An answer to another job gives none. -/
theorem outcomesFor_of_ne {id id' : String} (h : id' ≠ id) (answer : TaskAnswer (Outcome V)) :
    outcomesFor id [(id', answer)] = [] := by
  simp [outcomesFor, h]

/-- An answer that tells nothing is no outcome. -/
theorem outcomesFor_told (id id' : String) (answer : TaskAnswer (Outcome V)) :
    outcomesFor id (told id' answer) = outcomesFor id [(id', answer)] := by
  unfold told
  split
  · rfl
  · rename_i htells
    have hitem : answer.item? = none := by
      cases answer with
      | answer a => cases a <;> simp [TaskAnswer.tells, TaskAnswer.item?] at htells ⊢
      | finished => rfl
      | unknown => rfl
    simp [outcomesFor, hitem]

/-! ## Polls -/

variable [DecidableEq K]

/-- A poll affects no job but the polled one. -/
theorem jobs_pollJob_of_ne (r : Coalescing K V) {id id' : String} (h : id' ≠ id) :
    (r.pollJob id).2.jobs.get? id' = r.jobs.get? id' := by
  unfold pollJob
  split
  · rfl
  · rfl
  · split
    · exact Table.get?_insert_of_ne _ _ h
    · rfl
  · split
    · exact Table.get?_insert_of_ne _ _ h
    · exact Table.get?_insert_of_ne _ _ h

/-- A poll of a job gives it the outcome of its execution, or nothing, and gives other jobs nothing.
-/
theorem fate_pollJob (id id' : String) {r : Coalescing K V} (hsound : r.Sound) :
    Fate (r.pollJob id).2.flights (r.jobs.get? id') (outcomesFor id' [(id, (r.pollJob id).1)])
      ((r.pollJob id).2.jobs.get? id') := by
  -- A poll answers its own job, and no other.
  by_cases hid : id' = id
  swap
  · rw [jobs_pollJob_of_ne r hid, outcomesFor_of_ne (Ne.symm hid)]
    exact .stays
  subst hid
  rw [outcomesFor_self]
  unfold pollJob
  cases hget : r.jobs.get? id' with
  | none =>
    show Fate _ none [] (r.jobs.get? id')
    rw [hget]
    exact .stays
  | some job =>
    cases job with
    | ended =>
      show Fate _ (some .ended) [] (r.jobs.get? id')
      rw [hget]
      exact .stays
    | exclusive production =>
      simp only
      rcases production.poll r.shop with ⟨rest | outcome, shop⟩
      · refine .alone fun e he => ?_
        have hself := r.jobs.get?_insert_self id' (.exclusive rest)
        cases hself.symm.trans he
      · refine .alone fun e he => ?_
        have hself := r.jobs.get?_insert_self id' .ended
        cases hself.symm.trans he
    | shared e =>
      have hpoll := Flights.polls_of_waiting Production.poll hsound.tracked (waiting_pos hget)
        r.shop
      simp only
      rcases hp : r.flights.poll Production.poll e r.shop with ⟨_ | outcome, f', shop, ns⟩
      · show Fate _ (some (.shared e)) [] (r.jobs.get? id')
        rw [hget]
        exact .stays
      · rw [hp] at hpoll
        obtain ⟨x, hx, hs⟩ := hpoll.outcome hsound.tracked
        show Fate _ (some (.shared e)) [outcome] ((r.jobs.insert id' .ended).get? id')
        rw [Table.get?_insert_self]
        exact .receives (hs ▸ Flights.stage?_of_getElem? hx)

/-- What several polls do to all jobs, by what is answered. -/
structure Answers (r : Coalescing K V) (answers : List (String × TaskAnswer (Outcome V)))
    (r' : Coalescing K V) : Prop where
  sound : r'.Sound
  continues : r.flights.Extends r'.flights
  fate : ∀ id, Fate r'.flights (r.jobs.get? id) (outcomesFor id answers) (r'.jobs.get? id)

/-- Each of the jobs that are joined fares as its own answers say. -/
theorem answers_join (ids : List String) (passes : Nat) {r : Coalescing K V} (h : r.Sound) :
    Answers r (join pollJob passes ids r).1 (join pollJob passes ids r).2 := by
  refine join_rel (R := fun r answers r' => r.Sound → Answers r answers r')
    (fun r hs => ⟨hs, .refl _, fun _ => .stays⟩) (fun h h' hs => ?_) (fun id _ r hs => ?_) passes r
    h
  · have h1 := h hs
    have h2 := h' h1.sound
    refine ⟨h2.sound, h1.continues.trans h2.continues, fun id => ?_⟩
    rw [outcomesFor_append]
    exact (h1.fate id).trans (h2.fate id) h2.continues
  · have hmoves := moves_pollJob id hs
    refine ⟨hmoves.sound, hmoves.continues, fun id' => ?_⟩
    rw [outcomesFor_told]
    exact fate_pollJob id id' hs

/-! ## Steps and runs -/

/-- A run continues the executions. -/
theorem continues_run (steps : List (Step K V)) {r : Coalescing K V} (hsound : r.Sound) :
    r.flights.Extends (r.run steps).2.flights := by
  induction steps generalizing r with
  | nil => exact .refl _
  | cons s rest ih =>
    have hstep := stepsTo_step s hsound
    exact hstep.continues.trans (ih hstep.sound)

/-- To drop a job frees its name, and no other. -/
theorem jobs_dropJob (r : Coalescing K V) (id : String) :
    (r.dropJob id).jobs = r.jobs.erase id := by
  unfold dropJob
  split
  · split <;> rfl
  · rfl
  · rfl
  · rfl

/-- A job that is dropped goes away, others stay. -/
theorem fate_dropJob (r : Coalescing K V) (id id' : String) (f : Flights K (Production V) V) :
    Fate f (r.jobs.get? id') [] ((r.dropJob id).jobs.get? id') := by
  rw [jobs_dropJob]
  by_cases hid : id' = id
  · subst hid
    rw [Table.get?_erase_self]
    exact .goes
  · rw [Table.get?_erase_of_ne _ hid]
    exact .stays

/-- Jobs that are dropped go away, others stay. -/
theorem fate_dropJobs (ids : List String) (r : Coalescing K V) (id : String)
    (f : Flights K (Production V) V) :
    Fate f (r.jobs.get? id) [] ((ids.foldl (fun r id => r.dropJob id) r).jobs.get? id) := by
  induction ids generalizing r with
  | nil => exact .stays
  | cons id' ids ih => exact (fate_dropJob r id' id f).trans (ih _) (.refl f)

/-- A job that takes a name displaces only the job which had it. -/
theorem fate_replace (r : Coalescing K V) {id id' : String} (h : id ≠ id') (job : Job V)
    (f : Flights K (Production V) V) :
    Fate f (r.jobs.get? id') [] ((r.replace id job).jobs.get? id') := by
  have hkeep : (r.replace id job).jobs.get? id' = (r.dropJob id).jobs.get? id' :=
    Table.get?_insert_of_ne _ _ (Ne.symm h)
  rw [hkeep]
  exact fate_dropJob r id id' f

/-- Every job that keeps its name fares in a step as the answers of the step say. -/
theorem fate_perform (s : Step K V) {id : String} (hname : ¬ s.names id) {r : Coalescing K V}
    (hsound : r.Sound) :
    Fate (r.perform s).2.flights (r.jobs.get? id) (outcomesFor id (s.answers (r.perform s).1))
      ((r.perform s).2.jobs.get? id) := by
  cases s with
  | shared id' key producer =>
    rcases hcall : r.flights.enter key (.uncalled id' producer) with ⟨e, f', notice⟩
    have hperform : (r.perform (.shared id' key producer)).2 =
        Coalescing.replace { r with flights := f', notices := r.notices ++ [notice] } id'
          (.shared e) := by
      simp only [perform, call, hcall]
    rw [hperform]
    have hne : id' ≠ id := by simpa [Step.names] using hname
    exact fate_replace { r with flights := f', notices := r.notices ++ [notice] } hne _ _
  | exclusive id' producer =>
    have hne : id' ≠ id := by simpa [Step.names] using hname
    exact fate_replace r hne _ _
  | poll id' => exact fate_pollJob id' id hsound
  | join ids => exact (answers_join ids (ids.length + 1) hsound).fate id
  | drop id' => exact fate_dropJob r id' id _
  | openGate gate => exact .stays
  | closeGate gate => exact .stays
  | inspect => exact .stays
  | dropRegistry => exact fate_dropJobs r.exclusives r id _

/-- Every job that keeps its name fares in a step as the reported answers say, also if the step is
refused. -/
theorem fate_step (s : Step K V) {id : String} (hname : ¬ s.names id) {r : Coalescing K V}
    (hsound : r.Sound) :
    Fate (r.step s).2.flights (r.jobs.get? id)
      (outcomesFor id (s.answers (r.step s).1.response)) ((r.step s).2.jobs.get? id) := by
  rw [step_snd, step_response]
  unfold attempt
  split
  · have hnone : outcomesFor id (s.answers Response.invalid) = [] := by cases s <;> rfl
    rw [hnone]
    exact .stays
  · have hsound₀ : Sound { r with notices := [] } := ⟨hsound.tracked, hsound.registered⟩
    exact fate_perform s hname hsound₀

/-- Every job that keeps its name fares in a run as its receipts say. -/
theorem fate_run (steps : List (Step K V)) {id : String} (hname : ∀ s ∈ steps, ¬ s.names id)
    {r : Coalescing K V} (hsound : r.Sound) :
    ∃ outcomes, Fate (r.run steps).2.flights (r.jobs.get? id) outcomes
        ((r.run steps).2.jobs.get? id) ∧
      (along receipts r steps).filter (·.name = id) =
        receiptsFor id (r.jobs.get? id) outcomes := by
  induction steps generalizing r with
  | nil => exact ⟨[], .stays, (receiptsFor_nil id _).symm⟩
  | cons s rest ih =>
    have hstep := stepsTo_step s hsound
    have hfirst := fate_step s (hname s (List.mem_cons_self ..)) hsound
    obtain ⟨outcomes, hrest, hreceipts⟩ :=
      ih (fun s' hs' => hname s' (List.mem_cons_of_mem _ hs')) hstep.sound
    refine ⟨_, hfirst.trans hrest (continues_run rest hstep.sound), ?_⟩
    rw [along, List.filter_append, hreceipts, receiptsFor_append, hfirst.receiptsFor_eq id hrest,
      ← filter_receipts]
    rfl

/-! ## Receipts are outcomes of executions -/

omit [DecidableEq K] in
/-- An outcome that a job receives is the one with which its execution has settled. -/
theorem Fate.settled {e : Nat} {outcome : Outcome V} (h : Fate f (some (.shared e)) outcomes job')
    (hmem : outcome ∈ outcomes) : f.stage? e = some (.settled outcome) := by
  rcases h.of_shared with ⟨rfl, -⟩ | ⟨outcome', rfl, hs⟩
  · cases hmem
  · rwa [List.mem_singleton.mp hmem]

/-- A receipt of a step is that of an execution which has settled by then. -/
theorem settled_of_mem_receipts {r : Coalescing K V} (hsound : r.Sound) {s : Step K V}
    {c : Receipt V} (hc : c ∈ receipts r s) :
    (r.step s).2.flights.stage? c.execution = some (.settled c.outcome) := by
  have hname : ¬ s.names c.name := by
    intro hnames
    cases s with
    | shared id key producer => cases hc
    | exclusive id producer => cases hc
    | _ => cases hnames
  have hfate := fate_step s hname hsound
  have hfilter : c ∈ (receipts r s).filter (·.name = c.name) :=
    List.mem_filter.mpr ⟨hc, decide_eq_true rfl⟩
  rw [receipts, filter_receipts] at hfilter
  unfold receiptsFor at hfilter
  split at hfilter
  · rename_i e hjob
    obtain ⟨outcome, hmem, hc'⟩ := List.mem_map.mp hfilter
    rw [hjob] at hfate
    rw [← hc']
    exact hfate.settled hmem
  · cases hfilter

/-- Whoever receives an outcome of an execution, at whatever time, receives the one that it has in
the end. -/
theorem settled_of_mem_run (steps : List (Step K V)) {r : Coalescing K V} (hsound : r.Sound)
    {c : Receipt V} (hc : c ∈ along receipts r steps) :
    (r.run steps).2.flights.stage? c.execution = some (.settled c.outcome) := by
  induction steps generalizing r with
  | nil => cases hc
  | cons s rest ih =>
    have hstep := stepsTo_step s hsound
    rcases List.mem_append.mp hc with hc | hc
    · exact (continues_run rest hstep.sound).settled (settled_of_mem_receipts hsound hc)
    · exact ih hstep.sound hc

/-! ## Calls -/

/-- How a call for a key comes to its execution. It attaches to the live execution of the key, and
then nothing that happens depends on the producer it brings; if there is none, it starts one with
that producer. -/
structure Joins (r : Coalescing K V) (id : String) (key : K) (producer : Producer V) : Prop where
  attaches : ∀ e, r.Live e → r.keyOf? e = some key →
    (r.step (.shared id key producer)).2.jobs.get? id = some (.shared e) ∧
      origins r (.shared id key producer) = [] ∧
      ∀ producer', r.step (.shared id key producer') = r.step (.shared id key producer)
  starts : (∀ e, r.Live e → r.keyOf? e ≠ some key) →
    (r.step (.shared id key producer)).2.jobs.get? id =
        some (.shared r.flights.executions.length) ∧
      (r.step (.shared id key producer)).2.keyOf? r.flights.executions.length = some key ∧
      origins r (.shared id key producer) = [(id, producer)]

/-- A call is made after the notices of the step before have been forgotten. -/
theorem step_shared {r : Coalescing K V} (hopen : r.closed = false) (id : String) (key : K)
    (producer : Producer V) :
    (r.step (.shared id key producer)).2 =
      Coalescing.call { r with notices := [] } id key producer := by
  rw [step_snd, attempt, hopen]
  rfl

/-- The job of a call waits for the execution that the call has come to. -/
theorem call_jobs (r : Coalescing K V) (id : String) (key : K) (producer : Producer V) :
    (r.call id key producer).jobs.get? id =
      some (.shared (r.flights.enter key (.uncalled id producer)).1) :=
  Table.get?_insert_self _ _ _

/-- A call starts the executions that coming to its execution starts. -/
theorem call_length (r : Coalescing K V) (id : String) (key : K) (producer : Producer V) :
    (r.call id key producer).flights.executions.length =
      (r.flights.enter key (.uncalled id producer)).2.1.executions.length :=
  (idles_dropJob id _).length

/-- Dropping the job that had the name before leaves the entered executions as they are, the
abandoned one apart. -/
theorem extends_call (id : String) (key : K) (producer : Producer V) {r : Coalescing K V}
    (hsound : r.Sound) (hopen : r.closed = false) :
    (r.flights.enter key (.uncalled id producer)).2.1.Extends
      (r.call id key producer).flights := by
  have htracked := hsound.tracked.enter (hsound.registered hopen) key (.uncalled id producer)
  unfold call
  rcases hcall : r.flights.enter key (.uncalled id producer) with ⟨e, f', notice⟩
  rw [hcall] at htracked
  let r' : Coalescing K V := { r with flights := f', notices := r.notices ++ [notice] }
  have hdrop : DropsJob r' id (Flights.more r.waiting e) := by
    refine dropsJob htracked fun e' he' => ?_
    have hpos : 0 < r.waiting e' := waiting_pos he'
    exact hpos.trans_le (Flights.le_more r.waiting e e')
  exact hdrop.continues

/-- A call attaches to the live execution of its key, or starts one with its own producer. -/
theorem joins (id : String) (key : K) (producer : Producer V) {r : Coalescing K V}
    (hsound : r.Sound) (hopen : r.closed = false) : Joins r id key producer := by
  have hreg := hsound.registered hopen
  have hjoinable : ∀ e, r.Live e → r.keyOf? e = some key →
      ∃ x, r.flights.joinable? key = some (e, x) := by
    intro e hlive hkey
    obtain ⟨x, hx, hrun⟩ := (hsound.live_iff_runs e).mp hlive
    rw [keyOf?, hx, Option.map_some, Option.some.injEq] at hkey
    exact ⟨x, (Flights.joinable?_eq_some_iff hsound.tracked hreg).mpr ⟨hx, hkey, hrun⟩⟩
  constructor
  · intro e hlive hkey
    obtain ⟨x, hj⟩ := hjoinable e hlive hkey
    have henter : ∀ work, r.flights.enter key work =
        (e, r.flights.set e { x with callers := x.callers + 1 }, .attached e r.flights.ongoing) :=
      fun work => by simp [Flights.enter, hj]
    -- Nothing is started, so that the call adds no origin.
    have hlength : (r.step (.shared id key producer)).2.flights.executions.length =
        r.flights.executions.length := by
      rw [step_shared hopen, call_length]
      simp only [henter, Flights.length_set]
    refine ⟨?_, by rw [origins, if_pos hlength], fun producer' => ?_⟩
    · rw [step_shared hopen, call_jobs]
      simp only [henter]
    · simp only [step, hopen, Bool.false_and, Bool.false_eq_true, if_false, perform, call, henter]
  · intro hnone
    have hj : r.flights.joinable? key = none := by
      cases hj : r.flights.joinable? key with
      | none => rfl
      | some p =>
        obtain ⟨hx, hkey, hrun⟩ := (Flights.joinable?_eq_some_iff hsound.tracked hreg).mp hj
        have hlive := (hsound.live_iff_runs p.1).mpr ⟨_, hx, hrun⟩
        exact absurd (by rw [keyOf?, hx, Option.map_some, hkey]) (hnone _ hlive)
    have henter : r.flights.enter key (.uncalled id producer) =
        r.flights.start key (.uncalled id producer) := by simp [Flights.enter, hj]
    have hlength : (r.step (.shared id key producer)).2.flights.executions.length =
        r.flights.executions.length + 1 := by
      rw [step_shared hopen, call_length]
      simp only [henter, Flights.executions_start, List.length_append, List.length_singleton]
    refine ⟨?_, ?_, by rw [origins, if_neg (by omega)]⟩
    · rw [step_shared hopen, call_jobs]
      simp only [henter]
      rfl
    · have hextends := extends_call id key producer
        (r := { r with notices := [] }) ⟨hsound.tracked, hsound.registered⟩ hopen
      rw [henter] at hextends
      obtain ⟨x', hx', hkey, -⟩ :=
        hextends (Flights.executions_start_self r.flights key (.uncalled id producer))
      rw [step_shared hopen, keyOf?, hx', Option.map_some, hkey]

/-- The calls of producers in a run, attributed to executions and to jobs that run alone. An
execution calls no producer but that of the job which started it, at most once and only after one of
its jobs was polled, and whatever its jobs receive is what this producer ends with. -/
structure Attributed (steps : List (Step K V)) (log : List Invocation) : Prop where
  names : log.map (·.name) = (run ({} : Coalescing K V) steps).2.shop.started
  once : (log.filterMap (·.execution)).Nodup
  origin : ∀ i ∈ log, ∀ e, i.execution = some e →
    ∃ producer, (along origins ({} : Coalescing K V) steps)[e]? = some (i.name, producer)
  polled : ∀ i ∈ log, ∀ e, i.execution = some e →
    e ∈ along polled ({} : Coalescing K V) steps
  lone : ∀ name,
    log.count ⟨none, name⟩ ≤ (along soloists ({} : Coalescing K V) steps).count name
  outcome : ∀ c ∈ along receipts ({} : Coalescing K V) steps,
    Produced (along origins {} steps) log c.execution c.outcome

/-- What becomes of a job that waits for an execution, as long as no other job takes its name: it
receives at most one outcome, that of the execution; it has ended only if it received it; and if
the execution has settled, the next poll of the job answers its outcome. -/
structure Served (r : Coalescing K V) (id : String) (e : Nat) (steps : List (Step K V)) : Prop where
  attached : r.jobs.get? id = some (.shared e)
  atMostOnce : (along receipts r steps).filter (·.name = id) = [] ∨
    ∃ outcome, (along receipts r steps).filter (·.name = id) = [⟨id, e, outcome⟩]
  ended : (r.run steps).2.jobs.get? id = some .ended →
    ∃ outcome, (along receipts r steps).filter (·.name = id) = [⟨id, e, outcome⟩]
  answered : ∀ outcome, (r.run steps).2.jobs.get? id = some (.shared e) →
    (r.run steps).2.flights.stage? e = some (.settled outcome) →
    ((r.run steps).2.step (.poll id)).1.response = .answer (.answer (.item outcome))

/-- If the log of a run is right, the calls of producers are attributed to executions and to jobs
that run alone. -/
theorem Ledger.attributed {steps : List (Step K V)} {log : List Invocation}
    (h : Ledger (Coalescing.run ({} : Coalescing K V) steps).2 (along origins {} steps)
      (along soloists {} steps) (along polled {} steps) log) : Attributed steps log where
  names := h.names
  once := h.once
  origin i hi e he := (h.sourced i hi e he).2
  polled i hi e he := (h.sourced i hi e he).1
  lone name := (Nat.le_add_right _ _).trans (h.lone name)
  outcome c hc := h.stages c.execution _ (settled_of_mem_run steps sound_init hc)

/-- The calls of producers in any run can be attributed. -/
theorem exists_attributed (steps : List (Step K V)) : ∃ log, Attributed steps log := by
  obtain ⟨log, h⟩ := exists_ledger steps
  exact ⟨log, h.attributed⟩

/-- A poll of a job whose execution has settled answers the outcome. -/
theorem response_poll {r : Coalescing K V} {id : String} {e : Nat} {outcome : Outcome V}
    (hjob : r.jobs.get? id = some (.shared e))
    (hs : r.flights.stage? e = some (.settled outcome)) :
    (r.step (.poll id)).1.response = .answer (.answer (.item outcome)) := by
  obtain ⟨x, hx, hstage⟩ := Flights.exists_of_stage? hs
  have hpoll : r.flights.poll Production.poll e r.shop =
      (some outcome, r.flights.set e { x with callers := x.callers - 1 }, r.shop, []) := by
    simp only [Flights.poll, hx, hstage]
  rw [step_response, attempt, if_neg (by simp [Step.needsRegistry]), perform, pollJob]
  simp only [hjob, hpoll]

/-- A job that waits for an execution is served as long as it keeps its name. -/
theorem served {r : Coalescing K V} (hsound : r.Sound) {id : String} {e : Nat}
    (hjob : r.jobs.get? id = some (.shared e)) (steps : List (Step K V))
    (hname : ∀ s ∈ steps, ¬ s.names id) : Served r id e steps := by
  obtain ⟨outcomes, hfate, hreceipts⟩ := fate_run steps hname hsound
  rw [hjob] at hfate hreceipts
  have hmap : receiptsFor id (some (.shared e)) outcomes = outcomes.map (⟨id, e, ·⟩) := rfl
  rw [hmap] at hreceipts
  rcases hfate.of_shared with ⟨rfl, hjob'⟩ | ⟨outcome, rfl, -⟩
  · refine ⟨hjob, .inl hreceipts, fun hend => ?_, fun _ => response_poll⟩
    rw [hend] at hjob'
    rcases hjob' with hjob' | hjob' <;> cases hjob'
  · exact ⟨hjob, .inr ⟨outcome, hreceipts⟩, fun _ => ⟨outcome, hreceipts⟩, fun _ => response_poll⟩

/-- One execution has one outcome, and each of its callers receives it once. For a call made at any
point of any run: the call attaches to the live execution of its key or starts one, and its producer
matters only in the second case; every call of a producer belongs to one execution, and comes after
a poll of that execution; whoever receives outcomes of one execution receives the same; and the job
of the call receives at most one outcome, of an execution that was not gone when the call was
made. -/
theorem one_outcome_per_execution (before after : List (Step K V)) (id : String) (key : K)
    (producer : Producer V) (hopen : (run ({} : Coalescing K V) before).2.closed = false)
    (hname : ∀ s ∈ after, ¬ s.names id) :
    let call := Step.shared id key producer
    let steps := before ++ call :: after
    let r := (run ({} : Coalescing K V) before).2
    Joins r id key producer ∧
    (∃ log, Attributed steps log) ∧
    (∀ c ∈ along receipts ({} : Coalescing K V) steps,
      ∀ c' ∈ along receipts ({} : Coalescing K V) steps,
        c.execution = c'.execution → c.outcome = c'.outcome) ∧
    ∃ e, ¬ r.Gone e ∧ Served (r.step call).2 id e after := by
  intro call steps r
  have hsound : r.Sound := sound_run before sound_init
  have hjoins := joins id key producer hsound hopen
  have hcall := (stepsTo_step call hsound).sound
  refine ⟨hjoins, exists_attributed steps, fun c hc c' hc' he => ?_, ?_⟩
  · have h := settled_of_mem_run steps sound_init hc
    have h' := settled_of_mem_run steps sound_init hc'
    rw [he, h', Option.some.injEq, Stage.settled.injEq] at h
    exact h.symm
  · by_cases hlive : ∃ e, r.Live e ∧ r.keyOf? e = some key
    · obtain ⟨e, hlive, hkey⟩ := hlive
      obtain ⟨hjob, -, -⟩ := hjoins.attaches e hlive hkey
      exact ⟨e, fun hgone => hgone.2 hlive, served hcall hjob after hname⟩
    · obtain ⟨hjob, -, -⟩ := hjoins.starts fun e h hk => hlive ⟨e, h, hk⟩
      exact ⟨_, fun hgone => lt_irrefl _ hgone.1, served hcall hjob after hname⟩

/-- A call is made while an execution of its key has been started and not yet polled. -/
def beforeCall : List (Step Nat Nat) :=
  [.shared "a" 7 { wait := ⟨none, 1⟩, ending := fun n => .value (n + 40) }]

/-- The job of the call polls first; when the execution has settled, another call is made. -/
def afterCall : List (Step Nat Nat) :=
  [.poll "b", .join ["a", "b"], .shared "c" 7 { refusal := some "boom", ending := .value },
    .poll "b", .poll "c"]

/-- The producer of a call that attaches. -/
def unusedProducer : Producer Nat := { refusal := some "never called", ending := .value }

/-- Here a call attaches to an execution that nobody has polled, and its job is the one that polls
it. -/
theorem one_outcome_per_execution_attached :
    let call := Step.shared "b" 7 unusedProducer
    let r := (run ({} : Coalescing Nat Nat) beforeCall).2
    r.closed = false ∧ (∀ s ∈ afterCall, ¬ s.names "b") ∧
      along receipts ({} : Coalescing Nat Nat) (beforeCall ++ call :: afterCall) =
        [⟨"a", 0, .value 41⟩, ⟨"b", 0, .value 41⟩, ⟨"c", 1, .panicked "boom"⟩] ∧
      (∃ log, Attributed (beforeCall ++ call :: afterCall) log) ∧
      ∃ e, ¬ r.Gone e ∧ Served (r.step call).2 "b" e afterCall := by
  intro call r
  have hname : ∀ s ∈ afterCall, ¬ s.names "b" := by decide
  obtain ⟨-, hlog, -, hserved⟩ :=
    one_outcome_per_execution beforeCall afterCall "b" 7 unusedProducer rfl hname
  exact ⟨rfl, hname, by decide, hlog, hserved⟩

end Coalescing

end ReadThrough
