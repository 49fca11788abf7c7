import ReadThrough.Proofs.Coalescing.Steadiness
import ReadThrough.Proofs.Coalescing.Independence
import ReadThrough.Proofs.Flights.Copies
/-!
# Proofs: a state without the other jobs

A state in which only the jobs of some keys exist, besides another one with all jobs (`Mirrors`).
What happens to a job of these keys happens to it in the mirror as well, and it is told the same;
what happens to the other jobs, those that run alone included, leaves the mirror alone.
-/

namespace ReadThrough

variable {K V : Type}

/-- The same job, if the executions have other places. -/
def Job.moved (place : Nat → Nat) : Job V → Job V
  | .shared e => .shared (place e)
  | .exclusive production => .exclusive production
  | .ended => .ended

namespace Coalescing

/-- The state `r'` has of `r` the executions of some keys and the jobs with the names in `mine`. -/
structure Mirrors (owns : K → Bool) (mine : String → Bool) (place : Nat → Nat)
    (r r' : Coalescing K V) : Prop where
  flights : Flights.Copies owns place r.flights r'.flights
  jobs : ∀ id, r'.jobs.get? id = if mine id then (r.jobs.get? id).map (Job.moved place) else none
  /-- A job has one of the names exactly if it waits for an execution of one of the keys. -/
  divided : ∀ {id e}, r.jobs.get? id = some (.shared e) →
    ∃ x, r.flights.executions[e]? = some x ∧ owns x.key = mine id
  gates : r'.shop.gates = r.shop.gates
  closed : r'.closed = r.closed

variable {owns : K → Bool} {mine : String → Bool} {place : Nat → Nat} {r r' : Coalescing K V}
  {id : String}

/-- A job of one of the names is in the mirror, and waits for the same execution there. -/
theorem Mirrors.get?_of_mine (h : Mirrors owns mine place r r') (hmine : mine id = true) :
    r'.jobs.get? id = (r.jobs.get? id).map (Job.moved place) := by
  rw [h.jobs, if_pos hmine]

/-- No other job is in the mirror. -/
theorem Mirrors.get?_of_not_mine (h : Mirrors owns mine place r r') (hmine : mine id = false) :
    r'.jobs.get? id = none := by
  rw [h.jobs, if_neg (by simp [hmine])]

/-- A new job of one of the keys appears in both states. -/
theorem Mirrors.keep_both (h : Mirrors owns mine place r r') (id : String) (job : Job V)
    (hjob : ∀ e, job = .shared e →
      ∃ x, r.flights.executions[e]? = some x ∧ owns x.key = true) :
    Mirrors owns (Function.update mine id true) place (r.keep id job)
      (r'.keep id (job.moved place)) := by
  refine ⟨h.flights, ?_, ?_, h.gates, h.closed⟩
  · intro id'
    show (r'.jobs.insert id (job.moved place)).get? id' =
      if Function.update mine id true id' then
        ((r.jobs.insert id job).get? id').map (Job.moved place) else none
    by_cases hid : id' = id
    · subst hid
      rw [Table.get?_insert_self, Table.get?_insert_self, Function.update_self]
      rfl
    · rw [Table.get?_insert_of_ne _ _ hid, Table.get?_insert_of_ne _ _ hid,
        Function.update_of_ne hid, h.jobs]
  · intro id' e hget
    by_cases hid : id' = id
    · subst hid
      rw [Function.update_self]
      exact hjob e (Option.some.inj ((Table.get?_insert_self ..).symm.trans hget))
    · rw [Function.update_of_ne hid]
      exact h.divided ((Table.get?_insert_of_ne _ _ hid).symm.trans hget)

/-- A new job of another key, or one that runs alone, does not appear in the mirror. -/
theorem Mirrors.keep_stranger (h : Mirrors owns mine place r r') (id : String) (job : Job V)
    (hgone : r'.jobs.get? id = none)
    (hjob : ∀ e, job = .shared e →
      ∃ x, r.flights.executions[e]? = some x ∧ owns x.key = false) :
    Mirrors owns (Function.update mine id false) place (r.keep id job) r' := by
  refine ⟨h.flights, ?_, ?_, h.gates, h.closed⟩
  · intro id'
    show _ = if Function.update mine id false id' then
        ((r.jobs.insert id job).get? id').map (Job.moved place) else none
    by_cases hid : id' = id
    · subst hid
      rw [Function.update_self, hgone]
      rfl
    · rw [Table.get?_insert_of_ne _ _ hid, Function.update_of_ne hid, h.jobs]
  · intro id' e hget
    by_cases hid : id' = id
    · subst hid
      rw [Function.update_self]
      exact hjob e (Option.some.inj ((Table.get?_insert_self ..).symm.trans hget))
    · rw [Function.update_of_ne hid]
      exact h.divided ((Table.get?_insert_of_ne _ _ hid).symm.trans hget)

/-- Executions stay divided when they go on. -/
theorem Mirrors.divided_of_keeps (h : Mirrors owns mine place r r')
    {f : Flights K (Production V) V} (hkeeps : r.flights.Keeps f) {id : String} {e : Nat}
    (hget : r.jobs.get? id = some (.shared e)) :
    ∃ x, f.executions[e]? = some x ∧ owns x.key = mine id := by
  obtain ⟨x, hx, hown⟩ := h.divided hget
  obtain ⟨y, hy, hkey, -⟩ := hkeeps hx
  exact ⟨y, hy, hkey ▸ hown⟩

/-! ## Polls -/

/-- Removals are no attachments. -/
theorem attached_of_removed {e : Nat} {ns : List Notice} (h : ∀ n ∈ ns, n.removed? = some e)
    (before : List Notice) :
    (before ++ ns).filterMap Notice.attached? = before.filterMap Notice.attached? := by
  have hnone : ns.filterMap Notice.attached? = [] :=
    List.filterMap_eq_nil_iff.mpr fun n hn => Notice.attached?_of_removed? (h n hn)
  rw [List.filterMap_append, hnone, List.append_nil]

variable [DecidableEq K]

/-- A poll does not enter the registry. -/
theorem attached_pollJob (r : Coalescing K V) (id : String) :
    (r.pollJob id).2.notices.filterMap Notice.attached? =
      r.notices.filterMap Notice.attached? := by
  unfold pollJob
  cases hget : r.jobs.get? id with
  | none => rfl
  | some job =>
    cases job with
    | ended => rfl
    | exclusive production =>
      dsimp only
      rcases production.poll r.shop with ⟨rest | outcome, shop⟩
      · rfl
      · rfl
    | shared e =>
      obtain ⟨-, hremoved⟩ := Flights.poll_works Production.poll r.flights e r.shop
      dsimp only
      rcases hpoll : r.flights.poll Production.poll e r.shop with ⟨answer, f', shop, ns⟩
      rw [hpoll] at hremoved
      have hnone := attached_of_removed hremoved r.notices
      cases answer with
      | none => exact hnone
      | some outcome => exact hnone

/-- A job of one of the keys is answered the same in the mirror. -/
theorem Mirrors.pollJob_both (h : Mirrors owns mine place r r') (hsound : r.Sound)
    (hsteady : r.Steady) (hmine : mine id = true) :
    (r'.pollJob id).1 = (r.pollJob id).1 ∧
      Workshop.Likewise r.shop r'.shop (r.pollJob id).2.shop (r'.pollJob id).2.shop ∧
      Mirrors owns mine place (r.pollJob id).2 (r'.pollJob id).2 := by
  have hget' := h.get?_of_mine hmine
  have hours : Function.update mine id true = mine := by
    rw [← hmine]
    exact Function.update_eq_self id mine
  unfold pollJob
  rw [hget']
  cases hget : r.jobs.get? id with
  | none => exact ⟨rfl, .refl h.gates, h⟩
  | some job =>
    cases job with
    | ended => exact ⟨rfl, .refl h.gates, h⟩
    | exclusive production =>
      obtain ⟨hprogress, hlike⟩ := Production.poll_likewise (hsteady.alone hget) h.gates
      simp only [Option.map_some, Job.moved]
      rcases hpoll : production.poll r.shop with ⟨progress, shop⟩
      rcases hpoll' : production.poll r'.shop with ⟨progress', shop'⟩
      rw [hpoll, hpoll'] at hprogress hlike
      obtain rfl : progress' = progress := hprogress
      have hnext : Mirrors owns mine place { r with shop } { r' with shop := shop' } :=
        ⟨h.flights, h.jobs, h.divided, hlike.gates, h.closed⟩
      cases progress' with
      | waiting rest =>
        have hkept := hnext.keep_both id (.exclusive rest) nofun
        exact ⟨rfl, hlike, hours ▸ hkept⟩
      | finished outcome =>
        have hkept := hnext.keep_both id .ended nofun
        exact ⟨rfl, hlike, hours ▸ hkept⟩
    | shared e =>
      obtain ⟨x, hx, hown⟩ := h.divided hget
      rw [hmine] at hown
      have hpolls := Flights.polls_of_waiting Production.poll hsound.tracked (waiting_pos hget)
        r.shop
      have hkeeps := Flights.keeps_poll Production.poll r.flights e r.shop
      simp only [Option.map_some, Job.moved]
      rcases hpoll : r.flights.poll Production.poll e r.shop with ⟨answer, f₁, shop, ns⟩
      rw [hpoll] at hpolls hkeeps
      -- The execution is polled on the one side and its copy on the other.
      obtain ⟨hanswer, hlike, hcopies⟩ := h.flights.poll_both hsound.tracked hx
        hown (R := Workshop.Likewise r.shop r'.shop) (.refl h.gates)
        (fun work hstage => Production.poll_likewise
          (hsteady.shared work (Flights.mem_works hx hstage)) h.gates) hpolls
      rcases hpoll' : r'.flights.poll Production.poll (place e) r'.shop with
        ⟨answer', f₁', shop', ns'⟩
      rw [hpoll'] at hanswer hlike hcopies
      obtain rfl : answer' = answer := hanswer
      have hnext : Mirrors owns mine place
          { r with flights := f₁, shop, notices := r.notices ++ ns }
          { r' with flights := f₁', shop := shop', notices := r'.notices ++ ns' } :=
        ⟨hcopies, h.jobs, h.divided_of_keeps hkeeps, hlike.gates, h.closed⟩
      cases answer' with
      | none => exact ⟨rfl, hlike, hnext⟩
      | some outcome =>
        have hkept := hnext.keep_both id .ended nofun
        exact ⟨rfl, hlike, hours ▸ hkept⟩

/-- A poll of any other job leaves the mirror alone. -/
theorem Mirrors.pollJob_stranger (h : Mirrors owns mine place r r') (hsound : r.Sound)
    (hmine : mine id = false) : Mirrors owns mine place (r.pollJob id).2 r' := by
  have hgone := h.get?_of_not_mine hmine
  have hours : Function.update mine id false = mine := by
    rw [← hmine]
    exact Function.update_eq_self id mine
  unfold pollJob
  cases hget : r.jobs.get? id with
  | none => exact h
  | some job =>
    cases job with
    | ended => exact h
    | exclusive production =>
      have hgates := Production.gates_poll production r.shop
      dsimp only
      rcases hpoll : production.poll r.shop with ⟨progress, shop⟩
      rw [hpoll] at hgates
      have hnext : Mirrors owns mine place { r with shop } r' :=
        ⟨h.flights, h.jobs, h.divided, h.gates.trans hgates.symm, h.closed⟩
      cases progress with
      | waiting rest =>
        have hkept := hnext.keep_stranger id (.exclusive rest) hgone nofun
        exact hours ▸ hkept
      | finished outcome =>
        have hkept := hnext.keep_stranger id .ended hgone nofun
        exact hours ▸ hkept
    | shared e =>
      obtain ⟨x, hx, hown⟩ := h.divided hget
      rw [hmine] at hown
      have hpolls := Flights.polls_of_waiting Production.poll hsound.tracked (waiting_pos hget)
        r.shop
      have hkeeps := Flights.keeps_poll Production.poll r.flights e r.shop
      -- Work may call its producer and be done with, but it turns no gates.
      have hgates : (r.flights.poll Production.poll e r.shop).2.2.1.gates = r.shop.gates := by
        obtain ⟨hsame | ⟨work, -, hworks⟩, -⟩ :=
          Flights.poll_works Production.poll r.flights e r.shop
        · rw [hsame]
        · rw [hworks, Production.gates_poll]
      dsimp only
      rcases hpoll : r.flights.poll Production.poll e r.shop with ⟨answer, f₁, shop, ns⟩
      rw [hpoll] at hpolls hkeeps hgates
      have hnext : Mirrors owns mine place
          { r with flights := f₁, shop, notices := r.notices ++ ns } r' :=
        ⟨h.flights.poll_stranger hsound.tracked hx hown hpolls, h.jobs,
          h.divided_of_keeps hkeeps, h.gates.trans hgates.symm, h.closed⟩
      cases answer with
      | none => exact hnext
      | some outcome =>
        have hkept := hnext.keep_stranger id .ended hgone nofun
        exact hours ▸ hkept

/-! ## Departures -/

omit [DecidableEq K] in
/-- To drop work opens and closes no gate. -/
theorem gates_discard (production : Production V) (shop : Workshop) :
    (production.discard shop).gates = shop.gates := by
  cases production <;> rfl

/-- To drop a job opens and closes no gate. -/
theorem gates_dropJob (r : Coalescing K V) (id : String) :
    (r.dropJob id).shop.gates = r.shop.gates := by
  unfold dropJob
  cases hget : r.jobs.get? id with
  | none => rfl
  | some job =>
    cases job with
    | ended => rfl
    | exclusive production => exact gates_discard production r.shop
    | shared e =>
      dsimp only
      rcases r.flights.leave e with ⟨_ | production, f', ns⟩
      · rfl
      · exact gates_discard production r.shop

/-- What to drop a job does to the executions. -/
theorem flights_dropJob (r : Coalescing K V) (id : String) :
    (r.dropJob id).flights = match r.jobs.get? id with
      | some (.shared e) => (r.flights.leave e).2.1
      | _ => r.flights := by
  unfold dropJob
  cases hget : r.jobs.get? id with
  | none => rfl
  | some job =>
    cases job with
    | ended => rfl
    | exclusive production => rfl
    | shared e =>
      dsimp only
      rcases r.flights.leave e with ⟨_ | production, f', ns⟩
      · rfl
      · rfl

/-- To drop a job does not close the registry. -/
theorem closed_dropJob (r : Coalescing K V) (id : String) :
    (r.dropJob id).closed = r.closed := by
  unfold dropJob
  split
  · split <;> rfl
  · rfl
  · rfl
  · rfl

/-- To drop a job leaves all executions in their places. -/
theorem keeps_dropJob (r : Coalescing K V) (id : String) :
    r.flights.Keeps (r.dropJob id).flights := by
  rw [flights_dropJob]
  split
  · exact r.flights.keeps_leave _
  · exact .refl _

/-- A departure does not enter the registry. -/
theorem attached_dropJob (r : Coalescing K V) (id : String) :
    (r.dropJob id).notices.filterMap Notice.attached? =
      r.notices.filterMap Notice.attached? := by
  unfold dropJob
  cases hget : r.jobs.get? id with
  | none => rfl
  | some job =>
    cases job with
    | ended => rfl
    | exclusive production => rfl
    | shared e =>
      have hremoved : ∀ n ∈ (r.flights.leave e).2.2, n.removed? = some e := by
        intro n hn
        unfold Flights.leave at hn
        rcases hleft : r.flights.detach e with ⟨_ | work, f'⟩ <;> rw [hleft] at hn
        · cases hn
        · exact Flights.removed?_of_mem_release hn
      dsimp only
      rcases hleave : r.flights.leave e with ⟨_ | production, f', ns⟩
      · rw [hleave] at hremoved
        exact attached_of_removed hremoved r.notices
      · rw [hleave] at hremoved
        exact attached_of_removed hremoved r.notices

section Departures

variable {waiting : Nat → Nat} (h : Mirrors owns mine place r r')
  (htracked : r.flights.Tracked waiting)
  (hpos : ∀ e, r.jobs.get? id = some (.shared e) → 0 < waiting e)

include h htracked hpos

/-- Whoever waits for an execution of another key leaves the mirror alone in going away. -/
theorem Mirrors.dropJob_stranger (hmine : mine id = false) :
    Mirrors owns mine place (r.dropJob id) r' := by
  refine ⟨?_, ?_, ?_, ?_, ?_⟩
  · rw [flights_dropJob]
    split
    · rename_i e hget
      obtain ⟨x, hx, hown⟩ := h.divided hget
      exact h.flights.leave_stranger htracked hx (hown.trans hmine)
        (Flights.leaves_of_waiting htracked (hpos e hget))
    · exact h.flights
  · intro id'
    rw [h.jobs, jobs_dropJob]
    by_cases hid : id' = id
    · rw [hid, hmine]
      rfl
    · rw [Table.get?_erase_of_ne _ hid]
  · intro id' e hget
    rw [jobs_dropJob] at hget
    by_cases hid : id' = id
    · rw [hid, Table.get?_erase_self] at hget
      cases hget
    · rw [Table.get?_erase_of_ne _ hid] at hget
      exact h.divided_of_keeps (keeps_dropJob r id) hget
  · rw [gates_dropJob, h.gates]
  · rw [closed_dropJob, h.closed]

/-- A job of one of the names is dropped on both sides. -/
theorem Mirrors.dropJob_both : Mirrors owns mine place (r.dropJob id) (r'.dropJob id) := by
  refine ⟨?_, ?_, ?_, ?_, ?_⟩
  · cases hmine : mine id with
    | false =>
      have hgone := h.get?_of_not_mine hmine
      have hsame : (r'.dropJob id).flights = r'.flights := by rw [flights_dropJob, hgone]
      rw [hsame]
      exact (h.dropJob_stranger htracked hpos hmine).flights
    | true =>
      rw [flights_dropJob, flights_dropJob, h.get?_of_mine hmine]
      cases hget : r.jobs.get? id with
      | none => exact h.flights
      | some job =>
        cases job with
        | ended | exclusive => exact h.flights
        | shared e =>
          obtain ⟨x, hx, hown⟩ := h.divided hget
          exact (h.flights.leave_both htracked hx (hown.trans hmine)
            (Flights.leaves_of_waiting htracked (hpos e hget))).2
  · intro id'
    rw [jobs_dropJob, jobs_dropJob]
    by_cases hid : id' = id
    · rw [hid, Table.get?_erase_self, Table.get?_erase_self]
      split <;> rfl
    · rw [Table.get?_erase_of_ne _ hid, Table.get?_erase_of_ne _ hid, h.jobs]
  · intro id' e hget
    rw [jobs_dropJob] at hget
    by_cases hid : id' = id
    · rw [hid, Table.get?_erase_self] at hget
      cases hget
    · rw [Table.get?_erase_of_ne _ hid] at hget
      exact h.divided_of_keeps (keeps_dropJob r id) hget
  · rw [gates_dropJob, gates_dropJob, h.gates]
  · rw [closed_dropJob, closed_dropJob, h.closed]

end Departures

/-! ## Calls -/

omit [DecidableEq K] in
/-- The mirror does not show the notices. -/
theorem Mirrors.quiet (h : Mirrors owns mine place r r') :
    Mirrors owns mine place r.quiet r'.quiet :=
  ⟨h.flights, h.jobs, h.divided, h.gates, h.closed⟩

/-- A job that takes the place of another goes its own way; if it took a name in `mine`, the mirror
loses the job of that name. -/
theorem Mirrors.replace_stranger (h : Mirrors owns mine place r r') {waiting : Nat → Nat}
    (htracked : r.flights.Tracked waiting)
    (hpos : ∀ e, r.jobs.get? id = some (.shared e) → 0 < waiting e) (job : Job V)
    (hjob : ∀ e, job = .shared e →
      ∃ x, r.flights.executions[e]? = some x ∧ owns x.key = false) :
    Mirrors owns (Function.update mine id false) place (r.replace id job)
      (if mine id then r'.dropJob id else r') := by
  have hjob' : ∀ e, job = .shared e →
      ∃ x, (r.dropJob id).flights.executions[e]? = some x ∧ owns x.key = false := by
    intro e he
    obtain ⟨x, hx, hown⟩ := hjob e he
    obtain ⟨y, hy, hkey, -⟩ := keeps_dropJob r id hx
    exact ⟨y, hy, hkey ▸ hown⟩
  cases hmine : mine id with
  | true =>
    have hgone : (r'.dropJob id).jobs.get? id = none := by
      rw [jobs_dropJob, Table.get?_erase_self]
    exact (h.dropJob_both htracked hpos).keep_stranger id job hgone hjob'
  | false =>
    exact (h.dropJob_stranger htracked hpos hmine).keep_stranger id job
      (h.get?_of_not_mine hmine) hjob'

/-- What a call for a key finds: the execution that it enters is one of the key, and the callers are
those before, the new one included. -/
theorem Sound.entered (hsound : r.Sound) (hopen : r.closed = false) (key : K)
    (work : Production V) :
    (r.flights.enter key work).2.1.Tracked
        (Flights.more r.waiting (r.flights.enter key work).1) ∧
      r.flights.Keeps (r.flights.enter key work).2.1 ∧
      ∃ x, (r.flights.enter key work).2.1.executions[(r.flights.enter key work).1]? = some x ∧
        x.key = key := by
  have hregistered := hsound.registered hopen
  exact ⟨hsound.tracked.enter hregistered key work, r.flights.keeps_enter key work,
    (hregistered.labelled.enter key work).2⟩

omit [DecidableEq K] in
/-- A job that shares an execution keeps waiting for it when others come. -/
theorem waiting_pos_more {e : Nat} (e' : Nat) (hget : r.jobs.get? id = some (.shared e)) :
    0 < Flights.more r.waiting e' e :=
  (waiting_pos hget).trans_le (Flights.le_more _ _ _)

/-- A call for another key takes the job whose name it gets out of the mirror, and does nothing else
to it. -/
theorem Mirrors.call_stranger (h : Mirrors owns mine place r r') (hsound : r.Sound)
    (hopen : r.closed = false) (id : String) {key : K} (hother : owns key = false)
    (producer : Producer V) :
    Mirrors owns (Function.update mine id false) place (r.call id key producer)
      (if mine id then r'.dropJob id else r') := by
  obtain ⟨htracked, hkeeps, x, hx, hkey⟩ := hsound.entered hopen key (.uncalled id producer)
  have hcopies := h.flights.enter_stranger hsound.tracked (hsound.registered hopen) hother
    (.uncalled id producer)
  unfold call
  rcases henter : r.flights.enter key (.uncalled id producer) with ⟨e, f, notice⟩
  rw [henter] at htracked hkeeps hx hcopies
  have hentered : Mirrors owns mine place { r with flights := f, notices := r.notices ++ [notice] }
      r' := ⟨hcopies, h.jobs, h.divided_of_keeps hkeeps, h.gates, h.closed⟩
  refine hentered.replace_stranger htracked (fun e' hget => waiting_pos_more e hget) _ ?_
  rintro e' ⟨⟩
  exact ⟨x, hx, hkey ▸ hother⟩

/-- A call for one of the keys is made in the mirror as well, and attaches there as well, or starts
an execution there as well. -/
theorem Mirrors.call_both (h : Mirrors owns mine place r r') (hsound : r.Sound)
    (hsound' : r'.Sound) (hopen : r.closed = false) (id : String) {key : K}
    (hown : owns key = true) (producer : Producer V) :
    (r'.flights.enter key (.uncalled id producer)).2.2.attached? =
        (r.flights.enter key (.uncalled id producer)).2.2.attached? ∧
      ∃ place', Mirrors owns (Function.update mine id true) place' (r.call id key producer)
        (r'.call id key producer) := by
  obtain ⟨htracked, hkeeps, x, hx, hkey⟩ := hsound.entered hopen key (.uncalled id producer)
  obtain ⟨place', hsame, hplace, hattached, hcopies⟩ := h.flights.enter_both hsound.tracked
    (hsound.registered hopen) hsound'.tracked (hsound'.registered (h.closed.trans hopen)) hown
    (.uncalled id producer)
  refine ⟨hattached, place', ?_⟩
  have hjobs : ∀ id', (r.jobs.get? id').map (Job.moved place') =
      (r.jobs.get? id').map (Job.moved place) := by
    intro id'
    cases hget : r.jobs.get? id' with
    | none => rfl
    | some job =>
      cases job with
      | ended | exclusive => rfl
      | shared e =>
        rw [Option.map_some, Option.map_some, Job.moved, Job.moved,
          hsame e (hsound.tracked.known (waiting_pos hget))]
  unfold call
  rcases henter : r.flights.enter key (.uncalled id producer) with ⟨e, f, notice⟩
  rcases henter' : r'.flights.enter key (.uncalled id producer) with ⟨e', f', notice'⟩
  rw [henter] at htracked hkeeps hx hplace hcopies
  rw [henter'] at hplace hcopies
  obtain rfl : place' e = e' := hplace
  have hentered : Mirrors owns mine place'
      { r with flights := f, notices := r.notices ++ [notice] }
      { r' with flights := f', notices := r'.notices ++ [notice'] } :=
    ⟨hcopies, fun id' => by rw [hjobs]; exact h.jobs id', h.divided_of_keeps hkeeps, h.gates,
      h.closed⟩
  have hpos : ∀ e', r.jobs.get? id = some (.shared e') → 0 < Flights.more r.waiting e e' :=
    fun e' hget => waiting_pos_more e hget
  have hdropped := hentered.dropJob_both htracked hpos
  refine hdropped.keep_both id (.shared e) ?_
  rintro e' ⟨⟩
  obtain ⟨y, hy, hkey', -⟩ := keeps_dropJob
    { r with flights := f, notices := r.notices ++ [notice] } id hx
  exact ⟨y, hy, by rw [hkey', hkey, hown]⟩

/-! ## The end of the registry -/

/-- Jobs that run alone go away without a trace in the registry. -/
theorem dropJobs_spec (ids : List String) {r : Coalescing K V}
    (hids : ∀ id ∈ ids, ∀ e, r.jobs.get? id ≠ some (.shared e)) :
    let after := ids.foldl (fun r id => r.dropJob id) r
    after.flights = r.flights ∧ after.shop.gates = r.shop.gates ∧
      ∀ id, after.jobs.get? id = if id ∈ ids then none else r.jobs.get? id := by
  induction ids generalizing r with
  | nil => exact ⟨rfl, rfl, fun id => (if_neg List.not_mem_nil).symm⟩
  | cons first ids ih =>
    have hrest : ∀ id ∈ ids, ∀ e, (r.dropJob first).jobs.get? id ≠ some (.shared e) := by
      intro id hid e hget
      rw [jobs_dropJob] at hget
      by_cases hsame : id = first
      · rw [hsame, Table.get?_erase_self] at hget
        cases hget
      · rw [Table.get?_erase_of_ne _ hsame] at hget
        exact hids id (List.mem_cons_of_mem _ hid) e hget
    obtain ⟨hflights, hgates, hjobs⟩ := ih hrest
    refine ⟨hflights.trans ?_, hgates.trans (gates_dropJob r first), fun id => ?_⟩
    · rw [flights_dropJob]
      split
      · rename_i e hget
        exact absurd hget (hids first (List.mem_cons_self ..) e)
      · rfl
    · refine (hjobs id).trans ?_
      rw [jobs_dropJob]
      by_cases hsame : id = first
      · subst hsame
        simp
      · rw [Table.get?_erase_of_ne _ hsame]
        simp [hsame]

/-- What is left when the registry goes away: the executions, the gates, and the jobs that share. -/
theorem dropRegistry_spec (r : Coalescing K V) :
    r.dropRegistry.flights = r.flights.close ∧ r.dropRegistry.shop.gates = r.shop.gates ∧
      ∀ id, r.dropRegistry.jobs.get? id = (r.jobs.get? id).filter (!·.isExclusive) := by
  have hids : ∀ id ∈ r.exclusives, ∀ e, r.jobs.get? id ≠ some (.shared e) := by
    intro id hid e hget
    obtain ⟨job, hget', hjob⟩ := r.jobs.exists_of_mem_keysWhere hid
    rw [hget] at hget'
    cases hget'
    cases hjob
  obtain ⟨hflights, hgates, hjobs⟩ := dropJobs_spec r.exclusives hids
  refine ⟨congrArg Flights.close hflights, hgates, fun id => (hjobs id).trans ?_⟩
  cases hget : r.jobs.get? id with
  | none => split <;> rfl
  | some job =>
    cases hjob : job.isExclusive with
    | true =>
      have hmem : id ∈ r.exclusives := r.jobs.mem_keysWhere hget hjob
      rw [if_pos hmem, Option.filter_some, hjob]
      rfl
    | false =>
      rw [if_neg, Option.filter_some, hjob]
      · rfl
      · intro hid
        obtain ⟨job', hget', hjob'⟩ := r.jobs.exists_of_mem_keysWhere hid
        rw [hget] at hget'
        cases hget'
        rw [hjob] at hjob'
        cases hjob'

/-- The registry goes away on both sides. -/
theorem Mirrors.dropRegistry (h : Mirrors owns mine place r r') :
    Mirrors owns mine place r.dropRegistry r'.dropRegistry := by
  obtain ⟨hflights, hgates, hjobs⟩ := dropRegistry_spec r
  obtain ⟨hflights', hgates', hjobs'⟩ := dropRegistry_spec r'
  refine ⟨?_, ?_, ?_, ?_, rfl⟩
  · rw [hflights, hflights']
    exact h.flights.of_executions rfl rfl
  · intro id
    rw [hjobs, hjobs', h.jobs]
    split
    · cases r.jobs.get? id with
      | none => rfl
      | some job => cases job <;> rfl
    · rfl
  · intro id e hget
    rw [hjobs] at hget
    rw [hflights]
    exact h.divided (Option.filter_eq_some_iff.mp hget).1
  · rw [hgates, hgates', h.gates]

end Coalescing

end ReadThrough
