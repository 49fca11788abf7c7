import ReadThrough.Proofs.Call.Course
/-!
# Proofs: the course of a request with an acceptance test

A request with a test looks for a usable entry first. It yields the stored value if there is one
that the test accepts, and otherwise what its own load comes to (`Judged.Course`), as long as the
test does not panic. Whatever becomes of the cache between its polls, it keeps to this course
(`Judged.route`).
-/

namespace ReadThrough

variable {P A V E : Type}

namespace Judged

/-- What a request with a test does and yields, by what its lookup, its test and its load come
to. -/
inductive Course (whole : Bool) (key : Key P A) (terms : Terms) (test : V → Verdict) :
    List (Act P A V E) → Prop where
  /-- A stored value is accepted. -/
  | accepted {ks : List (Event P A V E)} {delivery : Delivery V}
      (hlook : Looks key terms.maxAge ks (some delivery))
      (haccept : test delivery.value = .accept) :
      Course whole key terms test (did ks ++ lastly whole (.ok delivery))
  /-- A stored value is not accepted, and the source is called. -/
  | rejected {ks ls : List (Event P A V E)} {delivery : Delivery V} {result : Result V E}
      (hlook : Looks key terms.maxAge ks (some delivery))
      (hreject : test delivery.value = .reject) (hload : Loads key terms.share ls result) :
      Course whole key terms test
        (did (ks ++ [.rejected key]) ++ did ls ++ lastly whole result)
  /-- Nothing usable is stored, and the source is called. -/
  | missed {ks ls : List (Event P A V E)} {result : Result V E}
      (hlook : Looks key terms.maxAge ks none) (hload : Loads key terms.share ls result) :
      Course whole key terms test (did ks ++ did ls ++ lastly whole result)

/-- What comes before the load. -/
inductive Preface (key : Key P A) (terms : Terms) (test : V → Verdict) :
    List (Act P A V E) → Prop where
  | rejected {ks : List (Event P A V E)} {delivery : Delivery V}
      (hlook : Looks key terms.maxAge ks (some delivery))
      (hreject : test delivery.value = .reject) :
      Preface key terms test (did (ks ++ [.rejected key]))
  | missed {ks : List (Event P A V E)} (hlook : Looks key terms.maxAge ks none) :
      Preface key terms test (did ks)

/-- Where a request with a test stands on its course, with what it has done and yielded so far. -/
inductive Stands (whole : Bool) (key : Key P A) (terms : Terms) (test : V → Verdict) :
    CallStage P A V E → List (Act P A V E) → Prop where
  /-- At the beginning. -/
  | looking : Stands whole key terms test .looking []
  /-- In the load. -/
  | loading {acts : List (Act P A V E)} {ls : List (Event P A V E)} {load : Load P A V E}
      (hpreface : Preface key terms test acts) (hload : Loading key terms.share load ls) :
      Stands whole key terms test (.loading load) (acts ++ did ls)
  /-- Behind the last result. -/
  | spent {acts : List (Act P A V E)}
      (hcourse : Course whole key terms test (acts ++ [.ended])) :
      Stands whole key terms test .spent acts

/-- A request for a key under some terms and a test, somewhere on its course. -/
structure OnCourse (whole : Bool) (key : Key P A) (terms : Terms) (test : V → Verdict)
    (call : Call P A V E) (acts : List (Act P A V E)) : Prop where
  key_eq : call.key = key
  terms_eq : call.terms = terms
  plan_eq : call.plan = .judged test
  stands : Stands whole key terms test call.stage acts

variable {whole : Bool} {key : Key P A} {terms : Terms} {test : V → Verdict}
  {call : Call P A V E} {acts : List (Act P A V E)} {ls : List (Event P A V E)}
  {result : Result V E} {c : Cache P A V E}

/-- What comes before the load, the load and its result make up a course. -/
theorem Preface.course (h : Preface key terms test acts) (hload : Loads key terms.share ls result) :
    Course whole key terms test (acts ++ did ls ++ lastly whole result) := by
  cases h with
  | rejected hlook hreject => exact .rejected hlook hreject hload
  | missed hlook => exact .missed hlook hload

/-- From wherever a request stands, its course can be completed. -/
theorem Stands.exists_course {stage : CallStage P A V E}
    (h : Stands whole key terms test stage acts) :
    ∃ rest, Course whole key terms test (acts ++ rest) := by
  cases h with
  | looking =>
    obtain ⟨ls, hload⟩ := Loading.unstarted.loads (.error .notCached)
    exact ⟨_, .missed .miss hload⟩
  | loading hpreface hload =>
    obtain ⟨rest, hloads⟩ := hload.loads (.error .notCached)
    have hcourse : Course whole key terms test _ := hpreface.course hloads
    rw [did_append, ← List.append_assoc, List.append_assoc _ (did rest)] at hcourse
    exact ⟨_, hcourse⟩
  | spent hcourse => exact ⟨_, hcourse⟩

/-- A course ends once, with nothing behind its end. -/
theorem Course.ends (h : Course whole key terms test acts) :
    ∃ before, acts = before ++ [.ended] ∧ .ended ∉ before := by
  cases h <;> refine ends_lastly whole _ ?_ <;> simp [not_mem_did]

/-! ## Polls -/

/-- Where a poll takes a request with a test. -/
abbrev Takes (whole : Bool) (key : Key P A) (terms : Terms) (test : V → Verdict) :
    List (Act P A V E) → Cache P A V E → Call.Polled P A V E → Prop :=
  Call.Goes whole (OnCourse whole key terms test) (Course whole key terms test)

/-- A request with a test that yields its last result has only its end ahead. -/
theorem takes_yieldLast (hkey : call.key = key) (hterms : call.terms = terms)
    (hplan : call.plan = .judged test)
    (hcourse : Course whole key terms test (acts ++ lastly whole result)) :
    Takes whole key terms test acts c (call.yieldLast result c) := by
  refine Call.goes_item ⟨hkey, hterms, hplan, .spent ?_⟩
  rw [List.append_assoc]
  exact hcourse

variable [DecidableEq P] [DecidableEq A]

/-- A poll of the load takes a request with a test on, whether the load waits or settles. -/
theorem takes_pollLoad {load : Load P A V E} (hkey : call.key = key) (hterms : call.terms = terms)
    (hplan : call.plan = .judged test) (hpreface : Preface key terms test acts)
    (hload : Loading key terms.share load ls) :
    Takes whole key terms test (acts ++ did ls) c (call.pollLoad load c) := by
  obtain ⟨events, htrace, hleaves⟩ := Load.leaves_poll hload c
  unfold Call.pollLoad
  rcases hpoll : load.poll c with ⟨rest | result, c'⟩ <;> rw [hpoll] at htrace hleaves
  · have hstands : Stands whole key terms test _ _ := .loading hpreface hleaves
    rw [did_append, ← List.append_assoc] at hstands
    exact Call.Goes.after (Call.goes_pending ⟨hkey, hterms, hplan, hstands⟩) htrace
  · have hcourse : Course whole key terms test _ := hpreface.course hleaves
    rw [did_append, ← List.append_assoc] at hcourse
    have hsettle : call.settle result c' = call.yieldLast result c' := by
      unfold Call.settle
      rw [hplan]
    dsimp only
    rw [hsettle]
    exact (takes_yieldLast hkey hterms hplan hcourse).after htrace

/-- The load that a request with a test begins goes on from the course before it. -/
theorem takes_beginLoad (hkey : call.key = key) (hterms : call.terms = terms)
    (hplan : call.plan = .judged test) (hpreface : Preface key terms test acts) :
    Takes whole key terms test acts c (call.beginLoad c) := by
  have hload : Loading key terms.share (.unstarted call.key call.terms.share)
      ([] : List (Event P A V E)) := by
    rw [hkey, hterms]
    exact .unstarted
  have htakes : Takes whole key terms test (acts ++ did []) c (call.beginLoad c) :=
    takes_pollLoad hkey hterms hplan hpreface hload
  rwa [did_nil, List.append_nil] at htakes

/-- An entry that the test accepts is the only result, and one that it rejects is skipped for the
load. -/
theorem takes_useStored {ks : List (Event P A V E)} {delivery : Delivery V}
    (htest : ∀ message, test delivery.value ≠ .panic message) (hkey : call.key = key)
    (hterms : call.terms = terms) (hplan : call.plan = .judged test)
    (hlook : Looks key terms.maxAge ks (some delivery)) :
    Takes whole key terms test (did ks) c (call.useStored delivery c) := by
  have hasked : ∀ {polled : Call.Polled P A V E},
      Takes whole key terms test (did ks) { c with env.asked := c.env.asked + 1 } polled →
        Takes whole key terms test (did ks) c polled := fun htakes => htakes
  unfold Call.useStored
  rw [hplan]
  dsimp only
  cases hverdict : test delivery.value with
  | panic message => exact absurd hverdict (htest message)
  | accept => exact hasked (takes_yieldLast hkey hterms hplan (.accepted hlook hverdict))
  | reject =>
    subst hkey
    let asked : Cache P A V E := { c with env.asked := c.env.asked + 1 }
    have hload : Takes whole call.key terms test (did ks ++ did [.rejected call.key])
        (asked.note (.rejected call.key)) (call.beginLoad (asked.note (.rejected call.key))) := by
      rw [← did_append]
      exact takes_beginLoad rfl hterms hplan (.rejected hlook hverdict)
    exact hasked (hload.after rfl)

/-- One poll takes a request further on its course, whatever has become of the cache since the poll
before. -/
theorem takes_poll (htest : ∀ value message, test value ≠ .panic message)
    (h : OnCourse whole key terms test call acts) (c : Cache P A V E) :
    Takes whole key terms test acts c (call.poll c) := by
  obtain ⟨hkey, hterms, hplan, hstands⟩ := h
  unfold Call.poll
  cases hstage : call.stage with
  | rescuing failure =>
    rw [hstage] at hstands
    cases hstands
  | loading load =>
    rw [hstage] at hstands
    cases hstands with
    | loading hpreface hload => exact takes_pollLoad hkey hterms hplan hpreface hload
  | spent =>
    rw [hstage] at hstands
    cases hstands with
    | spent hcourse => exact Call.goes_done hcourse
  | looking =>
    rw [hstage] at hstands
    cases hstands with
    | looking =>
      subst hkey hterms
      unfold Call.look
      dsimp only
      rcases hlook : c.lookup call.key call.terms.maxAge with _ | ⟨_ | delivery, c'⟩
      · exact Call.goes_pending ⟨rfl, rfl, hplan, hstage ▸ .looking⟩
      · obtain ⟨ks, htrace, hks⟩ := Cache.looks_lookup hlook
        refine Call.Goes.after ?_ htrace
        unfold Call.goWithout
        rw [hplan]
        exact takes_beginLoad rfl rfl hplan (.missed hks)
      · obtain ⟨ks, htrace, hks⟩ := Cache.looks_lookup hlook
        exact (takes_useStored (htest delivery.value) rfl rfl hplan hks).after htrace

/-- The way of requests with a test. -/
def route (whole : Bool) (key : Key P A) (terms : Terms) (test : V → Verdict)
    (htest : ∀ value message, test value ≠ .panic message) : Route P A V E where
  whole
  On := OnCourse whole key terms test
  Whole := Course whole key terms test
  goes h c := takes_poll htest h c
  completes h := h.stands.exists_course
  ends := Course.ends

omit [DecidableEq P] [DecidableEq A] in
/-- A new request with a test stands at the beginning of its course. -/
theorem onCourse_create (whole : Bool) (key : Key P A) (terms : Terms) (test : V → Verdict) :
    OnCourse whole key terms test (Call.create key (.judged test) terms : Call P A V E) [] :=
  ⟨rfl, rfl, rfl, .looking⟩

end Judged

end ReadThrough
