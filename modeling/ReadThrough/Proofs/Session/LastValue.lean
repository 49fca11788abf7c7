import ReadThrough.Proofs.Session.Collecting
import ReadThrough.Proofs.Session.Convergence
import ReadThrough.Proofs.Session.Genuine
/-!
# Proofs: the last value of a request

A request of which only the last value matters yields the last item of the request itself, which
there always is. Beside each other the two do the same to the store and the source, at the same
steps (`Session.fetch_yields_last`). That nothing usable is stored is reported only by a request
that asks for nothing but what is stored, and exactly if its lookup finds nothing usable.
-/

namespace ReadThrough

variable {P A V E : Type}

/-! ## Lookups -/

/-- The usable entry that a lookup has found, by the events that begin with those of the lookup. -/
def foundBy : List (Event P A V E) → Option (Delivery V)
  | .storeRead _ (some _) :: .clockRead _ :: .hit _ entry :: _ => some (Delivery.cached entry)
  | _ => none

/-- The first lookup among the events is the one whose answer they tell. -/
theorem Looks.foundBy_eq {key : Key P A} {maxAge : Option Duration}
    {ks events : List (Event P A V E)} {found : Option (Delivery V)}
    (h : Looks key maxAge ks found) (hfirst : ks <+: events) : foundBy events = found := by
  obtain ⟨rest, rfl⟩ := hfirst
  cases h <;> rfl

/-! ## Courses -/

variable {whole : Bool} {key : Key P A} {terms : Terms} {acts acts' : List (Act P A V E)}
  {item : Item P V E}

/-- To yield the last result does nothing else. -/
theorem doings_lastly (whole : Bool) (result : Result V E) :
    doings (lastly whole result : List (Act P A V E)) = [] := by
  unfold lastly
  rfl

/-- A request that only looks yields what its lookup finds. -/
theorem Course.only (h : Course whole key terms .only acts) :
    ∃ ks found, Looks key terms.maxAge ks found ∧ ks <+: doings acts ∧
      ∃ before, acts = before ++ lastly whole (found.elim (.error .notCached) .ok) := by
  cases h with
  | @onlyHit ks delivery hlook =>
    refine ⟨ks, some delivery, hlook, ?_, _, rfl⟩
    rw [doings_append, doings_did]
    exact List.prefix_append _ _
  | @onlyMiss ks hlook =>
    refine ⟨ks, none, hlook, ?_, _, rfl⟩
    rw [doings_append, doings_did, List.append_assoc]
    exact List.prefix_append _ _

/-- A request that looks and then calls the source looks, and yields at last what its load comes
to. -/
theorem Course.cachedThenLoad (h : Course whole key terms .cachedThenLoad acts) :
    ∃ ks found ls result, Looks key terms.maxAge ks found ∧ Loads key terms.share ls result ∧
      doings acts = ks ++ ls ∧ ∃ before, acts = before ++ lastly whole result := by
  cases h with
  | @cachedThenLoadHit ks ls delivery result hlook hload =>
    refine ⟨ks, some delivery, ls, result, hlook, hload, ?_, _, rfl⟩
    simp only [doings_append, doings_did, doings_lastly, List.append_nil]
    rw [show doings [Act.yielded (Item.ofResult whole (.ok delivery))] = [] from rfl,
      List.append_nil]
  | @cachedThenLoadMiss ks ls result hlook hload =>
    refine ⟨ks, none, ls, result, hlook, hload, ?_, _, rfl⟩
    simp only [doings_append, doings_did, doings_lastly, List.append_nil]

/-! ## What is collected -/

/-- Both requests have done the same. -/
theorem Collects.doings_eq (h : Collects acts acts') : doings acts = doings acts' := by
  cases h with
  | running _ hacts => rw [hacts, doings_did]
  | told _ _ hacts =>
    rw [hacts, doings_append, doings_did]
    exact List.append_nil _
  | finished _ _ hacts =>
    rw [hacts, doings_append, doings_did]
    exact List.append_nil _

/-- What is yielded is the last item of the request. -/
theorem Collects.last (h : Collects acts acts') (hyielded : .yielded item ∈ acts) :
    ∃ before, acts' = before ++ [.yielded item, .ended] := by
  cases h with
  | running _ hacts => exact absurd (hacts ▸ hyielded) (not_yielded_did item _)
  | @told before last _ hended hacts =>
    rw [hacts] at hyielded
    obtain rfl : item = last := by simpa [not_yielded_did] using hyielded
    exact ⟨before, hended⟩
  | @finished before last _ hended hacts =>
    rw [hacts] at hyielded
    obtain rfl : item = last := by simpa [not_yielded_did] using hyielded
    exact ⟨before, hended⟩

/-- The item before the end is the last one of the course. -/
theorem eq_of_lastly {result : Result V E} {before before' : List (Act P A V E)}
    (h : before ++ [.yielded item, .ended] = before' ++ lastly whole result) :
    item = Item.ofResult whole result := by
  obtain ⟨-, hlast⟩ := List.append_inj' h rfl
  cases hlast
  rfl

/-- That nothing usable is stored is what a request that only looks yields if its lookup has found
nothing usable. -/
theorem Course.notCached_iff (h : Course false key terms .only acts')
    (hlast : ∃ before, acts' = before ++ [.yielded item, .ended]) :
    item = .failure .notCached ↔
      ∃ ks, Looks key terms.maxAge ks none ∧ ks <+: doings acts' := by
  obtain ⟨ks, found, hlook, hfirst, before', hacts⟩ := h.only
  obtain ⟨before, hended⟩ := hlast
  have hitem := eq_of_lastly (hended.symm.trans hacts)
  constructor
  · intro hnot
    cases found with
    | none => exact ⟨ks, hlook, hfirst⟩
    | some delivery => cases hitem.symm.trans hnot
  · rintro ⟨ks', hlook', hfirst'⟩
    obtain rfl : found = none :=
      (hlook.foundBy_eq hfirst).symm.trans (hlook'.foundBy_eq hfirst')
    exact hitem

/-- A request that only looks waits for its lookup, and yields its item with it. -/
theorem Fetch.poll_only [DecidableEq P] [DecidableEq A] {f : Fetch P A V E}
    (hspent : f.spent = false) (hplan : f.call.plan = .policy .only)
    (hstage : f.call.stage = .looking) (c : Cache P A V E) :
    f.poll c = (.pending, f, c) ∨ ∃ result f' c', f.poll c = (.item result, f', c') := by
  have hpoll : f.call.poll c = f.call.look c := by
    unfold Call.poll
    rw [hstage]
  unfold Call.look at hpoll
  rcases hlook : c.lookup f.call.key f.call.terms.maxAge with _ | ⟨_ | delivery, c'⟩ <;>
    rw [hlook] at hpoll
  · exact .inl (poll_of_pending hspent hpoll)
  · have hmiss : f.call.goWithout c' =
        f.call.yieldLast (.error .notCached) (c'.note (.unanswered f.call.key)) := by
      unfold Call.goWithout
      rw [hplan]
    exact .inr ⟨_, _, _, poll_of_last hspent (hpoll.trans hmiss) rfl⟩
  · have hhit : f.call.useStored delivery c' = f.call.yieldLast (.ok delivery) c' := by
      unfold Call.useStored
      rw [hplan]
    exact .inr ⟨_, _, _, poll_of_last hspent (hpoll.trans hhit) rfl⟩

namespace Session

variable [DecidableEq P] [DecidableEq A] [DecidableEq V] {id : String} {s : Session P A V E}
  {st : Step P A V} {steps steps' : List (Step P A V)}

omit [DecidableEq P] [DecidableEq A] [DecidableEq V] in
/-- A step begins the same tasks when one of them is collected. -/
theorem begins_collecting (id id' : String) (st : Step P A V) :
    (st.collecting id).begins id' = st.begins id' := by
  cases st with
  | poll id'' =>
    unfold Step.collecting
    dsimp only
    split <;> rfl
  | _ => rfl

/-- An unfolded run begins the same tasks. -/
theorem Unfolds.not_begins {chosen : String → Bool} (h : Unfolds chosen s steps steps')
    (hbegins : ∀ st ∈ steps, ¬ st.begins id) : ∀ st ∈ steps', ¬ st.begins id := by
  intro st hst hbegin
  cases st with
  | begin id' request => exact hbegins _ (h.begins id' request hst) hbegin
  | _ => cases hbegin

/-- A request that only looks, of which only the last value matters: it has done nothing yet, or it
has yielded an item. -/
inductive Glances (id : String) (r : Recorded P A V E) : Prop where
  | before (htask : ∀ task, r.1.tasks.get? id = some task → ∃ f : Fetch P A V E, task = .fetch f ∧
      f.spent = false ∧ f.call.plan = .policy .only ∧ f.call.stage = .looking)
      (hnothing : r.2 = [])
  | after {item : Item P V E} (hyielded : .yielded item ∈ r.2)

/-- A request that only glances at the store stays so when it is polled. -/
theorem Glances.pollTask {acts : List (Act P A V E)} (h : Glances id (s, acts)) :
    Glances id ((s.pollTask id).2, acts ++ actsOf s (s.pollTask id).2 (s.pollTask id).1) := by
  cases h with
  | after hyielded => exact .after (List.mem_append_left _ hyielded)
  | before htask hnothing =>
    obtain rfl : acts = [] := hnothing
    have hquiet : did (s.cache.env.trace.drop s.cache.env.trace.length) = [] := by
      rw [List.drop_length, did_nil]
    unfold Session.pollTask
    cases hget : s.tasks.get? id with
    | none => exact .before htask hquiet
    | some task =>
      obtain ⟨f, rfl, hspent, hplan, hstage⟩ := htask task hget
      unfold Task.poll
      dsimp only
      rcases f.poll_only hspent hplan hstage s.cache with hwaits | ⟨result, f', c', hyields⟩
      · rw [hwaits]
        refine .before (fun task' hget' => ?_) ?_
        · obtain rfl : .fetch f = task' :=
            Option.some.inj ((Table.get?_insert_self _ _ _).symm.trans hget')
          exact ⟨f, rfl, hspent, hplan, hstage⟩
        · exact (List.append_nil _).trans hquiet
      · rw [hyields]
        exact .after (List.mem_append_right _ (List.mem_append_right _ (List.mem_singleton_self _)))

/-- A request that only glances at the store stays so whatever else happens. -/
theorem Glances.lasting (id : String) :
    Lasting id (Glances (P := P) (A := A) (V := V) (E := E) id) where
  fresh h := by
    cases h with
    | before htask hnothing => exact .before htask hnothing
    | after hyielded => exact .after hyielded
  self h := h.pollTask
  other polled htask h := by
    cases h with
    | before hown hnothing =>
      exact .before (fun task hget => hown task (htask.symm.trans hget)) hnothing
    | after hyielded => exact .after hyielded
  step st htask h := by
    cases h with
    | after hyielded => exact .after hyielded
    | before hown hnothing =>
      refine .before (fun task hget => ?_) hnothing
      rcases htask with hsame | hgone
      · exact hown task (hsame.symm.trans hget)
      · cases hgone.symm.trans hget

/-- As soon as its lookup has been made, a request that only looks has yielded its item. -/
theorem yielded_of_looked (hopen : s.closed = false) (params : P) (terms : Terms)
    (hbegins : ∀ st ∈ steps, ¬ st.begins id) {key : Key P A} {maxAge : Option Duration}
    {ks : List (Event P A V E)} {found : Option (Delivery V)} (hlook : Looks key maxAge ks found) :
    let fetched := (s.step (.begin id (.fetch params .only terms))).2
    ks <+: doings (runRecorded id fetched steps).2 →
      ∃ item, .yielded item ∈ (runRecorded id fetched steps).2 := by
  intro fetched hmade
  have hbegun : Glances id (fetched, []) := by
    refine .before (fun task hget => ?_) rfl
    have hnow : fetched.tasks.get? id =
        some (.fetch (.create (Key.ofParams params) .only terms)) := by
      unfold fetched
      rw [(s.step_of_taken (.begin id (.fetch params .only terms)) (.inl hopen)).2]
      exact Table.get?_insert_self _ _ _
    exact ⟨_, (Option.some.inj (hnow.symm.trans hget)).symm, rfl, rfl, rfl⟩
  have hglances : Glances id (runRecorded id fetched steps) :=
    (Glances.lasting id).run hbegins hbegun
  cases hglances with
  | after hyielded => exact ⟨_, hyielded⟩
  | before _ hnothing =>
    rw [hnothing] at hmade
    obtain rfl : ks = [] := List.prefix_nil.mp hmade
    cases hlook

/-- The two requests, begun in the same session. -/
theorem shadows_begin (hopen : s.closed = false) (id : String) (params : P) (policy : Policy)
    (terms : Terms) :
    let key : Key P A := Key.ofParams params
    Shadows policy id ((s.step (.begin id (.fetch params policy terms))).2, [])
      ((s.step (.begin id (.stream false key (.policy policy) terms))).2, []) := by
  let call : Call P A V E := .create (Key.ofParams params) (.policy policy) terms
  have hahead : 0 < call.stage.ahead := by
    unfold call Call.create
    dsimp only
    split
    · exact Nat.two_pos
    · exact Nat.one_pos
  have htasks : Gathering policy [] [] (some (.fetch ⟨call, none, false⟩))
      (some (.call false call)) :=
    .running rfl rfl hahead List.not_mem_nil rfl
  exact sideBySide_begin Environment.accord_same hopen ⟨rfl, rfl⟩ (fun _ => rfl) (fun _ => rfl)
    htasks

/-- A request of which only the last value matters, begun in any session under a name that no later
task takes, yields the last item of the request itself under any interleaving.

Both are begun in the same session, and the same steps follow, but that the request is drained
where its counterpart is polled. The two do the same, and nothing else is different: not the caches,
not the other tasks, not what is reported of any step but for the answers of the two. As soon as the
request has ended, it has yielded an item, and its last one is what its counterpart has yielded.
What this is follows from the course of the policy; it is what the load comes to even if a stored
value was yielded before. It is that nothing usable is stored exactly if the request only looks and
its lookup, with which all that it does begins, has found nothing usable. No other request reports
this, whatever the source does. -/
theorem fetch_yields_last (setup : Setup (Store (Key P A) V)) (source : Source P V E)
    (earlier : List (Step P A V)) (id : String) (params : P) (policy : Policy) (terms : Terms)
    (steps : List (Step P A V))
    (hopen : ((create (Cache.create setup source)).run earlier).2.closed = false)
    (hbegins : ∀ st ∈ steps, ¬ st.begins id) :
    let s := ((create (Cache.create setup source)).run earlier).2
    let key : Key P A := Key.ofParams params
    let fetched := (s.step (.begin id (.fetch params policy terms))).2
    let streamed := (s.step (.begin id (.stream false key (.policy policy) terms))).2
    let polls := fetched.unfolded (· = id) steps
    let drains := polls.map (Step.collecting id)
    let fetch := runRecorded id fetched polls
    let stream := runRecorded id streamed drains
    (Unfolds (· = id) fetched steps polls ∧
        fetch.1 = (fetched.run polls).2 ∧ stream.1 = (streamed.run drains).2) ∧
      (stream.1.cache = fetch.1.cache ∧ stream.1.closed = fetch.1.closed ∧
        (∀ id', id' ≠ id → stream.1.tasks.get? id' = fetch.1.tasks.get? id') ∧
        List.zipWith (Report.hushed id) polls (streamed.run drains).1 =
          List.zipWith (Report.hushed id) polls (fetched.run polls).1) ∧
      (Collects fetch.2 stream.2 ∧
        (.ended ∈ stream.2 → Course false key terms policy stream.2) ∧
        (∀ item, .yielded item ∈ fetch.2 → policy = .cachedThenLoad →
          ∃ ks found ls result, Looks key terms.maxAge ks found ∧
            Loads key terms.share ls result ∧ doings fetch.2 = ks ++ ls ∧
            item = Item.ofResult false result) ∧
        (.yielded (.failure .notCached) ∈ fetch.2 ↔ policy = .only ∧
          ∃ ks, Looks key terms.maxAge ks none ∧ ks <+: doings fetch.2)) ∧
      ∀ request : Request P A V, request.onlyLooks = false →
        (∀ answers, (s.step (.run request)).1.response = .answers answers →
          .answer (.item (.failure .notCached)) ∉ answers) ∧
        ∀ id' (steps' : List (Step P A V)), (∀ st ∈ steps', ¬ st.begins id') →
          .yielded (.failure .notCached) ∉
            (runRecorded id' (s.step (.begin id' request)).2 steps').2 := by
  intro s key fetched streamed polls drains fetch stream
  have hcandid : s.Candid := (candid_create setup source).run earlier
  have hunfolds : Unfolds (· = id) fetched steps polls := unfolds _ fetched steps
  have hpolls : ∀ st ∈ polls, ¬ st.begins id := hunfolds.not_begins hbegins
  have hdrains : ∀ st ∈ drains, ¬ st.begins id := by
    intro st hst
    obtain ⟨st', hst', rfl⟩ := List.mem_map.mp hst
    rw [begins_collecting]
    exact hpolls st' hst'
  obtain ⟨hshadows, hreports⟩ :=
    (shadows_begin hopen id params policy terms).run_collecting hpolls hunfolds.single
  have hcollects : Collects fetch.2 stream.2 := hshadows.own.collects
  have hfollows : Follows id false key terms policy stream :=
    (follows_begin s hopen id false key terms policy).run hdrains
  have hcourse : .ended ∈ stream.2 → Course false key terms policy stream.2 := hfollows.conforms.2
  -- Behind an item of the counterpart the request has ended.
  have hends : ∀ item, .yielded item ∈ fetch.2 → Course false key terms policy stream.2 ∧
      ∃ before, stream.2 = before ++ [.yielded item, .ended] := by
    intro item hyielded
    obtain ⟨before, hlast⟩ := hcollects.last hyielded
    exact ⟨hcourse (by simp [hlast]), before, hlast⟩
  have hnever : ∀ request : Request P A V, request.onlyLooks = false → ∀ id' steps',
      (∀ st ∈ steps', ¬ st.begins id') → .yielded (.failure .notCached) ∉
        (runRecorded id' (s.step (.begin id' request)).2 steps').2 :=
    fun _ hrequest id' _ => never_notCached hcandid hopen id' hrequest
  refine ⟨⟨hunfolds, fst_foldl_stepRecorded id polls _, fst_foldl_stepRecorded id drains _⟩,
    ⟨hshadows.cache.eq, hshadows.closed, hshadows.others, hreports⟩,
    ⟨hcollects, hcourse, fun item hyielded hpolicy => ?_, ?_, ?_⟩,
    fun request hrequest => ⟨fun answers hanswers hmem => ?_, hnever request hrequest⟩⟩
  · subst hpolicy
    obtain ⟨hwhole, before, hlast⟩ := hends item hyielded
    obtain ⟨ks, found, ls, result, hlook, hload, hdoings, before', hacts⟩ := hwhole.cachedThenLoad
    rw [hcollects.doings_eq]
    exact ⟨ks, found, ls, result, hlook, hload, hdoings, eq_of_lastly (hlast.symm.trans hacts)⟩
  · intro hnot
    by_cases hpolicy : policy = .only
    · subst hpolicy
      obtain ⟨hwhole, hlast⟩ := hends _ hnot
      rw [hcollects.doings_eq]
      exact ⟨rfl, (hwhole.notCached_iff hlast).mp rfl⟩
    · have hrequest : (Request.fetch params policy terms : Request P A V).onlyLooks = false := by
        cases policy with
        | only => exact absurd rfl hpolicy
        | _ => rfl
      exact absurd hnot (hnever _ hrequest id polls hpolls)
  · rintro ⟨rfl, ks, hlook, hmade⟩
    obtain ⟨item, hyielded⟩ := yielded_of_looked hopen params terms hpolls hlook hmade
    obtain ⟨hwhole, hlast⟩ := hends item hyielded
    rw [hcollects.doings_eq] at hmade
    obtain rfl := (hwhole.notCached_iff hlast).mpr ⟨ks, hlook, hmade⟩
    exact hyielded
  · have hfresh : s.fresh.Candid := ⟨hcandid.sound, hcandid.flights⟩
    rw [(s.step_of_taken (.run request) (.inl hopen)).1] at hanswers
    obtain rfl : (s.fresh.runTask request).1 = answers := Response.answers.inj hanswers
    exact never_notCached_runTask hfresh hrequest hmem

/-- Whether an act yields an item. -/
def isYield : Act P A V E → Bool
  | .yielded _ => true
  | .did _ | .ended | .panicked _ => false

/-- Another request shares the load, and the two are polled together. -/
def sharing : List (Step Nat Unit Nat) :=
  [.poll "a", .begin "b" (.stream true (Key.ofParams 7) (.policy .never) {}), .clear,
    .join ["b", "a"], .drain "a"]

/-- A stored value is yielded first, which the counterpart passes over. -/
theorem fetch_yields_last_sharing :
    let s := ((create (Cache.create numberingSetup numberingSource)).run
      [.put (Key.ofParams 7) (Entry.stamped 40 0)]).2
    let fetched := (s.step (.begin "a" (.fetch 7 .cachedThenLoad {}))).2
    let streamed := (s.step (.begin "a"
      (.stream false (Key.ofParams 7) (.policy .cachedThenLoad) {}))).2
    let polls := fetched.unfolded (· = "a") sharing
    let fetch := runRecorded "a" fetched polls
    let stream := runRecorded "a" streamed (polls.map (Step.collecting "a"))
    s.closed = false ∧ (∀ st ∈ sharing, ¬ st.begins "a") ∧
      (stream.2.countP isYield, fetch.2.countP isYield) = (2, 1) ∧ .ended ∈ stream.2 ∧
      Collects fetch.2 stream.2 ∧
      Course false (Key.ofParams 7) {} .cachedThenLoad stream.2 := by
  intro s fetched streamed polls fetch stream
  have hopen : s.closed = false := rfl
  have hbegins : ∀ st ∈ sharing, ¬ st.begins "a" := by decide
  have hyields : (stream.2.countP isYield, fetch.2.countP isYield) = (2, 1) := by decide +kernel
  have hany : stream.2.any isEnd = true := by decide +kernel
  have hended := ended_mem_of_any hany
  obtain ⟨-, -, ⟨hcollects, hcourse, -⟩, -⟩ := fetch_yields_last numberingSetup numberingSource
    [.put (Key.ofParams 7) (Entry.stamped 40 0)] "a" 7 .cachedThenLoad {} sharing hopen hbegins
  exact ⟨hopen, hbegins, hyields, hended, hcollects, hcourse hended⟩

end Session

end ReadThrough
