import ReadThrough.Proofs.Flights.Works
import ReadThrough.Proofs.Load.Books
/-!
# Proofs: the accounts of the work

The books are right about the calls of the source while work is under way (`Accounts`): every call
is that of one execution or piece of work, every execution has ended as its call has, and what was
published are the failures of the calls that failed in their course. Each poll of the work keeps
the accounts.
-/

namespace ReadThrough

variable {P A V E : Type}

/-- The failure that is published when an execution ends. -/
def Settlement.owed? (source : Source P V E) (s : Settlement P A V E) : Option (P × Failure E) :=
  (source s.number s.key.params).lateFailure?.map (s.key.params, ·)

/-- The numbers of the calls of the source that have come to an end or that work under way has
made. -/
def numbers (b : Books P A V E) (works : Multiset (Work P A V E)) : Multiset Nat :=
  (b.settled.map (·.number) : List Nat) + works.filterMap Work.number?

/-- The number of one piece of work more is one number more. -/
theorem numbers_held (b : Books P A V E) (one : Option (Work P A V E))
    (works : Multiset (Work P A V E)) :
    numbers b (held one works) = held (one.bind Work.number?) (numbers b works) := by
  rw [numbers, filterMap_held, add_held, numbers]

/-- An execution that ends puts its number into the books. -/
theorem numbers_settle (b b' : Books P A V E) {s : Settlement P A V E} (h : b'.settled = [s])
    (works : Multiset (Work P A V E)) : numbers (b ++ b') works = s.number ::ₘ numbers b works := by
  have hperm : ((b.settled ++ [s]).map (·.number)).Perm (s.number :: b.settled.map (·.number)) := by
    rw [List.map_append]
    exact List.perm_append_singleton s.number _
  rw [numbers, Books.settled_append, h, Multiset.coe_eq_coe.mpr hperm, ← Multiset.cons_coe,
    Multiset.cons_add, numbers]

/-- Books without new settlements have no new numbers. -/
theorem numbers_of_settled_nil (b b' : Books P A V E) (h : b'.settled = [])
    (works : Multiset (Work P A V E)) : numbers (b ++ b') works = numbers b works := by
  rw [numbers, Books.settled_append, h, List.append_nil, numbers]

/-- The books are right about the calls of the source and the executions that made them, while
`works` are under way. -/
structure Accounts (source : Source P V E) (b : Books P A V E) (works : Multiset (Work P A V E))
    (env : Environment P A V E) : Prop where
  source_eq : env.source = source
  numbered : b.calls.map (·.1) = List.range' 1 env.called.length
  honest : ∀ work ∈ works, work.Honest source
  begun : ∀ work ∈ works, ∀ number, work.number? = some number → (number, work.key) ∈ b.calls
  called : ∀ s ∈ b.settled, (s.number, s.key) ∈ b.calls
  distinct : (numbers b works).Nodup
  bounded : ∀ number ∈ numbers b works, number ≤ env.called.length
  fits : ∀ s ∈ b.settled, Work.Fits (source s.number s.key.params) s.outcome
  published : b.published = b.settled.filterMap (Settlement.owed? source)

namespace Accounts

variable {source : Source P V E} {b : Books P A V E} {works works' rest : Multiset (Work P A V E)}
  {work : Work P A V E} {env env' : Environment P A V E}

/-- Nothing happens that the books are about; work may be given up. -/
theorem silent (h : Accounts source b works env) (hworks : works' ≤ works)
    (hsource : env'.source = env.source) (hcalled : env'.called = env.called) :
    Accounts source b works' env' where
  source_eq := hsource.trans h.source_eq
  numbered := by rw [hcalled]; exact h.numbered
  honest := fun work hw => h.honest work (Multiset.mem_of_le hworks hw)
  begun := fun work hw => h.begun work (Multiset.mem_of_le hworks hw)
  called := h.called
  distinct := Multiset.nodup_of_le
    (Multiset.add_le_add_left (Multiset.filterMap_le_filterMap _ hworks)) h.distinct
  bounded := fun number hn => by
    rw [hcalled]
    exact h.bounded number (Multiset.mem_of_le
      (Multiset.add_le_add_left (Multiset.filterMap_le_filterMap _ hworks)) hn)
  fits := h.fits
  published := h.published

/-- Somebody receives a result. -/
theorem receipt (h : Accounts source b works env) (receipts : List (Option Nat × Result V E)) :
    Accounts source (b ++ ⟨[], [], receipts, []⟩) works env := by
  obtain ⟨h₁, h₂, h₃, h₄, h₅, h₆, h₇, h₈, h₉⟩ := h
  have hnumbers := numbers_of_settled_nil b ⟨[], [], receipts, []⟩ rfl works
  refine ⟨h₁, ?_, h₃, ?_, ?_, hnumbers ▸ h₆, hnumbers ▸ h₇, ?_, ?_⟩ <;>
    simp only [Books.calls_append, Books.settled_append, Books.published_append, List.append_nil]
  all_goals assumption

/-- New work has made no call yet. -/
theorem start (h : Accounts source b works env) (key : Key P A) :
    Accounts source b (.fresh key ::ₘ works) env := by
  have hnumbers : numbers b (.fresh key ::ₘ works) = numbers b works :=
    numbers_held b (some (.fresh key)) works
  refine ⟨h.source_eq, h.numbered, fun work hw => ?_, fun work hw => ?_, h.called,
    hnumbers ▸ h.distinct, hnumbers ▸ h.bounded, h.fits, h.published⟩
  · rcases Multiset.mem_cons.mp hw with rfl | hw
    · trivial
    · exact h.honest work hw
  · rcases Multiset.mem_cons.mp hw with rfl | hw
    · exact fun number hn => by cases hn
    · exact h.begun work hw

/-- With the `calls` that a poll makes, the call of the polled work is in the books, and no other
execution or work has made it. -/
structure Makes (b : Books P A V E) (calls : List (Nat × Key P A)) (key : Key P A) (number : Nat)
    (rest : Multiset (Work P A V E)) (env : Environment P A V E) : Prop where
  called : (number, key) ∈ b.calls ++ calls
  numbered : (b.calls ++ calls).map (·.1) = List.range' 1 env.called.length
  distinct : (number ::ₘ numbers b rest).Nodup
  bounded : ∀ n ∈ number ::ₘ numbers b rest, n ≤ env.called.length

/-- A poll makes a call whose number is new, or goes on with that of its own work. -/
theorem makes (h : Accounts source b (work ::ₘ rest) env)
    (hcalled : env'.called = env.called ++ (work.newCalls env).map (·.2.params)) :
    Makes b (work.newCalls env) work.key (work.callNumber env) rest env' := by
  have hheld : numbers b (work ::ₘ rest) = held work.number? (numbers b rest) :=
    numbers_held b (some work) rest
  have hdistinct := h.distinct
  have hbounded := h.bounded
  rw [hheld] at hdistinct hbounded
  -- Work that has called the source has a number.
  have hbegun : work.newCalls env = [] → ∀ number, work.number? = some number →
      Makes b (work.newCalls env) work.key number rest env' := by
    intro hnew number hnumber
    rw [hnew, List.map_nil, List.append_nil] at hcalled
    rw [hnumber] at hdistinct hbounded
    rw [hnew]
    refine ⟨?_, ?_, hdistinct, ?_⟩
    · exact List.mem_append_left _ (h.begun work (Multiset.mem_cons_self ..) number hnumber)
    · rw [hcalled, List.append_nil, h.numbered]
    · rw [hcalled]
      exact hbounded
  cases work with
  | calling key number reply => exact hbegun rfl number rfl
  | storing key number value now => exact hbegun rfl number rfl
  | fresh key =>
    -- Fresh work makes the next call.
    have hlength : env'.called.length = env.called.length + 1 := by
      rw [hcalled, List.length_append]
      rfl
    refine ⟨List.mem_append_right _ (List.mem_singleton_self _), ?_, ?_, ?_⟩
    · rw [hlength, List.range'_1_concat, List.map_append, h.numbered, Nat.add_comm 1]
      rfl
    · rw [Multiset.nodup_cons]
      exact ⟨fun hmem => absurd (hbounded _ hmem) (Nat.not_succ_le_self _), hdistinct⟩
    · rw [hlength]
      intro n hn
      rcases Multiset.mem_cons.mp hn with rfl | hn
      · exact le_rfl
      · exact (hbounded n hn).trans (Nat.le_succ _)

section Poll

variable {calls : List (Nat × Key P A)} {key : Key P A} {number : Nat}

/-- The work goes on. -/
theorem goesOn (h : Accounts source b rest env) (hmakes : Makes b calls key number rest env')
    (hsource : env'.source = env.source) {left : Work P A V E} (hkey : left.key = key)
    (hnumber : left.number? = some number) (hhonest : left.Honest source) :
    Accounts source (b ++ ⟨calls, [], [], []⟩) (left ::ₘ rest) env' := by
  have hnumbers : numbers (b ++ ⟨calls, [], [], []⟩) (left ::ₘ rest) =
      number ::ₘ numbers b rest := by
    have hheld := numbers_held b (some left) rest
    rw [Option.bind_some, hnumber] at hheld
    rw [numbers_of_settled_nil b ⟨calls, [], [], []⟩ rfl]
    exact hheld
  have hsettled : (b ++ ⟨calls, [], [], []⟩ : Books P A V E).settled = b.settled :=
    List.append_nil _
  have hpublished : (b ++ ⟨calls, [], [], []⟩ : Books P A V E).published = b.published :=
    List.append_nil _
  refine ⟨hsource.trans h.source_eq, hmakes.numbered, ?_, ?_, ?_, ?_, ?_, ?_, ?_⟩
  · intro work hw
    rcases Multiset.mem_cons.mp hw with rfl | hw
    · exact hhonest
    · exact h.honest work hw
  · intro work hw n hn
    rcases Multiset.mem_cons.mp hw with rfl | hw
    · rw [hnumber, Option.some.injEq] at hn
      rw [← hn, hkey]
      exact hmakes.called
    · exact List.mem_append_left _ (h.begun work hw n hn)
  · rw [hsettled]
    exact fun s hs => List.mem_append_left _ (h.called s hs)
  · exact hnumbers ▸ hmakes.distinct
  · exact hnumbers ▸ hmakes.bounded
  · rw [hsettled]
    exact h.fits
  · rw [hsettled, hpublished]
    exact h.published

/-- The work ends, and its failure is published if it is one to publish. -/
theorem settle (h : Accounts source b rest env) (hmakes : Makes b calls key number rest env')
    (hsource : env'.source = env.source) (execution : Option Nat)
    {outcome : Outcome (Result V E)} (hfits : Work.Fits (source number key.params) outcome) :
    Accounts source
      (b ++ ⟨calls, [{ execution, number, key, outcome }], [],
        outcome.failure?.toList.map (key.params, ·)⟩) rest env' := by
  let s : Settlement P A V E := { execution, number, key, outcome }
  let entries : Books P A V E := ⟨calls, [s], [], outcome.failure?.toList.map (key.params, ·)⟩
  have hnumbers : numbers (b ++ entries) rest = number ::ₘ numbers b rest :=
    numbers_settle b entries rfl rest
  have howed : entries.published = [s].filterMap (Settlement.owed? source) := by
    show outcome.failure?.toList.map _ = _
    rw [hfits.published, List.filterMap_cons, Settlement.owed?]
    cases (source s.number s.key.params).lateFailure? with
    | none => rfl
    | some failure => rfl
  have hmem : ∀ {s'}, s' ∈ (b ++ entries).settled → s' ∈ b.settled ∨ s' = s := fun hs =>
    (List.mem_append.mp hs).imp_right List.mem_singleton.mp
  refine ⟨hsource.trans h.source_eq, hmakes.numbered, h.honest, ?_, ?_, ?_, ?_, ?_, ?_⟩
  · exact fun work hw n hn => List.mem_append_left _ (h.begun work hw n hn)
  · intro s' hs
    rcases hmem hs with hs | rfl
    · exact List.mem_append_left _ (h.called s' hs)
    · exact hmakes.called
  · exact hnumbers ▸ hmakes.distinct
  · exact hnumbers ▸ hmakes.bounded
  · intro s' hs
    rcases hmem hs with hs | rfl
    · exact h.fits s' hs
    · exact hfits
  · rw [Books.published_append, Books.settled_append, List.filterMap_append, h.published]
    exact congrArg _ howed

end Poll

variable [DecidableEq P] [DecidableEq A]

/-- A poll of work as an execution, with what it enters into the books. -/
theorem pollAs (h : Accounts source b (work ::ₘ rest) env) (execution : Option Nat)
    (hsource : env'.source = env.source)
    (hcalled : env'.called = env.called ++ (work.newCalls env).map (·.2.params)) :
    Accounts source
      (b ++ ⟨work.newCalls env,
        Work.settlements execution (work.callNumber env) work.key (work.poll env).1, [],
        Work.owed work.key (work.poll env).1⟩)
      (held (work.poll env).1.rest? rest) env' := by
  have hmakes := h.makes hcalled
  have hrest : Accounts source b rest env := h.silent (Multiset.le_cons_self rest work) rfl rfl
  have hcomes : Work.Comes source work.key (work.callNumber env) (work.poll env).1 := by
    have hpoll := Work.comes_poll (h.source_eq.symm ▸ h.honest work (Multiset.mem_cons_self ..))
    rwa [h.source_eq] at hpoll
  generalize (work.poll env).1 = progress at hcomes ⊢
  cases progress with
  | waiting left =>
    obtain ⟨hkey, hnumber, hhonest⟩ := hcomes
    exact hrest.goesOn hmakes hsource hkey hnumber hhonest
  | finished outcome => exact hrest.settle hmakes hsource execution hcomes

end Accounts

end ReadThrough
