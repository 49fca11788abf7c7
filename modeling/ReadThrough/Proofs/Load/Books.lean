import ReadThrough.Proofs.Load.Source
/-!
# Proofs: books of the work done

What the events of a run say about its calls of the source: which were made, which executions have
ended with which outcomes, who received what and which failures were published (`books`). Most
events leave the books as they are; a poll of work makes a few entries.
-/

namespace ReadThrough

variable {P A V E : Type}

/-- How an execution has ended. -/
structure Settlement (P A V E : Type) where
  /-- The number of the execution in the registry, if it is shared. -/
  execution : Option Nat
  /-- The number of the call of the source that it has made. -/
  number : Nat
  key : Key P A
  outcome : Outcome (Result V E)

/-- What has become of the calls of the source. -/
structure Books (P A V E : Type) where
  /-- The calls, with their numbers. -/
  calls : List (Nat × Key P A)
  /-- The executions that have ended. -/
  settled : List (Settlement P A V E)
  /-- The results that callers have received, each of an execution. -/
  received : List (Option Nat × Result V E)
  /-- The failures that were published. -/
  published : List (P × Failure E)

namespace Event

/-- The call of the source that an event is. -/
def call? : Event P A V E → Option (Nat × Key P A)
  | .called number key => some (number, key)
  | _ => none

/-- The end of an execution that an event is. -/
def settlement? : Event P A V E → Option (Settlement P A V E)
  | .settled execution number key outcome => some { execution, number, key, outcome }
  | _ => none

/-- The result that somebody receives in an event. -/
def receipt? : Event P A V E → Option (Option Nat × Result V E)
  | .received execution result => some (execution, result)
  | _ => none

/-- Whether an event leaves the books as they are. -/
def isSilent : Event P A V E → Bool
  | .called _ _ | .settled _ _ _ _ | .received _ _ | .failurePublished _ _ | .failureUnheard =>
    false
  | _ => true

end Event

/-- The books of some events. -/
def books (events : List (Event P A V E)) : Books P A V E where
  calls := events.filterMap Event.call?
  settled := events.filterMap Event.settlement?
  received := events.filterMap Event.receipt?
  published := publications events

namespace Books

instance : Append (Books P A V E) :=
  ⟨fun b b' => ⟨b.calls ++ b'.calls, b.settled ++ b'.settled, b.received ++ b'.received,
    b.published ++ b'.published⟩⟩

/-- Books without entries. -/
def empty : Books P A V E := ⟨[], [], [], []⟩

@[simp] theorem calls_append (b b' : Books P A V E) : (b ++ b').calls = b.calls ++ b'.calls := rfl

@[simp] theorem settled_append (b b' : Books P A V E) :
    (b ++ b').settled = b.settled ++ b'.settled := rfl

@[simp] theorem received_append (b b' : Books P A V E) :
    (b ++ b').received = b.received ++ b'.received := rfl

@[simp] theorem published_append (b b' : Books P A V E) :
    (b ++ b').published = b.published ++ b'.published := rfl

theorem append_assoc (b b' b'' : Books P A V E) : b ++ b' ++ b'' = b ++ (b' ++ b'') := by
  show Books.mk _ _ _ _ = Books.mk _ _ _ _
  simp only [calls_append, settled_append, received_append, published_append, List.append_assoc]

theorem append_empty (b : Books P A V E) : b ++ empty = b := by
  show Books.mk (b.calls ++ []) (b.settled ++ []) (b.received ++ []) (b.published ++ []) = b
  simp only [List.append_nil]

end Books

/-- The books of more events are those of the first, and then those of the others. -/
theorem books_append (events events' : List (Event P A V E)) :
    books (events ++ events') = books events ++ books events' := by
  show Books.mk _ _ _ _ = Books.mk _ _ _ _
  rw [List.filterMap_append, List.filterMap_append, List.filterMap_append, publications_append]
  rfl

/-- Events that tell of no call, settlement or receipt leave only publications in the books. -/
theorem books_eq_published {events : List (Event P A V E)}
    (hcalls : ∀ event ∈ events, event.call? = none)
    (hsettled : ∀ event ∈ events, event.settlement? = none)
    (hreceived : ∀ event ∈ events, event.receipt? = none) :
    books events = ⟨[], [], [], publications events⟩ := by
  show Books.mk _ _ _ _ = _
  rw [List.filterMap_eq_nil_iff.mpr hcalls, List.filterMap_eq_nil_iff.mpr hsettled,
    List.filterMap_eq_nil_iff.mpr hreceived]

/-- Silent events leave nothing in the books. -/
theorem books_of_silent {events : List (Event P A V E)}
    (h : ∀ event ∈ events, event.isSilent = true) : books events = .empty := by
  have hnone : ∀ event ∈ events, event.call? = none ∧ event.settlement? = none ∧
      event.receipt? = none ∧ event.publication? = none := by
    intro event he
    have hsilent := h event he
    cases event with
    | called | settled | received | failurePublished => cases hsilent
    | _ => exact ⟨rfl, rfl, rfl, rfl⟩
  have hquiet : publications events = [] :=
    List.filterMap_eq_nil_iff.mpr fun event he => (hnone event he).2.2.2
  rw [books_eq_published (fun event he => (hnone event he).1) (fun event he => (hnone event he).2.1)
    fun event he => (hnone event he).2.2.1, hquiet]
  rfl

/-- Silent events leave what was heard as it is. -/
theorem heard_of_silent {events : List (Event P A V E)}
    (h : ∀ event ∈ events, event.isSilent = true) (messages : List (P × Failure E)) :
    heard messages events = messages := by
  refine heard_of_forall (fun event he messages => ?_) messages
  have hsilent := h event he
  cases event with
  | failurePublished | failureUnheard => cases hsilent
  | _ => rfl

/-- Notices of the registry are silent. -/
theorem isSilent_registry (notices : List Notice) :
    ∀ event ∈ (notices.map .registry : List (Event P A V E)), event.isSilent = true := by
  intro event he
  obtain ⟨notice, -, rfl⟩ := List.mem_map.mp he
  rfl

/-! ## The entries of a poll -/

namespace Work

/-- The call of the source that a poll makes. -/
def newCalls (work : Work P A V E) (env : Environment P A V E) : List (Nat × Key P A) :=
  match work with
  | .fresh key => [(env.called.length + 1, key)]
  | .calling _ _ _ | .storing _ _ _ _ => []

/-- The end of the execution, if a poll leads to one. -/
def settlements (execution : Option Nat) (number : Nat) (key : Key P A) :
    Progress (Work P A V E) (Outcome (Result V E)) → List (Settlement P A V E)
  | .waiting _ => []
  | .finished outcome => [{ execution, number, key, outcome }]

variable {env : Environment P A V E}

/-- The work itself only enters what it publishes. -/
theorem books_of_isWork {events : List (Event P A V E)}
    (h : ∀ event ∈ events, event.isWork = true) :
    books events = ⟨[], [], [], publications events⟩ := by
  refine books_eq_published (fun event he => ?_) (fun event he => ?_) fun event he => ?_
  all_goals
    have hwork := h event he
    cases event with
    | called | settled | received => cases hwork
    | _ => rfl

/-- Of what comes before the rest of a poll, the books have the call of the source. -/
theorem books_calls (work : Work P A V E) (env : Environment P A V E) :
    books (work.calls env) = ⟨work.newCalls env, [], [], []⟩ := by
  cases work with
  | fresh key => rfl
  | calling key number reply => rfl
  | storing key number value now => rfl

variable [DecidableEq P] [DecidableEq A]

/-- Of what comes at the end of a poll, the books have the end of the execution. -/
theorem books_closing (execution : Option Nat) (work : Work P A V E) (env : Environment P A V E) :
    books (work.closing execution env) =
      ⟨[], settlements execution (work.callNumber env) work.key (work.poll env).1, [], []⟩ := by
  unfold closing
  cases (work.poll env).1 with
  | waiting rest => rfl
  | finished outcome => rfl

/-- What a poll of work as an execution enters into the books, and what it does to the source, its
calls and the channel of failures. -/
theorem books_pollAs (execution : Option Nat) (work : Work P A V E) (env : Environment P A V E) :
    ∃ events, (work.pollAs execution env).2.trace = env.trace ++ events ∧
      books events = ⟨work.newCalls env,
        settlements execution (work.callNumber env) work.key (work.poll env).1, [],
        owed work.key (work.poll env).1⟩ ∧
      (work.pollAs execution env).2.source = env.source ∧
      (work.pollAs execution env).2.called =
        env.called ++ (work.newCalls env).map (·.2.params) ∧
      ∀ messages, env.errors.Carries messages →
        (work.pollAs execution env).2.errors.Carries (heard messages events) := by
  obtain ⟨events, h⟩ := tells_poll work env
  refine ⟨_, pollAs_trace execution h, ?_, ?_, ?_, fun messages hc => ?_⟩
  · rw [books_append, books_append, books_calls, books_closing, books_of_isWork h.isWork,
      h.published]
    show Books.mk _ _ _ _ = _
    simp
  · rw [pollAs_eq]
    refine h.source.trans ?_
    cases work <;> rfl
  · rw [pollAs_eq]
    refine h.called.trans ?_
    cases work with
    | fresh key => rfl
    | calling key number reply => exact (List.append_nil _).symm
    | storing key number value now => exact (List.append_nil _).symm
  · have hcalls : heard messages (work.calls env) = messages := by cases work <;> rfl
    have hentry : (work.entry env).errors = env.errors := by cases work <;> rfl
    have hclosing : ∀ messages, heard messages (work.closing execution env) = messages := by
      intro messages
      unfold closing
      cases (work.poll env).1 <;> rfl
    rw [pollAs_eq, heard_append, heard_append, hcalls, hclosing]
    exact h.carries (hentry.symm ▸ hc)

end Work

end ReadThrough
