/-!
# Polling

Nothing here runs by itself: a computation makes progress when it is polled, and says each time
whether it is finished. This module holds what a poll can answer and the two ways of polling more
than once, until a single task has nothing more to give (`drain`) and in passes over several tasks
until a whole pass gives nothing (`join`).
-/

namespace ReadThrough

/-- What one poll of a computation leaves: the computation, or its result. -/
inductive Progress (W T : Type) where
  /-- It is not finished. -/
  | waiting (rest : W)
  /-- It is finished. -/
  | finished (result : T)

/-- What a poll of a stream answers. -/
inductive Answer (I : Type) where
  /-- Nothing yet. -/
  | pending
  /-- The next item. -/
  | item (item : I)
  /-- There are no more items. -/
  | done
  /-- The stream panics. -/
  | panicked (message : String)
  deriving DecidableEq

/-- The same answer with another item. -/
def Answer.map {I J : Type} (f : I → J) : Answer I → Answer J
  | .pending => .pending
  | .item i => .item (f i)
  | .done => .done
  | .panicked message => .panicked message

/-- What a poll of a named task answers. -/
inductive TaskAnswer (I : Type) where
  /-- The task answers. -/
  | answer (answer : Answer I)
  /-- The task has ended before. -/
  | finished
  /-- There is no such task. -/
  | unknown
  deriving DecidableEq

namespace TaskAnswer

variable {I : Type}

/-- Whether a task may have more to give after this answer. -/
def mayContinue : TaskAnswer I → Bool
  | .answer (.item _) => true
  | _ => false

/-- Whether an answer tells something: an item, the end or a panic. -/
def tells : TaskAnswer I → Bool
  | .answer .pending | .finished | .unknown => false
  | .answer _ => true

end TaskAnswer

/-- Polls a task until it has nothing more to give, at most as often as the first argument says.
Collects all answers. -/
def drain {S I : Type} (poll : S → TaskAnswer I × S) : Nat → S → List (TaskAnswer I) × S
  | 0, s => ([], s)
  | polls + 1, s =>
    let (answer, s) := poll s
    if answer.mayContinue then
      let (answers, s) := drain poll polls s
      (answer :: answers, s)
    else ([answer], s)

section Several

variable {S I : Type} (poll : String → S → TaskAnswer I × S)

/-- Polls each task once, in order. Collects the answers that tell something. -/
def pass : List String → S → List (String × TaskAnswer I) × S
  | [], s => ([], s)
  | id :: ids, s =>
    let (answer, s) := poll id s
    let (answers, s) := pass ids s
    (if answer.tells then (id, answer) :: answers else answers, s)

/-- Repeats passes until one collects nothing, at most as often as the first argument says. -/
def join : Nat → List String → S → List (String × TaskAnswer I) × S
  | 0, _, s => ([], s)
  | passes + 1, ids, s =>
    match pass poll ids s with
    | ([], s) => ([], s)
    | (first, s) =>
      let (rest, s) := join passes ids s
      (first ++ rest, s)

end Several

end ReadThrough
