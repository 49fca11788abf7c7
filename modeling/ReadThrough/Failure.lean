import ReadThrough.Text.Inspect
/-!
# Failures

The ways in which a request, a panic or a configuration fails, as causes; the wording of each is
in one function beside it.
-/

namespace ReadThrough

/-! ## Panics -/

/-- What a computation throws when it panics. -/
inductive PanicPayload where
  /-- A text. -/
  | text (message : String)
  /-- Anything that is not a text. -/
  | other
  deriving DecidableEq

/-- The message of a panic: the text thrown, or a placeholder. -/
def PanicPayload.message : PanicPayload → String
  | .text message => message
  | .other => "<non-string panic payload>"

/-- How a panic is reported to whoever waited for the computation. -/
def panicText (message : String) : String := "producer panicked: " ++ message

/-! ## Failed requests -/

/-- Why a request was not answered with a value. -/
inductive Failure (E : Type) where
  /-- The source returned an error. -/
  | source (error : E)
  /-- Only a stored value was wanted and no usable one is stored. -/
  | notCached
  /-- The source, or the store it writes to, panicked. -/
  | panicked (message : String)
  deriving DecidableEq

namespace Failure

variable {E : Type}

/-- The source's own error. -/
def sourceError? : Failure E → Option E
  | .source error => some error
  | _ => none

/-- Whether nothing usable was stored. -/
def isNotCached : Failure E → Bool
  | .notCached => true
  | _ => false

/-- Whether a panic is the cause. -/
def isPanic : Failure E → Bool
  | .panicked _ => true
  | _ => false

/-- The message of the panic. -/
def panicMessage? : Failure E → Option String
  | .panicked message => some message
  | _ => none

/-- The failure in words, given those for the source's errors. -/
def text (showError : E → String) : Failure E → String
  | .source error => "source failed: " ++ showError error
  | .notCached => "no usable entry in cache"
  | .panicked message => panicText message

/-- The inspection text, given that of the source's errors. -/
def inspect (showError : E → String) : Failure E → String
  | .source error => Text.applied "Source" (showError error)
  | .notCached => "NotCached"
  | .panicked message =>
    Text.applied "Panicked" (Text.record "ProducerPanicked" [("message", Text.quoted message)])

end Failure

/-! ## Refused configurations -/

/-- Why a configuration is refused. -/
inductive SetupError where
  /-- The named capacity is zero. -/
  | zeroCapacity (what : String)
  deriving DecidableEq

namespace SetupError

/-- The error in words. -/
def text : SetupError → String
  | .zeroCapacity what => what ++ " capacity must be greater than zero"

/-- The inspection text. -/
def inspect : SetupError → String
  | .zeroCapacity what => Text.record "ZeroCapacity" [("what", Text.quoted what)]

end SetupError

end ReadThrough
