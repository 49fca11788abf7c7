import ReadThrough.Duration
/-!
# Policies and terms

A policy says in which order a request consults the store and the source. The terms say which
stored values it may use and whether it may join a call of the source that is already running.
-/

namespace ReadThrough

/-- The order in which a request consults the store and the source. -/
inductive Policy where
  /-- The source always answers. -/
  | never
  /-- The source answers when nothing usable is stored. -/
  | ifHave
  /-- The store answers when the source fails and something usable is stored. -/
  | ifFailed
  /-- A usable stored value comes first, the source's answer second. -/
  | cachedThenLoad
  /-- The store alone answers. -/
  | only
  deriving DecidableEq

namespace Policy

instance : Inhabited Policy := ⟨.never⟩

/-- The inspection text. -/
def inspect : Policy → String
  | .never => "Never"
  | .ifHave => "IfHave"
  | .ifFailed => "IfFailed"
  | .cachedThenLoad => "CachedThenLoad"
  | .only => "Only"

end Policy

/-- What a request allows. -/
structure Terms where
  /-- The age below which stored values are usable; none allows every age. -/
  maxAge : Option Duration := none
  /-- Whether the request may join a call of the source that is already running. -/
  share : Bool := true
  deriving DecidableEq

namespace Terms

instance : Inhabited Terms := ⟨{}⟩

/-- Terms with an age limit, otherwise as usual. -/
def ofMaxAge (maxAge : Duration) : Terms := { maxAge := some maxAge }

/-- The same terms with another age limit. -/
def withMaxAge (t : Terms) (maxAge : Duration) : Terms := { t with maxAge := some maxAge }

/-- The same terms with sharing allowed or forbidden. -/
def withShare (t : Terms) (share : Bool) : Terms := { t with share := share }

/-- The inspection text. -/
def inspect (t : Terms) : String :=
  Text.record "CacheRequirement"
    [("max_age", Text.optional (t.maxAge.map Duration.inspect)),
     ("share_ongoing_request", Text.boolean t.share)]

end Terms

end ReadThrough
