/-!
# Broadcast channels

A ring of the latest messages, read by any number of subscribers, each at a position of its own.
Publishing never waits for them: a message that the ring has no room for any more is lost to those
who have not read it, and they are told how many they missed. Nothing is kept while nobody
listens, so a subscriber sees exactly what is published after it subscribed, less what it missed.
-/

namespace ReadThrough

/-- The length of the ring for a capacity: the least power of two that is not below it. -/
def ringLength (capacity : Nat) : Nat :=
  if capacity ≤ 1 then 1 else 1 <<< ((capacity - 1).log2 + 1)

/-- The ring has room for the capacity asked for. -/
theorem le_ringLength (capacity : Nat) : capacity ≤ ringLength capacity := by
  unfold ringLength
  split
  · assumption
  · rw [Nat.one_shiftLeft]
    have := @Nat.lt_log2_self (capacity - 1)
    omega

/-- A channel of messages of type `M`. -/
structure Channel (M : Type) where
  /-- How many messages the ring holds. -/
  length : Nat
  /-- The messages in the ring, oldest first. -/
  buffer : List M := []
  /-- How many messages were ever put into the ring. -/
  sent : Nat := 0
  /-- How many subscribers there are. -/
  subscribers : Nat := 0
  /-- Whether nobody can publish any more. -/
  closed : Bool := false

namespace Channel

variable {M : Type}

/-- A channel that keeps at least `capacity` messages. -/
def ofCapacity (capacity : Nat) : Channel M := { length := ringLength capacity }

/-- Publishes a message. Answers whether anybody is listening. -/
def publish (c : Channel M) (message : M) : Bool × Channel M :=
  if c.subscribers = 0 then (false, c)
  else
    let buffer := c.buffer ++ [message]
    (true, { c with buffer := buffer.drop (buffer.length - c.length), sent := c.sent + 1 })

/-- Adds a subscriber. Answers its position: the number of messages sent before it came. -/
def subscribe (c : Channel M) : Nat × Channel M :=
  (c.sent, { c with subscribers := c.subscribers + 1 })

/-- A subscriber leaves. -/
def unsubscribe (c : Channel M) : Channel M := { c with subscribers := c.subscribers - 1 }

/-- The last publisher leaves. -/
def close (c : Channel M) : Channel M := { c with closed := true }

/-- The position of the oldest message in the ring. -/
def oldest (c : Channel M) : Nat := c.sent - c.buffer.length

/-- How many messages a subscriber at `position` has missed. -/
def missed (c : Channel M) (position : Nat) : Nat := c.oldest - position

/-- The messages in the ring that a subscriber at `position` has not read. -/
def unread (c : Channel M) (position : Nat) : List M := c.buffer.drop (position - c.oldest)

/-- What a subscriber finds. -/
inductive Received (M : Type) where
  /-- A message, and the position behind it. -/
  | message (message : M) (position : Nat)
  /-- Nothing yet, at that position. -/
  | nothing (position : Nat)
  /-- Nothing, now or ever. -/
  | ended

/-- Looks for the first message that `wanted` asks for, passing over others. Answers how many
messages were missed before the ring's oldest, and what was found. -/
def receive (c : Channel M) (wanted : M → Bool) (position : Nat) : Nat × Received M :=
  let start := max position c.oldest
  (c.missed position, scan start (c.unread position))
where
  /-- Walks through messages from a position on. -/
  scan (position : Nat) : List M → Received M
    | [] => if c.closed then .ended else .nothing position
    | m :: rest => if wanted m then .message m (position + 1) else scan (position + 1) rest

end Channel

end ReadThrough
