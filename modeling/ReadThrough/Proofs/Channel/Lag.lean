import Mathlib.Algebra.Group.Nat.Defs
import Mathlib.Order.Bounds.Defs
import ReadThrough.Proofs.Channel
/-!
# Proofs: subscribers that lag behind

The ring holds as many of the latest messages as it has room for (`Channel.Full`). A subscriber that
has more than that to read misses the oldest of it, is told how many these are, and goes on with the
next (`Channel.Awaits.receive_eq`). This stays so when messages are published to those who listen
(`Channel.Relays`).
-/

namespace ReadThrough

/-! ## The length of the ring -/

/-- The length of the ring is the least power of two that is not below the capacity. -/
theorem ringLength_isLeast (capacity : Nat) :
    IsLeast {n | (∃ k, n = 2 ^ k) ∧ capacity ≤ n} (ringLength capacity) := by
  refine ⟨⟨?_, le_ringLength capacity⟩, ?_⟩
  · unfold ringLength
    split
    · exact ⟨0, rfl⟩
    · exact ⟨_, Nat.one_shiftLeft _⟩
  · rintro n ⟨⟨k, rfl⟩, hle⟩
    unfold ringLength
    split
    · exact Nat.one_le_two_pow
    · rename_i hcapacity
      have hlog : (capacity - 1).log2 < k := (Nat.log2_lt (by omega)).mpr (by omega)
      rw [Nat.one_shiftLeft]
      exact Nat.pow_le_pow_right (by omega) hlog

namespace Channel

variable {M : Type} {c c' c'' : Channel M} {position : Nat} {unread : List M}

/-! ## What is left to read -/

/-- The ring holds as many messages as it has room for. -/
def Full (c : Channel M) : Prop := c.buffer.length = min c.sent c.length

/-- A ring without messages is as full as it should be. -/
theorem full_ofCapacity (capacity : Nat) : (ofCapacity capacity : Channel M).Full :=
  (Nat.zero_min _).symm

/-- Where a subscriber that has the messages `unread` to read goes on. -/
theorem Awaits.oldest (h : c.Awaits position unread) (hfull : c.Full) :
    c.oldest = position + unread.length - c.length := by
  obtain ⟨read, rfl, hsent, -⟩ := h
  rw [List.length_append] at hsent
  rw [Channel.oldest, hfull, hsent]
  omega

/-- What a subscriber has missed is exactly what the ring has no room for. -/
theorem Awaits.missed_eq (h : c.Awaits position unread) (hfull : c.Full) :
    c.missed position = unread.length - c.length := by
  rw [missed, h.oldest hfull]
  omega

/-- All messages but those that were missed are in the ring. -/
theorem Awaits.unread_eq_drop (h : c.Awaits position unread) (hfull : c.Full) :
    c.unread position = unread.drop (unread.length - c.length) := by
  have holdest := h.oldest hfull
  obtain ⟨read, rfl, hsent, hlatest⟩ := h
  have hbuffer : c.buffer = (read ++ unread).drop (read.length + unread.length - c.length) := by
    have hlength : (read ++ unread).length - c.buffer.length =
        read.length + unread.length - c.length := by
      rw [hfull, hsent, List.length_append]
      omega
    rw [← hlength]
    exact List.suffix_iff_eq_drop.mp hlatest
  rw [Channel.unread, holdest, hbuffer, List.drop_drop, List.drop_append,
    List.drop_eq_nil_of_le (by omega), List.nil_append]
  exact congrArg (unread.drop ·) (by omega)

/-- A subscriber goes on behind what it has missed and `k` more messages. -/
theorem Awaits.goes (h : c.Awaits position unread) (hfull : c.Full) {k : Nat}
    (hk : k ≤ (c.unread position).length) :
    c.Awaits (max position c.oldest + k) ((c.unread position).drop k) := by
  rw [h.unread_eq_drop hfull, List.length_drop] at hk
  have hplace : max position c.oldest + k = position + (unread.length - c.length + k) := by
    rw [h.oldest hfull]
    omega
  have hskip : (unread.take (unread.length - c.length + k)).length =
      unread.length - c.length + k := List.length_take_of_le (by omega)
  rw [h.unread_eq_drop hfull, List.drop_drop, hplace]
  rw [← List.take_append_drop (unread.length - c.length + k) unread] at h
  have hnext := h.skip
  rwa [hskip] at hnext

/-- What a subscriber finds that has `unread` to read and takes everything. It misses the oldest
messages if the ring has no room for all of them, and then finds the next. -/
theorem Awaits.receive_eq (h : c.Awaits position unread) (hfull : c.Full) :
    c.receive (fun _ => true) position = (unread.length - c.length,
      match unread.drop (unread.length - c.length) with
      | [] => if c.closed then .ended else .nothing (position + (unread.length - c.length))
      | m :: _ => .message m (position + (unread.length - c.length) + 1)) := by
  have hstart : max position c.oldest = position + (unread.length - c.length) := by
    rw [h.oldest hfull]
    omega
  unfold receive
  rw [h.missed_eq hfull, h.unread_eq_drop hfull, hstart]
  cases unread.drop (unread.length - c.length) with
  | nil => rfl
  | cons m rest => rfl

/-- What a subscriber finds that wants some of the messages. It misses the oldest ones if the ring
has no room for all of them, and looks through the others. -/
theorem Awaits.finds_drop (h : c.Awaits position unread) (hfull : c.Full) (wanted : M → Bool) :
    Finds wanted (position + (unread.length - c.length)) (unread.drop (unread.length - c.length))
      (c.receive wanted position).2 := by
  have hstart : max position c.oldest = position + (unread.length - c.length) := by
    rw [h.oldest hfull]
    omega
  show Finds wanted _ _ (receive.scan c wanted (max position c.oldest) (c.unread position))
  rw [hstart, h.unread_eq_drop hfull]
  exact finds_scan wanted _ _

/-- A subscriber goes on behind the messages that it has missed. -/
theorem Awaits.missing (h : c.Awaits position unread) (n : Nat) (hn : n ≤ unread.length) :
    c.Awaits (position + n) (unread.drop n) := by
  have hlength : (unread.take n).length = n := List.length_take_of_le hn
  rw [← List.take_append_drop n unread] at h
  have hskip := h.skip
  rwa [hlength] at hskip

/-- Nobody is told that there is nothing more, as long as somebody can publish. -/
theorem receive_ne_ended (hopen : c.closed = false) (wanted : M → Bool) (position : Nat) :
    (c.receive wanted position).2 ≠ .ended := by
  have hscan : ∀ (unread : List M) (position : Nat),
      receive.scan c wanted position unread ≠ .ended := by
    intro unread
    induction unread with
    | nil =>
      intro position
      unfold receive.scan
      rw [hopen]
      exact fun h => by cases h
    | cons m rest ih =>
      intro position
      unfold receive.scan
      split
      · exact fun h => by cases h
      · exact ih (position + 1)
  exact hscan _ _

/-! ## What comes to read -/

/-- Nothing is published, while subscribers come and go. -/
def Still (c c' : Channel M) : Prop := c'.sent = c.sent ∧ c'.buffer = c.buffer

/-- Subscribers that come and go leave what another one has yet to read. -/
theorem Awaits.still (h : c.Awaits position unread) (hstill : c.Still c') :
    c'.Awaits position unread := by
  obtain ⟨read, hread, hcarries⟩ := h
  exact ⟨read, hread, hstill.1.trans hcarries.sent, hstill.2 ▸ hcarries.latest⟩

/-- As `Airs`, and the ring stays as it should be. Nothing is closed. -/
structure Relays (k k' : Nat) (messages : List M) (c c' : Channel M) : Prop
    extends Airs k k' messages c c' where
  length : c'.length = c.length
  closed : c'.closed = c.closed
  full : c.Full → c'.Full
  carried : (∃ sent, c.Carries sent) → ∃ sent, c'.Carries sent

section Relays

variable {k k' k'' : Nat} {messages messages' : List M}

theorem Relays.refl (k : Nat) (c : Channel M) : Relays k k [] c c :=
  ⟨.refl k c, rfl, rfl, id, id⟩

theorem relays_subscribe (k : Nat) (c : Channel M) : Relays k (k + 1) [] c c.subscribe.2 :=
  ⟨airs_subscribe k c, rfl, rfl, id, fun ⟨sent, h⟩ => ⟨sent, h.sent, h.latest⟩⟩

theorem relays_unsubscribe (k : Nat) (c : Channel M) : Relays (k + 1) k [] c c.unsubscribe :=
  ⟨airs_unsubscribe k c, rfl, rfl, id, fun ⟨sent, h⟩ => ⟨sent, h.sent, h.latest⟩⟩

/-- A message that is published pushes out the oldest one only if the ring is full. -/
theorem Full.publish (h : c.Full) (message : M) : (c.publish message).2.Full := by
  unfold Channel.publish
  split
  · exact h
  · show (List.drop _ (c.buffer ++ [message])).length = min (c.sent + 1) c.length
    rw [List.length_drop, List.length_append, List.length_singleton, h]
    omega

/-- A message is sent, unless nobody listens, and the ring stays as it should be. -/
theorem relays_publish (k : Nat) (c : Channel M) (message : M) :
    Relays k k [message] c (c.publish message).2 := by
  refine ⟨airs_publish k c message, ?_, ?_, fun h => h.publish message,
    fun ⟨sent, h⟩ => ⟨_, h.publish message⟩⟩
  · unfold publish
    split <;> rfl
  · unfold publish
    split <;> rfl

/-- What is relayed on the way is relayed in the two parts of it, one after the other. -/
theorem Relays.trans (h : Relays k k' messages c c') (h' : Relays k' k'' messages' c' c'') :
    Relays k k'' (messages ++ messages') c c'' :=
  ⟨h.toAirs.trans h'.toAirs, h'.length.trans h.length, h'.closed.trans h.closed,
    fun hfull => h'.full (h.full hfull), fun hcarried => h'.carried (h.carried hcarried)⟩

/-- Some subscribers more come and go with the others. -/
theorem Relays.add (h : Relays k k' messages c c') (m : Nat) :
    Relays (k + m) (k' + m) messages c c' :=
  ⟨h.toAirs.add m, h.length, h.closed, h.full, h.carried⟩

end Relays

end Channel

end ReadThrough
