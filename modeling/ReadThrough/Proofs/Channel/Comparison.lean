import ReadThrough.Proofs.Channel.Lag
/-!
# Proofs: channels in two runs

A channel that somebody else listens to as well has had more messages than one that nobody else
listens to, and the positions of its subscribers differ. Still, two subscribers of such channels may
have the same messages to read (`Channel.Meets`). Then they miss the same number of messages, read
the same ones (`Channel.Meets.unread`), and go on to positions where they meet again.
-/

namespace ReadThrough

namespace Channel

variable {M : Type} {c c' d d' : Channel M} {p p' : Nat}

/-- A channel whose ring holds the latest of the messages that were sent, as many as it has room
for. -/
structure Orderly (c : Channel M) : Prop where
  full : c.Full
  carried : ∃ sent, c.Carries sent

/-- Two channels with the same room that are open or closed alike. -/
structure SameShape (c c' : Channel M) : Prop where
  length : c'.length = c.length
  closed : c'.closed = c.closed
  orderly : c.Orderly
  orderly' : c'.Orderly

/-- Subscribers at two positions, each of a channel of its own, have the same messages to read. -/
def Meets (c c' : Channel M) (p p' : Nat) : Prop :=
  ∃ unread, c.Awaits p unread ∧ c'.Awaits p' unread

/-- Nothing happens to a channel, but for subscribers that come and go. -/
structure Rests (c c' : Channel M) : Prop where
  still : c.Still c'
  length : c'.length = c.length
  closed : c'.closed = c.closed

/-! ## Channels with the same room -/

/-- The ring holds the latest messages after one message more. -/
theorem Orderly.publish (h : c.Orderly) (message : M) : (c.publish message).2.Orderly := by
  obtain ⟨hfull, sent, hcarries⟩ := h
  exact ⟨hfull.publish message, _, hcarries.publish message⟩

/-- The ring holds the latest messages as long as none is published. -/
theorem Orderly.still (h : c.Orderly) (hstill : c.Still c') (hlength : c'.length = c.length) :
    c'.Orderly := by
  obtain ⟨hfull, sent, hcarries⟩ := h
  obtain ⟨hsent, hbuffer⟩ := hstill
  refine ⟨?_, sent, hsent.trans hcarries.sent, hbuffer ▸ hcarries.latest⟩
  rw [Full, hbuffer, hsent, hlength]
  exact hfull

theorem Orderly.rests (h : c.Orderly) (hrests : c.Rests c') : c'.Orderly :=
  h.still hrests.still hrests.length

/-- Two channels on which the same is published keep the same room. -/
theorem SameShape.publish (h : c.SameShape c') (message : M) :
    (c.publish message).2.SameShape (c'.publish message).2 := by
  have hkept : ∀ c : Channel M, (c.publish message).2.length = c.length ∧
      (c.publish message).2.closed = c.closed := by
    intro c
    unfold Channel.publish
    split <;> exact ⟨rfl, rfl⟩
  constructor
  · rw [(hkept c').1, (hkept c).1, h.length]
  · rw [(hkept c').2, (hkept c).2, h.closed]
  · exact h.orderly.publish message
  · exact h.orderly'.publish message

/-- Subscribers that come and go on either side do not change the room of the channels. -/
theorem SameShape.rests (h : c.SameShape c') (hrests : c.Rests d) (hrests' : c'.Rests d') :
    d.SameShape d' := by
  constructor
  · rw [hrests'.length, hrests.length, h.length]
  · rw [hrests'.closed, hrests.closed, h.closed]
  · exact h.orderly.rests hrests
  · exact h.orderly'.rests hrests'

theorem SameShape.close (h : c.SameShape c') : c.close.SameShape c'.close :=
  ⟨h.length, rfl, h.orderly.still ⟨rfl, rfl⟩ rfl, h.orderly'.still ⟨rfl, rfl⟩ rfl⟩

/-! ## Nothing happens -/

theorem Rests.refl (c : Channel M) : c.Rests c := ⟨⟨rfl, rfl⟩, rfl, rfl⟩

theorem Rests.trans (h : c.Rests c') (h' : c'.Rests d) : c.Rests d := by
  refine ⟨⟨?_, ?_⟩, h'.length.trans h.length, h'.closed.trans h.closed⟩
  · exact h'.still.1.trans h.still.1
  · exact h'.still.2.trans h.still.2

theorem rests_subscribe (c : Channel M) : c.Rests c.subscribe.2 := ⟨⟨rfl, rfl⟩, rfl, rfl⟩

theorem rests_unsubscribe (c : Channel M) : c.Rests c.unsubscribe := ⟨⟨rfl, rfl⟩, rfl, rfl⟩

/-! ## Subscribers that meet -/

/-- Two new subscribers have nothing to read. -/
theorem Orderly.meets (h : c.Orderly) (h' : c'.Orderly) :
    c.subscribe.2.Meets c'.subscribe.2 c.subscribe.1 c'.subscribe.1 := by
  obtain ⟨-, sent, hcarries⟩ := h
  obtain ⟨-, sent', hcarries'⟩ := h'
  exact ⟨[], hcarries.awaits_subscribe, hcarries'.awaits_subscribe⟩

/-- Subscribers have the same to read as long as nothing is published on either side. -/
theorem Meets.still (h : c.Meets c' p p') (hstill : c.Still d) (hstill' : c'.Still d') :
    d.Meets d' p p' := by
  obtain ⟨unread, hawaits, hawaits'⟩ := h
  exact ⟨unread, hawaits.still hstill, hawaits'.still hstill'⟩

/-- What is published is sent to both of them, if both channels have subscribers. -/
theorem Meets.publish (h : c.Meets c' p p') (hheard : 0 < c.subscribers)
    (hheard' : 0 < c'.subscribers) (message : M) :
    (c.publish message).2.Meets (c'.publish message).2 p p' := by
  obtain ⟨unread, hawaits, hawaits'⟩ := h
  refine ⟨unread ++ [message], ?_, ?_⟩
  · exact (airs_publish 0 c message).awaits hheard rfl hawaits
  · exact (airs_publish 0 c' message).awaits hheard' rfl hawaits'

section Reading

variable (hshape : c.SameShape c')
include hshape

/-- Subscribers with the same to read have missed as much. -/
theorem Meets.missed (h : c.Meets c' p p') : c'.missed p' = c.missed p := by
  obtain ⟨unread, hawaits, hawaits'⟩ := h
  rw [hawaits'.missed_eq hshape.orderly'.full, hawaits.missed_eq hshape.orderly.full,
    hshape.length]

/-- Subscribers with the same to read find the same messages in their rings. -/
theorem Meets.unread (h : c.Meets c' p p') : c'.unread p' = c.unread p := by
  obtain ⟨unread, hawaits, hawaits'⟩ := h
  rw [hawaits'.unread_eq_drop hshape.orderly'.full, hawaits.unread_eq_drop hshape.orderly.full,
    hshape.length]

/-- Subscribers that read on by as many messages have the same to read afterwards. -/
theorem Meets.goes (h : c.Meets c' p p') {k : Nat} (hk : k ≤ (c.unread p).length) :
    c.Meets c' (max p c.oldest + k) (max p' c'.oldest + k) := by
  have hsame := h.unread hshape
  obtain ⟨unread, hawaits, hawaits'⟩ := h
  have hgoes := hawaits'.goes hshape.orderly'.full (hsame ▸ hk)
  rw [hsame] at hgoes
  exact ⟨_, hawaits.goes hshape.orderly.full hk, hgoes⟩

end Reading

end Channel

end ReadThrough
