import ReadThrough.Proofs.Load.Work
/-!
# Proofs: what a subscriber reads

What a subscriber has yet to read of a channel is a list of messages (`Awaits`). As long as it
misses nothing, it finds the first of them that it wants, and goes on behind it. Whoever listens
while others publish, subscribe and leave awaits all that they publish (`Airs`).
-/

namespace ReadThrough

namespace Channel

variable {M : Type} {c c' c'' : Channel M} {position : Nat} {unread : List M}

/-! ## Reading -/

/-- What a subscriber at a position has yet to read. -/
def Awaits (c : Channel M) (position : Nat) (unread : List M) : Prop :=
  ∃ read, read.length = position ∧ c.Carries (read ++ unread)

/-- What a subscriber finds among the messages that it has yet to read. -/
inductive Finds (wanted : M → Bool) (position : Nat) (unread : List M) : Received M → Prop where
  | message {skipped rest : List M} {m : M} (hunread : unread = skipped ++ m :: rest)
      (hskipped : ∀ m' ∈ skipped, wanted m' = false) (hwanted : wanted m = true) :
      Finds wanted position unread (.message m (position + skipped.length + 1))
  | nothing (hnone : ∀ m ∈ unread, wanted m = false) :
      Finds wanted position unread (.nothing (position + unread.length))
  | ended (hnone : ∀ m ∈ unread, wanted m = false) : Finds wanted position unread .ended

/-- A subscriber who comes has nothing to read. -/
theorem Carries.awaits_subscribe {messages : List M} (h : c.Carries messages) :
    c.subscribe.2.Awaits c.subscribe.1 [] :=
  ⟨messages, h.sent.symm, by rw [List.append_nil]; exact ⟨h.sent, h.latest⟩⟩

/-- A subscriber goes on behind messages. -/
theorem Awaits.skip {skipped : List M} (h : c.Awaits position (skipped ++ unread)) :
    c.Awaits (position + skipped.length) unread := by
  obtain ⟨read, rfl, hcarries⟩ := h
  rw [← List.append_assoc] at hcarries
  exact ⟨read ++ skipped, List.length_append, hcarries⟩

/-- What is in the ring for a subscriber who has missed nothing is all that it has yet to read. -/
theorem Awaits.unread_eq (h : c.Awaits position unread) (hmissed : c.missed position = 0) :
    c.unread position = unread := by
  obtain ⟨read, rfl, hsent, earlier, hearlier⟩ := h
  have hlength := congrArg List.length hearlier
  have holdest : c.oldest = earlier.length := by
    rw [oldest, hsent, ← hearlier, List.length_append, Nat.add_sub_cancel]
  have hle : earlier.length ≤ read.length := by
    rw [missed, holdest] at hmissed
    exact Nat.le_of_sub_eq_zero hmissed
  have hdrop : c.buffer = (read ++ unread).drop earlier.length := by
    rw [← hearlier, List.drop_left]
  rw [Channel.unread, holdest, hdrop, List.drop_drop, Nat.add_sub_cancel' hle, List.drop_left]

/-- A scan finds what it wants among the messages that it goes through. -/
theorem finds_scan (wanted : M → Bool) (position : Nat) (unread : List M) :
    Finds wanted position unread (receive.scan c wanted position unread) := by
  induction unread generalizing position with
  | nil =>
    unfold receive.scan
    split
    · exact .ended (List.forall_mem_nil _)
    · exact .nothing (List.forall_mem_nil _)
  | cons m rest ih =>
    unfold receive.scan
    split
    · have hnone : ∀ m' ∈ ([] : List M), wanted m' = false := List.forall_mem_nil _
      exact .message rfl hnone ‹_›
    · -- The first message is passed over.
      rename_i hwanted
      have hfirst : wanted m = false := Bool.eq_false_iff.mpr hwanted
      have hrest := ih (position + 1)
      generalize receive.scan c wanted (position + 1) rest = received at hrest
      cases hrest with
      | @message skipped rest' m' hunread hskipped hwanted' =>
        have hall : ∀ m' ∈ m :: skipped, wanted m' = false :=
          List.forall_mem_cons.mpr ⟨hfirst, hskipped⟩
        have hplace : position + 1 + skipped.length + 1 =
            position + (m :: skipped).length + 1 := by
          rw [List.length_cons]
          omega
        rw [hplace]
        exact .message (congrArg (m :: ·) hunread) hall hwanted'
      | nothing hnone =>
        have hplace : position + 1 + rest.length = position + (m :: rest).length := by
          rw [List.length_cons]
          omega
        rw [hplace]
        exact .nothing (List.forall_mem_cons.mpr ⟨hfirst, hnone⟩)
      | ended hnone => exact .ended (List.forall_mem_cons.mpr ⟨hfirst, hnone⟩)

/-- A subscriber that has missed nothing finds what it wants among all that it has yet to read. -/
theorem Awaits.finds (h : c.Awaits position unread) (hmissed : c.missed position = 0)
    (wanted : M → Bool) : Finds wanted position unread (c.receive wanted position).2 := by
  have hstart : max position c.oldest = position :=
    Nat.max_eq_left (Nat.le_of_sub_eq_zero hmissed)
  show Finds wanted position unread
    (receive.scan c wanted (max position c.oldest) (c.unread position))
  rw [hstart, h.unread_eq hmissed]
  exact finds_scan wanted position unread

/-- How many messages the ring has for a subscriber at a position. -/
def ahead (c : Channel M) (position : Nat) : Nat := (c.unread position).length

/-- What is ahead of a subscriber, by its distance from the oldest message. -/
theorem ahead_eq (c : Channel M) (position : Nat) :
    c.ahead position = c.buffer.length - (position - c.oldest) := List.length_drop

/-- A subscriber goes on behind what it finds in the ring. -/
theorem ahead_max (c : Channel M) (position more : Nat) :
    c.ahead (max position c.oldest + more) = c.ahead position - more := by
  rw [ahead_eq, ahead_eq]
  omega

/-- With each message that is found there is one less ahead. -/
theorem ahead_of_message {wanted : M → Bool} {missed position' : Nat} {m : M}
    (h : c.receive wanted position = (missed, .message m position')) :
    c.ahead position' + 1 ≤ c.ahead position := by
  have hscan : receive.scan c wanted (max position c.oldest) (c.unread position) =
      .message m position' := congrArg Prod.snd h
  have hfinds := finds_scan (c := c) wanted (max position c.oldest) (c.unread position)
  rw [hscan] at hfinds
  cases hfinds with
  | @message skipped rest _ hunread =>
    have hlength := congrArg List.length hunread
    rw [List.length_append, List.length_cons] at hlength
    rw [Nat.add_assoc, ahead_max, ahead, hlength]
    omega

/-- A subscriber that finds nothing has no more ahead than before. -/
theorem ahead_of_nothing {wanted : M → Bool} {missed position' : Nat}
    (h : c.receive wanted position = (missed, .nothing position')) :
    c.ahead position' ≤ c.ahead position := by
  have hscan : receive.scan c wanted (max position c.oldest) (c.unread position) =
      .nothing position' := congrArg Prod.snd h
  have hfinds := finds_scan (c := c) wanted (max position c.oldest) (c.unread position)
  rw [hscan] at hfinds
  cases hfinds with
  | nothing hnone =>
    rw [ahead_max]
    exact Nat.sub_le _ _

/-! ## Listening -/

/-- From one channel to another, messages are published while some subscribers come and go, `k`
before and `k'` after. If anybody else listens, all messages are sent to them, and no others. -/
structure Airs (k k' : Nat) (messages : List M) (c c' : Channel M) : Prop where
  subscribers : ∀ n, c.subscribers = n + k → c'.subscribers = n + k'
  carries : ∀ n, 0 < n → c.subscribers = n + k → ∀ {sent}, c.Carries sent →
    c'.Carries (sent ++ messages)
  holds : c.buffer.length ≤ c.sent → c'.buffer.length ≤ c'.sent
  ahead : c.buffer.length ≤ c.sent → ∀ position,
    c'.ahead position ≤ c.ahead position + messages.length

section Airs

variable {k k' k'' : Nat} {messages messages' : List M}

/-- Nobody publishes anything. -/
theorem Airs.silent (hsubscribers : ∀ n, c.subscribers = n + k → c'.subscribers = n + k')
    (hsent : c'.sent = c.sent) (hbuffer : c'.buffer = c.buffer) : Airs k k' [] c c' := by
  refine ⟨hsubscribers, fun n _ _ sent hcarries => ?_, fun h => ?_, fun _ position => ?_⟩
  · rw [List.append_nil]
    exact ⟨hsent.trans hcarries.sent, hbuffer.symm ▸ hcarries.latest⟩
  · rw [hsent, hbuffer]
    exact h
  · rw [ahead_eq, ahead_eq, oldest, oldest, hsent, hbuffer]
    exact Nat.le_refl _

theorem Airs.refl (k : Nat) (c : Channel M) : Airs k k [] c c := .silent (fun _ h => h) rfl rfl

/-- A subscriber that comes hears of nothing that was published before. -/
theorem airs_subscribe (k : Nat) (c : Channel M) : Airs k (k + 1) [] c c.subscribe.2 :=
  .silent (fun _ h => congrArg (· + 1) h) rfl rfl

theorem airs_unsubscribe (k : Nat) (c : Channel M) : Airs (k + 1) k [] c c.unsubscribe :=
  .silent (fun _ h => congrArg (· - 1) h) rfl rfl

/-- To close a channel publishes nothing. -/
theorem airs_close (k : Nat) (c : Channel M) : Airs k k [] c c.close :=
  .silent (fun _ h => h) rfl rfl

/-- A message is sent, unless nobody listens. -/
theorem airs_publish (k : Nat) (c : Channel M) (message : M) :
    Airs k k [message] c (c.publish message).2 := by
  refine ⟨fun n h => ?_, fun n hpos h sent hcarries => ?_, fun h => ?_, fun h position => ?_⟩
  · unfold publish
    split <;> exact h
  · have hheard : (c.publish message).1 = true := by
      unfold publish
      rw [if_neg (by omega)]
    have hpublished := hcarries.publish message
    rwa [hheard, if_pos rfl] at hpublished
  · unfold publish
    split
    · exact h
    · show (List.drop _ (c.buffer ++ [message])).length ≤ c.sent + 1
      rw [List.length_drop, List.length_append, List.length_singleton]
      omega
  · rw [ahead_eq, ahead_eq, oldest, oldest, List.length_singleton]
    unfold publish
    split
    · exact Nat.le_succ _
    · simp only [List.length_drop, List.length_append, List.length_singleton]
      omega

/-- What is published on the way is published in the two parts of it, one after the other. -/
theorem Airs.trans (h : Airs k k' messages c c') (h' : Airs k' k'' messages' c' c'') :
    Airs k k'' (messages ++ messages') c c'' := by
  refine ⟨fun n hn => h'.subscribers n (h.subscribers n hn), fun n hpos hn sent hcarries => ?_,
    fun hold => h'.holds (h.holds hold), fun hold position => ?_⟩
  · rw [← List.append_assoc]
    exact h'.carries n hpos (h.subscribers n hn) (h.carries n hpos hn hcarries)
  · have hfirst := h.ahead hold position
    have hlast := h'.ahead (h.holds hold) position
    rw [List.length_append]
    omega

/-- Some subscribers more come and go with the others. -/
theorem Airs.add (h : Airs k k' messages c c') (m : Nat) : Airs (k + m) (k' + m) messages c c' := by
  refine ⟨fun n hn => ?_, fun n hpos hn => h.carries (n + m) (by omega) (by omega), h.holds,
    h.ahead⟩
  have hafter := h.subscribers (n + m) (by omega)
  omega

/-- Whoever listens awaits all that is published. -/
theorem Airs.awaits (h : Airs k k' messages c c') {n : Nat} (hpos : 0 < n)
    (hn : c.subscribers = n + k) (hawaits : c.Awaits position unread) :
    c'.Awaits position (unread ++ messages) := by
  obtain ⟨read, hread, hcarries⟩ := hawaits
  have hafter := h.carries n hpos hn hcarries
  rw [List.append_assoc] at hafter
  exact ⟨read, hread, hafter⟩

end Airs

end Channel

end ReadThrough
