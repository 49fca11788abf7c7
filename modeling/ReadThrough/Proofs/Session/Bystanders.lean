import ReadThrough.Proofs.Channel.Comparison
import ReadThrough.Proofs.Session.Sharing
/-!
# Proofs: subscribers stand aside

Whatever is done with subscriptions alone, it leaves the messages of the channels and everything
else as it was (`Session.Aside`): subscribers come and go, and are told how much they missed.
-/

namespace ReadThrough

variable {P A V E : Type}

/-- Whether an event says that a subscriber missed something. -/
def Event.isLag : Event P A V E → Bool
  | .lagged _ _ => true
  | _ => false

/-- A request to subscribe. -/
def Request.Subscribes (request : Request P A V) : Prop := ∃ topic : Topic, request = topic.request

/-! ## Channels -/

namespace Topic

variable {topic told : Topic}

/-- An event that is noted is sent on no channel. -/
theorem channel_note (topic : Topic) (v : Outputs P A V E) (event : Event P A V E) :
    topic.channel (v.note event) = topic.channel v := by cases topic <;> rfl

/-- Whoever leaves a channel leaves the messages of both. -/
theorem rests_part (topic told : Topic) (v : Outputs P A V E) :
    (topic.channel v).Rests (topic.channel (told.part v)) := by
  cases topic <;> cases told
  · exact Channel.rests_unsubscribe _
  · exact .refl _
  · exact .refl _
  · exact Channel.rests_unsubscribe _

/-- A subscriber comes. -/
def enter (topic : Topic) (c : Cache P A V E) : Cache P A V E :=
  match topic with
  | .updates => { c with env.updates := c.env.updates.subscribe.2 }
  | .errors => { c with env.errors := c.env.errors.subscribe.2 }

/-- Whoever subscribes to a channel is one subscriber more there. -/
theorem channel_enter (told : Topic) (c : Cache P A V E) (topic : Topic) :
    topic.channel (told.enter c).env.outputs =
      if topic = told then (topic.channel c.env.outputs).subscribe.2
      else topic.channel c.env.outputs := by cases topic <;> cases told <;> rfl

/-- Whoever subscribes to a channel leaves the messages of both. -/
theorem rests_enter (topic told : Topic) (c : Cache P A V E) :
    (topic.channel c.env.outputs).Rests (topic.channel (told.enter c).env.outputs) := by
  rw [told.channel_enter]
  split
  · exact Channel.rests_subscribe _
  · exact .refl _

end Topic

/-- Subscribers come and go, and are told how much they missed. -/
structure Outputs.Aside (v w : Outputs P A V E) : Prop where
  rests : ∀ topic : Topic, (topic.channel v).Rests (topic.channel w)
  told : ∃ lags, w.trace = v.trace ++ lags ∧ ∀ event ∈ lags, event.isLag = true

/-- Nothing at all is only subscribers coming and going. -/
theorem Outputs.Aside.refl (v : Outputs P A V E) : v.Aside v :=
  ⟨fun _ => .refl _, [], (List.append_nil _).symm, nofun⟩

/-- What is done to subscribers alone in two parts is done to subscribers alone. -/
theorem Outputs.Aside.trans {u v w : Outputs P A V E} (h : u.Aside v) (h' : v.Aside w) :
    u.Aside w := by
  obtain ⟨hrests, lags, htrace, hlags⟩ := h
  obtain ⟨hrests', lags', htrace', hlags'⟩ := h'
  refine ⟨fun topic => (hrests topic).trans (hrests' topic), lags ++ lags', ?_, ?_⟩
  · rw [htrace', htrace, List.append_assoc]
  · exact fun event hevent => (List.mem_append.mp hevent).elim (hlags event) (hlags' event)

namespace Cache

variable {c c' d : Cache P A V E}

/-- Nothing happens to a cache, but for subscribers that come, go and are told that they missed
something. -/
abbrev Aside (c d : Cache P A V E) : Prop := Alike Outputs.Aside c d

/-- Nothing at all leaves a cache alone. -/
theorem Aside.refl (c : Cache P A V E) : c.Aside c := ⟨⟨c.env.outputs, rfl, .refl _⟩, rfl⟩

/-- What leaves the cache alone in two parts leaves it alone. -/
theorem Aside.trans (h : c.Aside c') (h' : c'.Aside d) : c.Aside d := by
  obtain ⟨⟨v, henv, hv⟩, hflights⟩ := h
  obtain ⟨⟨w, henv', hw⟩, hflights'⟩ := h'
  rw [henv] at henv' hw
  exact ⟨⟨w, henv', hv.trans hw⟩, hflights'.trans hflights⟩

/-- A subscriber that comes leaves the rest of the cache alone. -/
theorem aside_enter (topic : Topic) (c : Cache P A V E) : c.Aside (topic.enter c) := by
  refine
    ⟨⟨(topic.enter c).env.outputs, ?_, fun told => told.rests_enter topic c, [], ?_, nofun⟩, ?_⟩
  · cases topic <;> rfl
  · cases topic <;> exact (List.append_nil _).symm
  · cases topic <;> rfl

/-- A subscriber that leaves leaves the rest of the cache alone. -/
theorem aside_leave (topic : Topic) (c : Cache P A V E) : c.Aside (topic.leave c) := by
  refine ⟨⟨topic.part c.env.outputs, ?_, fun told => told.rests_part topic _, [], ?_, nofun⟩, ?_⟩
  · cases topic <;> rfl
  · cases topic <;> exact (List.append_nil _).symm
  · cases topic <;> rfl

/-- To be told what was missed leaves the rest of the cache alone. -/
theorem aside_noteMissed (c : Cache P A V E) (channel : String) (missed : Nat) :
    c.Aside (c.noteMissed channel missed) := by
  unfold noteMissed
  split
  · exact .refl c
  · refine ⟨⟨c.env.outputs.note (.lagged channel missed), rfl, fun topic => ?_, _, rfl, ?_⟩, rfl⟩
    · rw [topic.channel_note]
      exact .refl _
    · exact List.forall_mem_singleton.mpr rfl

end Cache

/-! ## Tasks -/

namespace Task

variable {task : Task P A V E}

/-- A task that does not need the cache is a subscription, or has ended. -/
theorem subscription_or_ended (h : task.needsCache = false) :
    (∃ (topic : Topic) (position : Nat), task = topic.task position) ∨ task = .ended := by
  cases task with
  | call | fetch | watch => cases h
  | updates position => exact .inl ⟨.updates, position, rfl⟩
  | errors position => exact .inl ⟨.errors, position, rfl⟩
  | ended => exact .inr rfl

/-- A new subscription does nothing to a cache besides subscribing. -/
theorem create_subscription {request : Request P A V} (h : request.Subscribes)
    (c : Cache P A V E) :
    (create c request).1.needsCache = false ∧ c.Aside (create c request).2 := by
  obtain ⟨topic, rfl⟩ := h
  have haside := c.aside_enter topic
  cases topic <;> exact ⟨rfl, haside⟩

variable [DecidableEq P] [DecidableEq A]

/-- A subscription that is dropped does nothing to a cache besides leaving. -/
theorem aside_drop (h : task.needsCache = false) (c : Cache P A V E) : c.Aside (task.drop c) := by
  rcases subscription_or_ended h with ⟨topic, position, rfl⟩ | rfl
  · have haside := c.aside_leave topic
    cases topic <;> exact haside
  · exact .refl c

variable [DecidableEq V]

/-- A subscription that is polled does nothing to a cache, but that it may leave and be told what it
missed. -/
theorem aside_poll (h : task.needsCache = false) (c : Cache P A V E) :
    c.Aside (task.poll c).2.2 := by
  rcases subscription_or_ended h with ⟨topic, position, rfl⟩ | rfl
  · rw [poll_task]
    rcases (topic.channel c.env.outputs).receive (fun _ => true) position with ⟨missed, received⟩
    have haside := c.aside_noteMissed topic.name missed
    cases received with
    | message item position => exact haside
    | nothing position => exact haside
    | ended => exact haside.trans (Cache.aside_leave topic _)
  · exact .refl c

end Task

/-! ## Sessions -/

namespace Session

/-- Whether a step begins, polls or drops a subscription that is hidden. Subscriptions without a
name are hidden together. -/
def Step.isOf (hidden : Option String → Bool) : Step P A V → Bool
  | .begin id _ | .poll id | .drain id | .drop id => hidden (some id)
  | .run .updates | .run .errors => hidden none
  | _ => false

/-- The hidden names are those of subscriptions. -/
def Screened (hidden : String → Bool) (s : Session P A V E) : Prop :=
  ∀ id task, hidden id = true → s.tasks.get? id = some task → task.needsCache = false

/-- Nothing happens but to subscriptions with hidden names. -/
structure Aside (hidden : String → Bool) (s t : Session P A V E) : Prop where
  cache : s.cache.Aside t.cache
  closed : t.closed = s.closed
  tasks : ∀ id, hidden id = false → t.tasks.get? id = s.tasks.get? id
  screened : t.Screened hidden

variable {hidden : String → Bool} {s t u : Session P A V E} {id : String}

/-- Where nothing happens, nothing happens but to hidden subscriptions. -/
theorem Screened.aside (h : s.Screened hidden) : s.Aside hidden s :=
  ⟨.refl _, rfl, fun _ _ => rfl, h⟩

/-- A task with a hidden name is replaced, or another one is gone. -/
theorem Aside.replace (h : s.Screened hidden) (hcache : s.cache.Aside t.cache)
    (hclosed : t.closed = s.closed) (hhidden : hidden id = true)
    (hself : ∀ task, t.tasks.get? id = some task → task.needsCache = false)
    (hothers : ∀ id', id' ≠ id → t.tasks.get? id' = s.tasks.get? id') : s.Aside hidden t := by
  refine ⟨hcache, hclosed, fun id' hid' => ?_, fun id' task hid' hget => ?_⟩
  · refine hothers id' fun heq => ?_
    rw [heq, hhidden] at hid'
    cases hid'
  · by_cases hsame : id' = id
    · subst hsame
      exact hself task hget
    · rw [hothers id' hsame] at hget
      exact h id' task hid' hget

/-- What happens in two parts to hidden subscriptions alone happens to them alone. -/
theorem Aside.trans (h : s.Aside hidden t) (h' : t.Aside hidden u) : s.Aside hidden u where
  cache := h.cache.trans h'.cache
  closed := h'.closed.trans h.closed
  tasks id hid := (h'.tasks id hid).trans (h.tasks id hid)
  screened := h'.screened

namespace Screened

variable [DecidableEq P] [DecidableEq A]

/-- To drop a hidden subscription does nothing to the others. -/
theorem dropTask (h : s.Screened hidden) (hhidden : hidden id = true) :
    s.Aside hidden (s.dropTask id) := by
  refine .replace h ?_ (closed_dropTask s id) hhidden (fun task hget => ?_) fun id' hne => ?_
  · rw [cache_dropTask]
    cases hget : s.tasks.get? id with
    | none => exact .refl _
    | some task => exact Task.aside_drop (h id task hhidden hget) s.cache
  · rw [tasks_dropTask, if_pos rfl] at hget
    cases hget
  · rw [tasks_dropTask, if_neg hne]

/-- To begin a hidden subscription does nothing to the others. -/
theorem beginTask (h : s.Screened hidden) (hhidden : hidden id = true) {request : Request P A V}
    (hrequest : request.Subscribes) : s.Aside hidden (s.beginTask id request) := by
  obtain ⟨hneeds, hcreates⟩ := Task.create_subscription hrequest s.cache
  let created : Session P A V E := { s with cache := (Task.create s.cache request).2 }
  have hcreated : s.Aside hidden created := ⟨hcreates, rfl, fun _ _ => rfl, h⟩
  have hdropped := hcreated.trans (hcreated.screened.dropTask hhidden)
  refine hdropped.trans (.replace hdropped.screened (.refl _) rfl hhidden (fun task hget => ?_) ?_)
  · obtain rfl := Option.some.inj ((Table.get?_insert_self _ _ _).symm.trans hget)
    exact hneeds
  · exact fun id' hne => Table.get?_insert_of_ne _ _ hne

variable [DecidableEq V]

/-- To poll a hidden subscription does nothing to the others. -/
theorem pollTask (h : s.Screened hidden) (hhidden : hidden id = true) :
    s.Aside hidden (s.pollTask id).2 := by
  unfold Session.pollTask
  cases hget : s.tasks.get? id with
  | none => exact h.aside
  | some task =>
    have hneeds := h id task hhidden hget
    refine .replace h (Task.aside_poll hneeds s.cache) rfl hhidden (fun task' hget' => ?_) ?_
    · obtain rfl := Option.some.inj ((Table.get?_insert_self _ _ _).symm.trans hget')
      exact needsCache_poll hneeds s.cache
    · exact fun id' hne => Table.get?_insert_of_ne _ _ hne

/-- To drain a hidden subscription does nothing to the others. -/
theorem drainTask (h : s.Screened hidden) (hhidden : hidden id = true) :
    s.Aside hidden (s.drainTask id).2 :=
  drain_keeps (K := s.Aside hidden) (fun _ ht => ht.trans (ht.screened.pollTask hhidden))
    (s.patience [id]) h.aside

/-- A subscription without a name that is run at once does nothing to the others. -/
theorem runTask (h : s.Screened hidden) {request : Request P A V}
    (hrequest : request.Subscribes) : s.Aside hidden (s.runTask request).2 := by
  let Kept (x : Task P A V E × Cache P A V E) : Prop :=
    x.1.needsCache = false ∧ s.cache.Aside x.2
  have hstart : Kept (Task.create s.cache request) := Task.create_subscription hrequest s.cache
  obtain ⟨hneeds, haside⟩ := drain_keeps (K := Kept)
    (fun x hx => ⟨needsCache_poll hx.1 x.2, hx.2.trans (Task.aside_poll hx.1 x.2)⟩)
    ((Task.create s.cache request).1.patience (Task.create s.cache request).2) hstart
  exact ⟨haside.trans (Task.aside_drop hneeds _), rfl, fun _ _ => rfl, h⟩

/-- A step of hidden subscriptions does nothing but to them. -/
theorem step {hidden : Option String → Bool} (h : s.Screened (hidden ∘ some)) {st : Step P A V}
    (hof : st.isOf hidden = true)
    (hsubscribes : ∀ id request, st = .begin id request → request.Subscribes) :
    s.fresh.Aside (hidden ∘ some) (s.step st).2 := by
  have hfresh : s.fresh.Screened (hidden ∘ some) := h
  rw [step_snd]
  split
  · exact hfresh.aside
  · cases st with
    | begin id request => exact hfresh.beginTask hof (hsubscribes id request rfl)
    | poll id => exact hfresh.pollTask hof
    | drain id => exact hfresh.drainTask hof
    | drop id => exact hfresh.dropTask hof
    | run request =>
      cases request with
      | updates => exact hfresh.runTask ⟨.updates, rfl⟩
      | errors => exact hfresh.runTask ⟨.errors, rfl⟩
      | stream | fetch | watch => cases hof
    | join | openGate | closeGate | advance | setTime | clear | put | ask | overview | close =>
      cases hof

end Screened

end Session

end ReadThrough
