import ReadThrough.Proofs.Load.Lockstep
/-!
# Proofs: caches that differ in their outputs

The outputs of an environment are its channels and its trace. Subscribers can change them, and
nothing else. Whatever holds between two outputs, and is kept when the same happens to both of them
(`Outputs.Kept`), relates environments that go in lockstep (`Outputs.Kept.lockstep`): a load is the
same with both outputs, but for the outputs.
-/

namespace ReadThrough

variable {P A V E : Type}

/-! ## Outputs -/

/-- What an environment gives out, which is all that subscribers can change of it. -/
structure Outputs (P A V E : Type) where
  updates : Channel (P × Delivery V)
  errors : Channel (P × Failure E)
  trace : List (Event P A V E)

namespace Outputs

def note (v : Outputs P A V E) (event : Event P A V E) : Outputs P A V E :=
  { v with trace := v.trace ++ [event] }

def publishUpdate (v : Outputs P A V E) (params : P) (delivery : Delivery V) : Outputs P A V E :=
  let (heard, updates) := v.updates.publish (params, delivery)
  let v := { v with updates }.note (.updatePublished params delivery)
  if heard then v else v.note .updateUnheard

def publishFailure (v : Outputs P A V E) (params : P) (failure : Failure E) : Outputs P A V E :=
  let (heard, errors) := v.errors.publish (params, failure)
  let v := { v with errors }.note (.failurePublished params failure)
  if heard then v else v.note .failureUnheard

/-- A relation that is kept when the same is told in both traces. -/
structure Noting (R : Outputs P A V E → Outputs P A V E → Prop) : Prop where
  note : ∀ {v v'} (event : Event P A V E), event.publishes = false → R v v' →
    R (v.note event) (v'.note event)

/-- A relation that is kept when the same happens to both outputs. -/
structure Kept (R : Outputs P A V E → Outputs P A V E → Prop) : Prop extends Noting R where
  publishUpdate : ∀ {v v'} (params : P) (delivery : Delivery V), R v v' →
    R (v.publishUpdate params delivery) (v'.publishUpdate params delivery)
  publishFailure : ∀ {v v'} (params : P) (failure : Failure E), R v v' →
    R (v.publishFailure params failure) (v'.publishFailure params failure)

/-- A fact that does not change may be kept besides. -/
theorem Kept.const {R : Outputs P A V E → Outputs P A V E → Prop} (h : Kept R) (fact : Prop) :
    Kept fun v v' => fact ∧ R v v' where
  note event hevent := fun ⟨hfact, hv⟩ => ⟨hfact, h.note event hevent hv⟩
  publishUpdate params delivery := fun ⟨hfact, hv⟩ => ⟨hfact, h.publishUpdate params delivery hv⟩
  publishFailure params failure := fun ⟨hfact, hv⟩ => ⟨hfact, h.publishFailure params failure hv⟩

end Outputs

/-! ## Environments -/

namespace Environment

def outputs (env : Environment P A V E) : Outputs P A V E := ⟨env.updates, env.errors, env.trace⟩

/-- The environment with other outputs. -/
def withOutputs (env : Environment P A V E) (v : Outputs P A V E) : Environment P A V E :=
  { env with updates := v.updates, errors := v.errors, trace := v.trace }

/-- Two environments differ in their outputs at most, which are related. -/
def Alike (R : Outputs P A V E → Outputs P A V E → Prop) (env env' : Environment P A V E) : Prop :=
  ∃ v, env' = env.withOutputs v ∧ R env.outputs v

variable {R : Outputs P A V E → Outputs P A V E → Prop} {env env' : Environment P A V E}

/-- To publish a result is something that is done to the outputs. -/
theorem outputs_publishUpdate (env : Environment P A V E) (params : P) (delivery : Delivery V) :
    (env.publishUpdate params delivery).outputs = env.outputs.publishUpdate params delivery := by
  unfold publishUpdate Outputs.publishUpdate outputs
  dsimp only
  split <;> rfl

/-- To publish a failure is something that is done to the outputs. -/
theorem outputs_publishFailure (env : Environment P A V E) (params : P) (failure : Failure E) :
    (env.publishFailure params failure).outputs = env.outputs.publishFailure params failure := by
  unfold publishFailure Outputs.publishFailure outputs
  dsimp only
  split <;> rfl

/-- To publish a result looks at the outputs alone. -/
theorem publishUpdate_withOutputs (env : Environment P A V E) (v : Outputs P A V E) (params : P)
    (delivery : Delivery V) :
    (env.withOutputs v).publishUpdate params delivery =
      (env.publishUpdate params delivery).withOutputs (v.publishUpdate params delivery) := by
  unfold publishUpdate Outputs.publishUpdate withOutputs
  dsimp only
  split <;> split <;> rfl

/-- To publish a failure looks at the outputs alone. -/
theorem publishFailure_withOutputs (env : Environment P A V E) (v : Outputs P A V E) (params : P)
    (failure : Failure E) :
    (env.withOutputs v).publishFailure params failure =
      (env.publishFailure params failure).withOutputs (v.publishFailure params failure) := by
  unfold publishFailure Outputs.publishFailure withOutputs
  dsimp only
  split <;> split <;> rfl

namespace Alike

theorem outputs (h : Alike R env env') : R env.outputs env'.outputs := by
  obtain ⟨v, rfl, hv⟩ := h
  exact hv

/-- What holds between the outputs besides. -/
theorem of_outputs {R' : Outputs P A V E → Outputs P A V E → Prop} (h : Alike R env env')
    (hR' : R' env.outputs env'.outputs) : Alike R' env env' := by
  obtain ⟨v, rfl, -⟩ := h
  exact ⟨v, rfl, hR'⟩

theorem mono {R' : Outputs P A V E → Outputs P A V E → Prop} (h : Alike R env env')
    (hR : ∀ {v v'}, R v v' → R' v v') : Alike R' env env' :=
  h.of_outputs (hR h.outputs)

end Alike

end Environment

section Lockstep

variable [DecidableEq P] [DecidableEq A] {R : Outputs P A V E → Outputs P A V E → Prop}

omit [DecidableEq P] [DecidableEq A] in
/-- To note an event keeps what is kept by notes. -/
theorem Outputs.Noting.note_alike (hR : Outputs.Noting R) {env env' : Environment P A V E}
    (event : Event P A V E) (hevent : event.publishes = false) (h : Environment.Alike R env env') :
    Environment.Alike R (env.note event) (env'.note event) := by
  obtain ⟨v, rfl, hv⟩ := h
  exact ⟨v.note event, rfl, hR.note event hevent hv⟩

/-- Nothing depends on the outputs: environments that differ in them alone are in step. -/
theorem Outputs.Noting.quiet (hR : Outputs.Noting R) : Environment.Quiet (Environment.Alike R) where
  gates := by
    rintro env _ ⟨v, rfl, -⟩
    rfl
  called := by
    rintro env _ ⟨v, rfl, -⟩
    rfl
  readable := by
    rintro env _ ⟨v, rfl, -⟩
    rfl
  writable := by
    rintro env _ ⟨v, rfl, -⟩
    rfl
  refusal := by
    rintro env _ ⟨v, rfl, -⟩
    rfl
  note := hR.note_alike
  advance := by
    rintro env _ d ⟨v, rfl, hv⟩
    exact ⟨v, rfl, hv⟩
  cancel := by
    rintro env _ ⟨v, rfl, hv⟩
    exact ⟨v, rfl, hv⟩
  judge := by
    rintro env _ ⟨v, rfl, hv⟩
    exact ⟨v, rfl, hv⟩
  callSource := by
    rintro env _ key ⟨v, rfl, hv⟩
    exact ⟨rfl, _, rfl, hR.note _ rfl hv⟩
  readClock := by
    rintro env _ ⟨v, rfl, hv⟩
    exact ⟨rfl, _, rfl, hR.note _ rfl hv⟩
  writeStore := by
    rintro env _ key entry ⟨v, rfl, hv⟩
    exact Environment.related_writeStore hR.note_alike rfl ⟨v, rfl, hv⟩
  clearStore := by
    rintro env _ ⟨v, rfl, hv⟩
    exact ⟨_, rfl, hR.note .cleared rfl hv⟩

/-- If the relation is kept by publications, too, work goes in lockstep. -/
theorem Outputs.Kept.working (hR : Outputs.Kept R) : Environment.Working (Environment.Alike R) where
  toQuiet := hR.toNoting.quiet
  publishUpdate := by
    rintro env _ params delivery ⟨v, rfl, hv⟩
    refine ⟨_, env.publishUpdate_withOutputs v params delivery, ?_⟩
    rw [Environment.outputs_publishUpdate]
    exact hR.publishUpdate params delivery hv
  publishFailure := by
    rintro env _ params failure ⟨v, rfl, hv⟩
    refine ⟨_, env.publishFailure_withOutputs v params failure, ?_⟩
    rw [Environment.outputs_publishFailure]
    exact hR.publishFailure params failure hv

/-- Nothing is found by the outputs, so that lookups go in lockstep as well. -/
theorem Outputs.Kept.lockstep (hR : Outputs.Kept R) :
    Environment.Lockstep (Environment.Alike R) where
  toWorking := hR.working
  readStore := by
    rintro env _ key ⟨v, rfl, hv⟩
    exact ⟨rfl, _, rfl, hR.note _ rfl hv⟩

end Lockstep

/-- Two caches have the same executions, and environments that differ in their outputs at
most. -/
abbrev Cache.Alike (R : Outputs P A V E → Outputs P A V E → Prop) (c c' : Cache P A V E) : Prop :=
  Cache.InStep (Environment.Alike R) c c'

end ReadThrough
