import ExtensionMembers.Proofs.Protocol.Stepwise

/-!
# Steps that may be missing

A loop can do without giving its enumerator up and without setting it back. So those steps should
not keep it from being lowered. They do in one case: where several extensions of one tier supply
such a step, discovery fails, although it would succeed if nothing supplied it.

## Main definitions

* `Registry.RequiredFound`: the steps that a protocol needs are all found.

## Main results

* `Registry.discover_of_required`: what the other steps decide then.
* `Registry.optional_step_fails`: a loop that has all it needs can fail.
-/

namespace ExtensionMembers

/-- The `steps` that a protocol can do without are methods. -/
theorem Protocol.category_of_optional (protocol : Protocol) :
    ∀ step ∈ protocol.steps, step.isRequired = false → step.category = .method := by
  cases protocol <;> decide

/-- A step that may be missing and is no property `Passes` unless several extensions supply it. -/
theorem ProtocolStep.passes_iff_of_optional {step : ProtocolStep} {resolution : Resolution}
    (hoptional : step.isRequired = false) (hcategory : step.category = .method) :
    step.Passes resolution ↔ ∀ candidates, resolution ≠ .ambiguous candidates := by
  have haccepts : ∀ member, step.Accepts member := by
    intro member hproperty
    rw [hcategory] at hproperty
    cases hproperty
  constructor
  · rintro hpasses candidates rfl
    cases hpasses with
    | found hmember _ => cases hmember
  · intro hunambiguous
    cases resolution with
    | declared owner member => exact .found rfl (haccepts member)
    | supplied extension member => exact .found rfl (haccepts member)
    | ambiguous candidates => exact absurd rfl (hunambiguous candidates)
    | notFound => exact .left hoptional

namespace Registry

/-- Every step that a protocol needs has one member (`answerTo`), and one that can be read if it has
to be (`Accepts`). -/
def RequiredFound (registry : Registry) (chain : ScopeChain) (protocol : Protocol)
    (subject : TypeHash) : Prop :=
  ∀ step ∈ protocol.steps, step.isRequired = true →
    ∃ member ∈ (registry.answerTo chain protocol subject step).member?, step.Accepts member

instance (registry : Registry) (chain : ScopeChain) (protocol : Protocol) (subject : TypeHash) :
    Decidable (registry.RequiredFound chain protocol subject) :=
  inferInstanceAs (Decidable (∀ step ∈ protocol.steps, _ → _))

variable {registry : Registry} {chain : ScopeChain} {protocol : Protocol} {subject : TypeHash}

/-- Where the steps that a protocol needs are found (`RequiredFound`), a step `Passes` unless it is
one that may be missing and several extensions supply it. -/
theorem RequiredFound.passes_iff (h : registry.RequiredFound chain protocol subject)
    {step : ProtocolStep} (hstep : step ∈ protocol.steps) :
    step.Passes (registry.answerTo chain protocol subject step) ↔ (step.isRequired = false →
      ∀ candidates, registry.answerTo chain protocol subject step ≠ .ambiguous candidates) := by
  cases hrequired : step.isRequired with
  | true =>
    obtain ⟨member, hmember, haccepts⟩ := h step hstep hrequired
    exact iff_of_true (.found hmember haccepts) nofun
  | false =>
    rw [ProtocolStep.passes_iff_of_optional hrequired
      (protocol.category_of_optional step hstep hrequired)]
    exact ⟨fun hunambiguous _ => hunambiguous, fun hunambiguous => hunambiguous rfl⟩

/-- Under `RequiredFound`, the `StepFault` of a step that may be missing is that several extensions
supply it. -/
theorem RequiredFound.stepFault_iff (h : registry.RequiredFound chain protocol subject)
    {span : Span} {step : ProtocolStep} (hstep : step ∈ protocol.steps) {fault : LookupFault} :
    registry.StepFault span step (registry.receiverOf chain protocol subject step)
        (registry.answerTo chain protocol subject step) fault ↔
      step.isRequired = false ∧ ∃ candidates,
        registry.answerTo chain protocol subject step = .ambiguous candidates ∧
          fault = ⟨span, .ambiguous step.name (candidates.map (·.1.name))⟩ := by
  constructor
  · intro hfault
    have hfails := hfault.not_passes
    rw [h.passes_iff hstep] at hfails
    push Not at hfails
    obtain ⟨hoptional, candidates, hambiguous⟩ := hfails
    rw [hambiguous] at hfault
    exact ⟨hoptional, candidates, hambiguous, hfault.unique (.ambiguous candidates)⟩
  · rintro ⟨_, candidates, hambiguous, rfl⟩
    rw [hambiguous]
    exact .ambiguous candidates

/-- Where every step that a protocol needs is found (`RequiredFound`), the other steps decide.
`discover` succeeds exactly if none of them is supplied by several extensions, and then it lists
those of them that are found. Otherwise it fails, and the fault is that the first such step is
ambiguous. -/
theorem discover_of_required (span : Span)
    (hrequired : registry.RequiredFound chain protocol subject) :
    ((∃ found, registry.discover protocol subject chain span = .ok found) ↔
      ∀ step ∈ protocol.steps, step.isRequired = false → ∀ candidates,
        registry.answerTo chain protocol subject step ≠ .ambiguous candidates) ∧
    (∀ found, registry.discover protocol subject chain span = .ok found →
      found.steps.map (·.step) = protocol.steps.filter fun step =>
        (registry.answerTo chain protocol subject step).isFound) ∧
    ∀ fault, registry.discover protocol subject chain span = .error fault ↔
      ∃ before step after candidates, protocol.steps = before ++ step :: after ∧
        (∀ earlier ∈ before, earlier.isRequired = false → ∀ candidates,
          registry.answerTo chain protocol subject earlier ≠ .ambiguous candidates) ∧
        step.isRequired = false ∧
        registry.answerTo chain protocol subject step = .ambiguous candidates ∧
        fault = ⟨span, .ambiguous step.name (candidates.map (·.1.name))⟩ := by
  refine ⟨?_, fun found hfound => ?_, fun fault => ?_⟩
  · constructor
    · rintro ⟨found, hfound⟩ step hstep
      exact (hrequired.passes_iff hstep).1 ((discover_eq_ok_iff.1 hfound).1 step hstep)
    · intro hunambiguous
      have hall : ∀ step ∈ protocol.steps,
          step.Passes (registry.answerTo chain protocol subject step) := fun step hstep =>
        (hrequired.passes_iff hstep).2 (hunambiguous step hstep)
      exact ⟨_, discover_eq_ok_iff.2 ⟨hall, lists_filterMap hall⟩⟩
  · obtain ⟨hall, hlists⟩ := discover_eq_ok_iff.1 hfound
    rw [hlists.unique (lists_filterMap hall)]
    exact map_step_filterMap _ _
  · rw [discover_eq_error_iff]
    constructor
    · rintro ⟨before, step, after, hsteps, hbefore, hfault⟩
      have hin : ∀ {other}, other ∈ before ++ step :: after → other ∈ protocol.steps :=
        fun hother => hsteps ▸ hother
      obtain ⟨hoptional, candidates, hambiguous, rfl⟩ :=
        (hrequired.stepFault_iff (hin (by simp))).1 hfault
      exact ⟨before, step, after, candidates, hsteps, fun earlier hearlier =>
        (hrequired.passes_iff (hin (by simp [hearlier]))).1 (hbefore earlier hearlier),
        hoptional, hambiguous, rfl⟩
    · rintro ⟨before, step, after, candidates, hsteps, hbefore, hoptional, hambiguous, rfl⟩
      have hin : ∀ {other}, other ∈ before ++ step :: after → other ∈ protocol.steps :=
        fun hother => hsteps ▸ hother
      exact ⟨before, step, after, hsteps, fun earlier hearlier =>
        (hrequired.passes_iff (hin (by simp [hearlier]))).2 (hbefore earlier hearlier),
        (hrequired.stepFault_iff (hin (by simp))).2 ⟨hoptional, candidates, hambiguous, rfl⟩⟩

/-- Where one extension lets loops give cursors up (`cursorFile`), all but one of the steps are
found. -/
theorem discover_of_required_cursor :
    let registry := (assemble [cursorFile ["CursorEnd"]] .standard).registry
    let chain := registry.chain ⟨0⟩
    let bag := (QualifiedName.global "Bag").hash
    registry.RequiredFound chain .iteration bag ∧
      ∃ found, registry.discover .iteration bag chain .unplaced = .ok found ∧
        found.steps.map (·.step) =
          Protocol.iterationSteps.filter fun step => step.name ≠ "Reset" := by
  intro registry chain bag
  have hrequired : registry.RequiredFound chain .iteration bag := by decide +kernel
  obtain ⟨hok, hlisted, _⟩ := discover_of_required .unplaced hrequired
  have hunambiguous : ∀ step ∈ Protocol.iteration.steps, step.isRequired = false →
      (registry.answerTo chain .iteration bag step).isFound = true ∨
        registry.answerTo chain .iteration bag step = .notFound := by decide +kernel
  obtain ⟨found, hfound⟩ := hok.2 fun step hstep hoptional candidates hambiguous => by
    have hanswer := hunambiguous step hstep hoptional
    rw [hambiguous] at hanswer
    simp [Resolution.isFound, Resolution.member?] at hanswer
  exact ⟨hrequired, found, hfound, (hlisted found hfound).trans (by decide +kernel)⟩

/-- Not every loop that has all it needs is found: where two extensions let loops give cursors up,
`discover` fails for a loop over the bag of `cursorFile`, and it would not if there were neither. -/
theorem optional_step_fails :
    let registry closers := (assemble [cursorFile closers] .standard).registry
    let bag := (QualifiedName.global "Bag").hash
    let discover closers :=
      (registry closers).discover .iteration bag ((registry closers).chain ⟨0⟩) .unplaced
    let both := ["CursorEnd", "CursorStop"]
    (registry both).RequiredFound ((registry both).chain ⟨0⟩) .iteration bag ∧
      discover both = .error ⟨.unplaced, .ambiguous "Dispose"
        [.global "CursorEnd", .global "CursorStop"]⟩ ∧
      (discover []).isOk = true := by
  decide +kernel

end Registry

end ExtensionMembers
