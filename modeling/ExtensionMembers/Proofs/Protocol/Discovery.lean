import ExtensionMembers.Proofs.Collection.Traversal
import ExtensionMembers.Proofs.Lookup.Priority
import ExtensionMembers.Protocol.Plan

/-!
# What discovery finds

Discovery walks the steps of a protocol in order. Where it succeeds it has found a member for each
step, in that order, except for steps that the protocol can do without; so the calls of a plan are
those of the steps found, each of them once.

## Main definitions

* `FoundFor`: steps found, one for each step of a list unless it may be missing.
* `FoundStep.form`: the call of a step on its own.
* `ProtocolPlan.forms`: the calls of a plan.

## Main results

* `Registry.discoverFrom_cons_of_found`, `Registry.discoverFrom_cons_of_left`,
  `Registry.discoverFrom_cons_of_stepFault`: what discovery does at a step.
* `foundFor_of_discover`: discovery finds the steps of its protocol.
* `ProtocolMatch.forms_plan`: the calls of a plan are those of the steps found.
-/

namespace ExtensionMembers

/-! ## One step -/

namespace ProtocolStep

/-- A property found for a step that reads one can be read (`Accessors.get`). -/
def Accepts (step : ProtocolStep) (member : Member) : Prop :=
  step.category = .property → member.category = .property → member.accessors.get = true

instance (step : ProtocolStep) (member : Member) : Decidable (step.Accepts member) :=
  inferInstanceAs (Decidable (_ → _ → _))

/-- `discoverFrom` goes on after a step with this answer. -/
inductive Passes (step : ProtocolStep) : Resolution → Prop
  /-- A member is found, and can be read if it has to be. -/
  | found {resolution : Resolution} {member : Member} :
      resolution.member? = some member → step.Accepts member → step.Passes resolution
  /-- Nothing is found, and the protocol can do without it. -/
  | left : step.isRequired = false → step.Passes .notFound

variable {step : ProtocolStep}

/-- A step that is needed `Passes` by a member. -/
theorem Passes.exists_member {resolution : Resolution} (h : step.Passes resolution)
    (hrequired : step.isRequired = true) :
    ∃ member, resolution.member? = some member ∧ step.Accepts member := by
  cases h with
  | found hmember haccepts => exact ⟨_, hmember, haccepts⟩
  | left hoptional =>
    rw [hrequired] at hoptional
    cases hoptional

/-- A member that a step `Passes` by can be read if it has to be (`Accepts`). -/
theorem Passes.accepts {resolution : Resolution} {member : Member} (h : step.Passes resolution)
    (hmember : resolution.member? = some member) : step.Accepts member := by
  cases h with
  | found hother haccepts =>
    obtain rfl := Option.some.inj (hmember.symm.trans hother)
    exact haccepts
  | left => cases hmember

/-- `Accepts` fails by the test that `discoverFrom` makes on a member found. -/
theorem not_accepts_iff {member : Member} :
    ¬ step.Accepts member ↔
      (step.category = .property && member.category = .property && !member.accessors.get) =
        true := by
  simp [Accepts, and_assoc]

end ProtocolStep

namespace Registry

/-- The fault of a step that is looked up in `receiver` and does not pass with this answer. -/
inductive StepFault (registry : Registry) (span : Span) (step : ProtocolStep)
    (receiver : TypeHash) : Resolution → LookupFault → Prop
  /-- A step that is needed is not found. -/
  | missing : step.isRequired = true →
      StepFault registry span step receiver .notFound
        ⟨span, .notFound ((registry.typeName? receiver).getD (.global receiver.text)) step.name
          step.arity⟩
  /-- Several extensions supply the step. -/
  | ambiguous (candidates : List (Extension × Member)) :
      StepFault registry span step receiver (.ambiguous candidates)
        ⟨span, .ambiguous step.name (candidates.map (·.1.name))⟩
  /-- A property is found that cannot be read. -/
  | unreadable {resolution : Resolution} {member : Member} :
      resolution.member? = some member → ¬ step.Accepts member →
      StepFault registry span step receiver resolution ⟨span, .accessorMissing member.name .get⟩

section Step

variable {registry : Registry} {chain : ScopeChain} {span : Span} {step : ProtocolStep}
  {receiver : TypeHash} {resolution : Resolution}

/-- A step `Passes` or has a `StepFault`. -/
theorem passes_or_stepFault (registry : Registry) (span : Span) (step : ProtocolStep)
    (receiver : TypeHash) (resolution : Resolution) :
    step.Passes resolution ∨ ∃ fault, registry.StepFault span step receiver resolution fault := by
  cases hmember : resolution.member? with
  | some member =>
    by_cases haccepts : step.Accepts member
    · exact .inl (.found hmember haccepts)
    · exact .inr ⟨_, .unreadable hmember haccepts⟩
  | none =>
    cases resolution with
    | declared owner member => cases hmember
    | supplied extension member => cases hmember
    | ambiguous candidates => exact .inr ⟨_, .ambiguous candidates⟩
    | notFound =>
      cases hrequired : step.isRequired with
      | true => exact .inr ⟨_, .missing hrequired⟩
      | false => exact .inl (.left hrequired)

/-- A step with a `StepFault` does not pass. -/
theorem StepFault.not_passes {fault : LookupFault}
    (h : registry.StepFault span step receiver resolution fault) : ¬ step.Passes resolution := by
  intro hpasses
  cases h with
  | missing hrequired =>
    obtain ⟨member, hmember, _⟩ := hpasses.exists_member hrequired
    cases hmember
  | ambiguous candidates =>
    cases hpasses with
    | found hmember _ => cases hmember
  | unreadable hmember hunreadable => exact hunreadable (hpasses.accepts hmember)

/-- A step has one `StepFault`. -/
theorem StepFault.unique {fault other : LookupFault}
    (h : registry.StepFault span step receiver resolution fault)
    (hother : registry.StepFault span step receiver resolution other) : fault = other := by
  cases h with
  | missing =>
    cases hother with
    | missing => rfl
    | unreadable hmember => cases hmember
  | ambiguous =>
    cases hother with
    | ambiguous => rfl
    | unreadable hmember => cases hmember
  | unreadable hmember =>
    cases hother with
    | missing => cases hmember
    | ambiguous => cases hmember
    | unreadable hmember' => rw [Option.some.inj (hmember.symm.trans hmember')]

variable {types : SlotTypes} {rest : List ProtocolStep}

/-- `discoverFrom` after a step that is found: it goes on with what is known of its result
(`slotTypesAfter`). -/
theorem discoverFrom_cons_of_found {member : Member}
    (hmember : (registry.resolve (step.query (slotType types step.slot)) chain).member? =
      some member) (haccepts : step.Accepts member) :
    registry.discoverFrom chain span types (step :: rest) =
      (registry.discoverFrom chain span (slotTypesAfter types step member) rest).map
        (⟨step, slotType types step.slot,
          registry.resolve (step.query (slotType types step.slot)) chain⟩ :: ·) := by
  have htest : ¬ (step.category = .property && member.category = .property &&
      !member.accessors.get) = true := fun htest =>
    ProtocolStep.not_accepts_iff.2 htest haccepts
  rw [discoverFrom]
  simp only [hmember, if_neg htest]
  cases registry.discoverFrom chain span (slotTypesAfter types step member) rest <;> rfl

/-- `discoverFrom` after a step that is left out: it goes on with what it knows. -/
theorem discoverFrom_cons_of_left
    (hanswer : registry.resolve (step.query (slotType types step.slot)) chain = .notFound)
    (hoptional : step.isRequired = false) :
    registry.discoverFrom chain span types (step :: rest) =
      registry.discoverFrom chain span types rest := by
  rw [discoverFrom]
  simp [hanswer, Resolution.member?, hoptional]

/-- `discoverFrom` stops at a step with a `StepFault`. -/
theorem discoverFrom_cons_of_stepFault {fault : LookupFault}
    (h : registry.StepFault span step (slotType types step.slot)
      (registry.resolve (step.query (slotType types step.slot)) chain) fault) :
    registry.discoverFrom chain span types (step :: rest) = .error fault := by
  rw [discoverFrom]
  generalize registry.resolve (step.query (slotType types step.slot)) chain = resolution at h ⊢
  cases h with
  | missing hrequired =>
    simp [Resolution.member?, hrequired, lookupFault?, ProtocolStep.query]
  | ambiguous candidates => simp [Resolution.member?, lookupFault?, ProtocolStep.query]
  | unreadable hmember hunreadable =>
    simp only [hmember, if_pos (ProtocolStep.not_accepts_iff.1 hunreadable)]

end Step

end Registry

/-! ## Steps found -/

/-- The `FoundStep`s for a list of steps, in the same order: each with the member that its look-up
resolves to, and none for some of the steps that may be missing. -/
inductive FoundFor (registry : Registry) (chain : ScopeChain) :
    List ProtocolStep → List FoundStep → Prop
  | nil : FoundFor registry chain [] []
  | found {step : ProtocolStep} {receiver : TypeHash} {rest : List ProtocolStep}
      {found : List FoundStep} :
      (registry.resolve (step.query receiver) chain).isFound = true →
      FoundFor registry chain rest found →
      FoundFor registry chain (step :: rest)
        (⟨step, receiver, registry.resolve (step.query receiver) chain⟩ :: found)
  | skipped {step : ProtocolStep} {rest : List ProtocolStep} {found : List FoundStep} :
      step.isRequired = false → FoundFor registry chain rest found →
      FoundFor registry chain (step :: rest) found

namespace Registry

variable {registry : Registry} {chain : ScopeChain}

/-- Whatever types are known at the start, `discoverFrom` finds the steps it is given
(`FoundFor`). -/
theorem foundFor_of_discoverFrom {span : Span} {types : SlotTypes} {steps : List ProtocolStep}
    {found : List FoundStep} (h : registry.discoverFrom chain span types steps = .ok found) :
    FoundFor registry chain steps found := by
  induction steps generalizing types found with
  | nil =>
    obtain rfl := Except.ok.inj h
    exact .nil
  | cons step rest ih =>
    rcases registry.passes_or_stepFault span step (slotType types step.slot)
      (registry.resolve (step.query (slotType types step.slot)) chain) with
      hpasses | ⟨fault, hfault⟩
    · generalize hanswer : registry.resolve (step.query (slotType types step.slot)) chain =
        resolution at hpasses
      cases hpasses with
      | found hmember haccepts =>
        rw [← hanswer] at hmember
        rw [discoverFrom_cons_of_found hmember haccepts] at h
        obtain ⟨after, hafter, rfl⟩ := map_eq_ok_iff.1 h
        exact .found (by rw [Resolution.isFound, hmember]; rfl) (ih hafter)
      | left hoptional =>
        rw [discoverFrom_cons_of_left hanswer hoptional] at h
        exact .skipped hoptional (ih h)
    · rw [discoverFrom_cons_of_stepFault hfault] at h
      cases h

/-- `discover` finds the steps of its protocol (`FoundFor`). -/
theorem foundFor_of_discover {protocol : Protocol} {subject : TypeHash} {span : Span}
    {found : ProtocolMatch} (h : registry.discover protocol subject chain span = .ok found) :
    FoundFor registry chain protocol.steps found.steps := by
  obtain ⟨steps, hsteps, hfound⟩ := bind_eq_ok_iff.1 h
  obtain rfl := Except.ok.inj hfound
  exact foundFor_of_discoverFrom hsteps

end Registry

/-- Every step of `FoundFor` has the answer of its own query. -/
theorem FoundFor.resolution_eq {registry : Registry} {chain : ScopeChain}
    {steps : List ProtocolStep} {found : List FoundStep}
    (h : FoundFor registry chain steps found) :
    ∀ step ∈ found,
      step.resolution = registry.resolve (step.step.query step.receiver) chain := by
  induction h with
  | nil => simp
  | found _ _ ih =>
    intro step hstep
    rcases List.mem_cons.1 hstep with rfl | hstep
    · rfl
    · exact ih step hstep
  | skipped _ _ ih => exact ih

/-! ## The calls of a plan -/

/-- The calls of a `ProtocolPlan`, in the order of the steps. -/
def ProtocolPlan.forms : ProtocolPlan → List CallForm
  | iteration plan =>
    [plan.getEnumerator, plan.moveNext, plan.current] ++ plan.dispose.toList ++ plan.reset.toList
  | await plan => [plan.getAwaiter, plan.isCompleted, plan.getResult, plan.onCompleted]
  | addElements adds => adds
  | error => []

/-- What a protocol passes for the arguments of a step: what runs when the wait is over,
`ProtocolSlot.continuation`. -/
def ProtocolStep.supplied (step : ProtocolStep) : List Operand :=
  List.replicate step.arity (.slot .continuation)

/-- The value that a step is used on, its `slot`. -/
def ProtocolStep.receiver (step : ProtocolStep) (subject : TempId) : Operand :=
  if step.slot = .subject then .temp subject else .slot step.slot

/-- The call of a step (`CallForm.ofResolution`), where the subject is in a temporary. -/
def FoundStep.form (found : FoundStep) (subject : TempId) : CallForm :=
  .ofResolution found.step.kind (some (found.step.receiver subject)) found.step.supplied
    found.resolution

/-- `FoundFor` has a step that is needed. -/
theorem FoundFor.exists_found {registry : Registry} {chain : ScopeChain} {step : ProtocolStep}
    {rest : List ProtocolStep} {found : List FoundStep}
    (h : FoundFor registry chain (step :: rest) found) (hrequired : step.isRequired = true) :
    ∃ receiver resolution after, found = ⟨step, receiver, resolution⟩ :: after ∧
      FoundFor registry chain rest after := by
  cases h with
  | found _ hrest => exact ⟨_, _, _, rfl, hrest⟩
  | skipped hoptional _ =>
    rw [hrequired] at hoptional
    cases hoptional

/-- The `forms` of a plan are those of the steps found (`FoundStep.form`). -/
theorem ProtocolMatch.forms_plan {registry : Registry} {chain : ScopeChain} {found : ProtocolMatch}
    {protocol : Protocol} (h : FoundFor registry chain protocol.steps found.steps)
    (subject : TempId) :
    (found.plan protocol subject).forms = found.steps.map (·.form subject) := by
  obtain ⟨origin, steps⟩ := found
  cases protocol with
  | iteration =>
    obtain ⟨_, _, _, rfl, hmove⟩ := h.exists_found rfl
    obtain ⟨_, _, _, rfl, hcurrent⟩ := hmove.exists_found rfl
    obtain ⟨_, _, _, rfl, hdispose⟩ := hcurrent.exists_found rfl
    -- The enumerator need be neither given up nor set back.
    cases hdispose with
    | found _ hreset =>
      cases hreset with
      | found _ hrest => cases hrest; rfl
      | skipped _ hrest => cases hrest; rfl
    | skipped _ hreset =>
      cases hreset with
      | found _ hrest => cases hrest; rfl
      | skipped _ hrest => cases hrest; rfl
  | await =>
    obtain ⟨_, _, _, rfl, hcompleted⟩ := h.exists_found rfl
    obtain ⟨_, _, _, rfl, hresult⟩ := hcompleted.exists_found rfl
    obtain ⟨_, _, _, rfl, hcontinue⟩ := hresult.exists_found rfl
    obtain ⟨_, _, _, rfl, hrest⟩ := hcontinue.exists_found rfl
    cases hrest
    rfl

end ExtensionMembers
