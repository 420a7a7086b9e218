import ExtensionMembers.Proofs.Build.Slots
import ExtensionMembers.Proofs.Call.Slots
import ExtensionMembers.Protocol.Plan

/-!
# Positions are in range

Protocol uses can be lowered by positions like uses of one member: their steps are resolved by
positions, and the arguments of an element have their temporaries looked up in the prelude of the
whole construct. With this, whatever reads or writes a list by position has a form that fails if the
position is out of range: the walk over a file, the slots of extensions, the buckets of a chain, the
slots of parameters and the temporaries. None of them ever fails.

## Main definitions

* `Registry.discoverFromAt?`: the steps of a protocol, by positions.
* `Registry.lowerAddAt?`, `Registry.lowerProtocolAt?`: a protocol use lowered by positions.

## Main results

* `add_length_le_of_mem_withStarts`: the block of an element lies in the prelude.
* `Registry.Slotted.lowerProtocolAt?_eq_some`: lowering a protocol use stays in range.
* `positions_in_range`: every position is in range, for all files and all uses.
-/

namespace ExtensionMembers

/-! ## Steps of protocols -/

namespace Registry

/-- `discoverFrom`, by positions. -/
def discoverFromAt? (registry : Registry) (slots : Table ExtensionId Nat) (chain : ScopeChain)
    (span : Span) (types : SlotTypes) :
    List ProtocolStep → Option (Except LookupFault (List FoundStep))
  | [] => some (.ok [])
  | step :: rest => do
    let receiver := slotType types step.slot
    let query := step.query receiver
    let resolution ← registry.resolveAt? slots query chain
    match resolution.member? with
    | none =>
      (if resolution = .notFound && !step.isRequired then
        registry.discoverFromAt? slots chain span types rest
      else some <| .error <| (registry.lookupFault? query span resolution).getD
        ⟨span, .notFound (.global "?") step.name step.arity⟩)
    | some member =>
      (if step.category = .property && member.category = .property && !member.accessors.get then
        some (.error ⟨span, .accessorMissing member.name .get⟩)
      else do
        let found ← registry.discoverFromAt? slots chain span
          (slotTypesAfter types step member) rest
        return found.map (⟨step, receiver, resolution⟩ :: ·))

/-- `lowerSteps`, by positions. -/
def lowerStepsAt? (registry : Registry) (slots : Table ExtensionId Nat) (site : ProtocolSite)
    (protocol : Protocol) : Option (ProtocolPlan × Report) := do
  match ← registry.discoverFromAt? slots (registry.chain site.scope) site.span
      [(.subject, site.type)] protocol.steps with
  | .ok steps => return (ProtocolMatch.plan ⟨protocol, steps⟩ protocol ⟨0⟩, .empty)
  | .error fault => return (.error, ⟨[fault.diagnostic]⟩)

/-! ## Elements -/

/-- `addForm`, with the temporaries of its arguments looked up by position. -/
def addFormAt? (registry : Registry) (site : AccessSite) (resolution : Resolution)
    (temps : List TempId) : Option (Except Report CallForm) :=
  match resolution.member? with
  | none =>
    let fault? := registry.lookupFault? (.ofSite site) site.span resolution
    some (.error ⟨fault?.toList.map (·.diagnostic)⟩)
  | some member => do
    match ← bindInSlots? member.params site.shape.args site.span with
    | .error fault => return .error ⟨[fault.diagnostic]⟩
    | .ok slots => return .ok (.ofResolution .invoke (some (.temp ⟨0⟩))
        (← slots.mapM (·.operandAt? temps)) resolution)

/-- `lowerAdd`, its temporaries looked up in the prelude of the construct. -/
def lowerAddAt? (registry : Registry) (slots : Table ExtensionId Nat) (site : ProtocolSite)
    (element : List Argument × Nat) : Option (CallForm × Report) := do
  let add := site.addSite element.1
  let resolution ← registry.resolveAt? slots (.ofSite add) (registry.chain site.scope)
  let temps := argumentTemps (prelude site.sources) element.2 element.1.length
  match ← registry.addFormAt? add resolution temps with
  | .ok form => return (form, .empty)
  | .error report => return (.error, report)

/-! ## Protocol uses -/

/-- `planOf`, by positions. -/
def planAt? (registry : Registry) (slots : Table ExtensionId Nat) (site : ProtocolSite) :
    Option (ProtocolPlan × Report) :=
  match site.construct with
  | .iterate => registry.lowerStepsAt? slots site .iteration
  | .await => registry.lowerStepsAt? slots site .await
  | .addElements elements => do
    let adds ← (withStarts 1 elements).mapM (registry.lowerAddAt? slots site)
    return (.addElements (adds.map (·.1)), .concat (adds.map (·.2)))

/-- `lowerProtocol`, by positions. -/
def lowerProtocolAt? (registry : Registry) (slots : Table ExtensionId Nat) (site : ProtocolSite) :
    Option (LoweredProtocol × Report) := do
  let planned ← registry.planAt? slots site
  return (⟨site.id, prelude site.sources, planned.1⟩, planned.2)

end Registry

/-- What `withStarts` lists with the number of items before it ends where the next one starts. -/
theorem add_length_le_of_mem_withStarts {α : Type} {lists : List (List α)} {first : Nat}
    {entry : List α × Nat} (h : entry ∈ withStarts first lists) :
    entry.2 + entry.1.length ≤ first + lists.flatten.length := by
  induction lists generalizing first with
  | nil => cases h
  | cons items rest ih =>
    rw [List.flatten_cons, List.length_append]
    rcases List.mem_cons.1 h with rfl | hrest
    · exact Nat.add_le_add_left (Nat.le_add_right _ _) first
    · have := ih hrest
      omega

/-- The arguments of one of the `elements` have their temporaries in the prelude of the
construct. -/
theorem ProtocolSite.add_length_le {site : ProtocolSite} {element : List Argument × Nat}
    (h : element ∈ withStarts 1 site.elements) :
    element.2 + element.1.length ≤ site.sources.length := by
  have hsources : site.sources.length = 1 + site.elements.flatten.length := by
    rw [sources, List.length_cons, List.length_flatMap, List.length_flatten, Nat.add_comm]
    simp [argumentSources]
  rw [hsources]
  exact add_length_le_of_mem_withStarts h

namespace Registry

/-- `addFormAt?` stays in range, and gives what `addForm` does. -/
theorem addFormAt?_eq_some (registry : Registry) (site : AccessSite) (resolution : Resolution)
    {sources : List TempSource} {first : Nat}
    (h : first + site.shape.args.length ≤ sources.length) :
    registry.addFormAt? site resolution
        (argumentTemps (prelude sources) first site.shape.args.length) =
      some (registry.addForm site resolution first) := by
  unfold addFormAt? addForm
  cases resolution.member? with
  | none => rfl
  | some member =>
    dsimp only
    rw [bindInSlots?_eq_some, Option.bind_eq_bind, Option.bind_some]
    cases hbind : bind member.params site.shape.args site.span with
    | error fault => rfl
    | ok slots =>
      simp only [operandsAt?_eq_some hbind h]
      rfl

namespace Slotted

variable {registry : Registry} {slots : Table ExtensionId Nat} (h : registry.Slotted slots)

include h

theorem discoverFromAt?_eq_some (chain : ScopeChain) (span : Span) (types : SlotTypes)
    (steps : List ProtocolStep) :
    registry.discoverFromAt? slots chain span types steps =
      some (registry.discoverFrom chain span types steps) := by
  induction steps generalizing types with
  | nil => rfl
  | cons step rest ih =>
    -- The rest is searched with types that depend on what was found, hence any types above.
    simp only [discoverFromAt?, discoverFrom, h.resolveAt?_eq_some, ih, Option.bind_eq_bind,
      Option.bind_some]
    cases (registry.resolve (step.query (slotType types step.slot)) chain).member? with
    | none =>
      dsimp only
      split <;> rfl
    | some member =>
      dsimp only
      split
      · rfl
      · cases registry.discoverFrom chain span (slotTypesAfter types step member) rest <;> rfl

theorem lowerStepsAt?_eq_some (site : ProtocolSite) (protocol : Protocol) :
    registry.lowerStepsAt? slots site protocol = some (registry.lowerSteps site protocol) := by
  rw [lowerStepsAt?, h.discoverFromAt?_eq_some, lowerSteps, discover, Option.bind_eq_bind,
    Option.bind_some]
  cases registry.discoverFrom (registry.chain site.scope) site.span [(.subject, site.type)]
    protocol.steps <;> rfl

theorem lowerAddAt?_eq_some {site : ProtocolSite} {element : List Argument × Nat}
    (helement : element ∈ withStarts 1 site.elements) :
    registry.lowerAddAt? slots site element = some (registry.lowerAdd site element) := by
  have hform := registry.addFormAt?_eq_some (site.addSite element.1)
    (registry.resolve (.ofSite (site.addSite element.1)) (registry.chain site.scope))
    (ProtocolSite.add_length_le helement)
  have hargs : (site.addSite element.1).shape.args = element.1 := rfl
  rw [hargs] at hform
  simp only [lowerAddAt?, h.resolveAt?_eq_some, Option.bind_eq_bind, Option.bind_some, hform]
  rw [lowerAdd]
  cases registry.addForm (site.addSite element.1) (registry.resolve
    (.ofSite (site.addSite element.1)) (registry.chain site.scope)) element.2 <;> rfl

/-- `lowerProtocolAt?` stays in range, and gives what `lowerProtocol` does. -/
theorem lowerProtocolAt?_eq_some (site : ProtocolSite) :
    registry.lowerProtocolAt? slots site = some (registry.lowerProtocol site) := by
  have hplan : registry.planAt? slots site = some (registry.planOf site) := by
    unfold planAt? planOf
    cases hconstruct : site.construct with
    | iterate => exact h.lowerStepsAt?_eq_some site .iteration
    | await => exact h.lowerStepsAt?_eq_some site .await
    | addElements elements =>
      have helements : site.elements = elements := by rw [ProtocolSite.elements, hconstruct]
      have hadds : (withStarts 1 elements).mapM (registry.lowerAddAt? slots site) =
          some ((withStarts 1 elements).map (registry.lowerAdd site)) :=
        mapM_eq_some_map fun element helement =>
          h.lowerAddAt?_eq_some (helements ▸ helement)
      dsimp only
      rw [hadds]
      rfl
  rw [lowerProtocolAt?, hplan]
  rfl

end Slotted

end Registry

/-! ## Everything -/

/-- Whatever the files and the uses are, no list is read or written at a position out of range.

* Files and names: `Outline.walk?` only looks up scopes that it has opened, and
  `NameMeaning.ofCandidatesAt?` only reads a candidate that is there.
* The build: the table of slots of the finished registry is that of every registry in the making,
  after the declarations, after any number of types and after any number of extensions, and all
  reads of it are in range. So are the reads of `Assembly.completeExtensionAt?`, and the whole build
  by positions is `assemble`.
* The uses: with slots, buckets, parameters and temporaries looked up by position, every use comes
  out as `Registry.lowerSite` and `Registry.lowerProtocol` have it. -/
theorem positions_in_range (files : List SourceFile) (options : Options) :
    let declared := Assembly.declareFiles files
    let typed := Assembly.completedTypes files
    let registry := (assemble files options).registry
    files.mapM Outline.walk? = some (files.map .ofFile) ∧
    (∀ candidates, NameMeaning.ofCandidatesAt? candidates = some (.ofCandidates candidates)) ∧
    declared.registry.SlotsInRange registry.slots ∧
    (∀ count, ((declared.types.take count).foldl Assembly.completeType
      declared.importing).registry.SlotsInRange registry.slots) ∧
    (∀ count pending,
      let stage := (typed.extensions.take count).foldl Assembly.completeExtension typed
      stage.registry.SlotsInRange registry.slots ∧
        stage.completeExtensionAt? registry.slots pending =
          some (stage.completeExtension pending)) ∧
    assembleAt? files options = some (assemble files options) ∧
    registry.Slotted registry.slots ∧
    (∀ id, registry.extensionAt? registry.slots id = some (registry.extension? id)) ∧
    (∀ hash chain,
      registry.tiersAt? registry.slots hash chain = some (registry.tiers hash chain)) ∧
    (∀ params args span, bindInSlots? params args span = some (bind params args span)) ∧
    (∀ sites : List AccessSite, sites.mapM (registry.lowerSiteAt? registry.slots) =
      some (sites.map registry.lowerSite)) ∧
    ∀ sites : List ProtocolSite, sites.mapM (registry.lowerProtocolAt? registry.slots) =
      some (sites.map registry.lowerProtocol) := by
  intro declared typed registry
  have hslots : registry.slots = declared.registry.slots := Registry.slots_assemble files options
  have hdeclared : declared.registry.Slotted registry.slots :=
    hslots ▸ Registry.slotted_declareFiles files
  have himported : declared.importing.registry.Slotted registry.slots := .changeScopes _ hdeclared
  have hcompleting : ∀ before : List PendingExtension,
      (before.foldl Assembly.completeExtension typed).registry.Slotted registry.slots :=
    fun before => hslots ▸ Registry.slotted_completing files before
  have hslotted : registry.Slotted registry.slots :=
    Registry.Reachable.slotted (Registry.reachable_assemble files options)
  exact ⟨mapM_eq_some_map fun file _ => Outline.walk?_eq_some file,
    NameMeaning.ofCandidatesAt?_eq_some, hdeclared.slotsInRange,
    fun _ => (himported.foldl_completeType _).slotsInRange,
    fun _ pending => ⟨(hcompleting _).slotsInRange,
      (hcompleting _).completeExtensionAt?_eq_some pending⟩,
    assembleAt?_eq_some files options, hslotted, hslotted.extensionAt?_eq_some,
    hslotted.tiersAt?_eq_some, bindInSlots?_eq_some,
    fun _ => mapM_eq_some_map fun site _ => hslotted.lowerSiteAt?_eq_some site,
    fun _ => mapM_eq_some_map fun site _ => hslotted.lowerProtocolAt?_eq_some site⟩

end ExtensionMembers
