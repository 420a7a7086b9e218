import ExtensionMembers.Build.Assembly
import ExtensionMembers.Proofs.Protocol.Discovery

/-!
# Discovery step by step

Discovery carries the types that it has learnt from step to step. What it finds can be said without
them: the first step is looked up in the type of the subject, and every other step in the type that
the member found for the first step returns. Discovery succeeds if every step passes by itself, and
otherwise fails with the fault of the first step that does not.

## Main definitions

* `Registry.receiverOf`, `Registry.answerTo`: the type that a step is looked up in, and the answer.
* `Registry.Tracks`: the types that discovery knows are those that the steps are looked up in.
* `Registry.FailsWith`: the fault of the first step that does not pass.
* `Registry.Lists`: what the steps found for a protocol are.

## Main results

* `Registry.Tracks.discoverFrom_cases`: all steps pass, or the first that does not decides.
* `Registry.discover_stepwise`: what discovery finds, and how it fails.
-/

namespace ExtensionMembers

namespace Registry

/-! ## Steps in a row -/

section Run

variable {registry : Registry} {chain : ScopeChain} {span : Span}
  {receivers : ProtocolStep → TypeHash}

/-- The answer of `resolve` to a step, where `receivers` says what each step is looked up in. -/
def answerIn (registry : Registry) (chain : ScopeChain) (receivers : ProtocolStep → TypeHash)
    (step : ProtocolStep) : Resolution :=
  registry.resolve (step.query (receivers step)) chain

/-- The `FoundStep` that is listed for a step: nothing if no member is found for it (`answerIn`). -/
def listed? (registry : Registry) (chain : ScopeChain) (receivers : ProtocolStep → TypeHash)
    (step : ProtocolStep) : Option FoundStep :=
  if (registry.answerIn chain receivers step).isFound then
    some ⟨step, receivers step, registry.answerIn chain receivers step⟩
  else none

/-- Of the types that `discoverFrom` knows at some point, those that the steps to come are used on
are the types that they are looked up in (`receivers`), whichever of the steps before them are
found. -/
inductive Tracks (registry : Registry) (chain : ScopeChain)
    (receivers : ProtocolStep → TypeHash) : SlotTypes → List ProtocolStep → Prop
  | nil {types : SlotTypes} : Tracks registry chain receivers types []
  | cons {types : SlotTypes} {step : ProtocolStep} {rest : List ProtocolStep} :
      slotType types step.slot = receivers step →
      (∀ member, (registry.answerIn chain receivers step).member? = some member →
        Tracks registry chain receivers (slotTypesAfter types step member) rest) →
      (step.isRequired = false → Tracks registry chain receivers types rest) →
      Tracks registry chain receivers types (step :: rest)

/-- A step is the first of `steps` that does not pass, and has the `StepFault` `fault`. -/
def FailsWith (registry : Registry) (chain : ScopeChain) (span : Span)
    (receivers : ProtocolStep → TypeHash) (steps : List ProtocolStep) (fault : LookupFault) :
    Prop :=
  ∃ before step after, steps = before ++ step :: after ∧
    (∀ earlier ∈ before, earlier.Passes (registry.answerIn chain receivers earlier)) ∧
    registry.StepFault span step (receivers step) (registry.answerIn chain receivers step) fault

variable {steps rest : List ProtocolStep} {step : ProtocolStep} {types : SlotTypes}
  {fault : LookupFault}

/-- `FailsWith` of several steps: the first step decides if it has a fault; otherwise it passes, and
a later one decides. -/
theorem failsWith_cons_iff :
    registry.FailsWith chain span receivers (step :: rest) fault ↔
      registry.StepFault span step (receivers step) (registry.answerIn chain receivers step)
          fault ∨
        step.Passes (registry.answerIn chain receivers step) ∧
          registry.FailsWith chain span receivers rest fault := by
  constructor
  · rintro ⟨before, failed, after, hsteps, hbefore, hfault⟩
    cases before with
    | nil =>
      obtain ⟨rfl, rfl⟩ := List.cons.inj hsteps
      exact .inl hfault
    | cons first before =>
      obtain ⟨rfl, rfl⟩ := List.cons.inj hsteps
      obtain ⟨hfirst, hbefore⟩ := List.forall_mem_cons.1 hbefore
      exact .inr ⟨hfirst, before, failed, after, rfl, hbefore, hfault⟩
  · rintro (hfault | ⟨hpasses, before, failed, after, rfl, hbefore, hfault⟩)
    · exact ⟨[], step, rest, rfl, by simp, hfault⟩
    · exact ⟨step :: before, failed, after, rfl, List.forall_mem_cons.2 ⟨hpasses, hbefore⟩, hfault⟩

/-- Under `FailsWith` not all steps pass. -/
theorem FailsWith.not_passes (h : registry.FailsWith chain span receivers steps fault) :
    ¬ ∀ step ∈ steps, step.Passes (registry.answerIn chain receivers step) := by
  obtain ⟨before, failed, after, rfl, _, hfault⟩ := h
  exact fun hall => hfault.not_passes (hall failed (by simp))

/-- `FailsWith` holds of one fault at most. -/
theorem FailsWith.unique {other : LookupFault}
    (h : registry.FailsWith chain span receivers steps fault)
    (hother : registry.FailsWith chain span receivers steps other) : fault = other := by
  induction steps with
  | nil =>
    obtain ⟨before, failed, after, hsteps, _⟩ := h
    exact absurd hsteps (by simp)
  | cons step rest ih =>
    rcases failsWith_cons_iff.1 h with hfault | ⟨hpasses, hrest⟩
    · rcases failsWith_cons_iff.1 hother with hfault' | ⟨hpasses, _⟩
      · exact hfault.unique hfault'
      · exact absurd hpasses hfault.not_passes
    · rcases failsWith_cons_iff.1 hother with hfault | ⟨_, hrest'⟩
      · exact absurd hpasses hfault.not_passes
      · exact ih hrest hrest'

/-- `discoverFrom` lists a step that passes if it is found (`listed?`), and goes on. -/
theorem Tracks.discoverFrom_cons (h : registry.Tracks chain receivers types (step :: rest))
    (hpasses : step.Passes (registry.answerIn chain receivers step)) :
    ∃ next, registry.Tracks chain receivers next rest ∧
      registry.discoverFrom chain span types (step :: rest) =
        (registry.discoverFrom chain span next rest).map
          ((registry.listed? chain receivers step).toList ++ ·) := by
  cases h with
  | cons hreceiver hfound hleft =>
    -- Discovery asks in the type known at the slot, which is that of the step.
    have hanswer : registry.resolve (step.query (slotType types step.slot)) chain =
        registry.answerIn chain receivers step := by rw [hreceiver, answerIn]
    generalize hresolution : registry.answerIn chain receivers step = resolution at hpasses hfound
    cases hpasses with
    | @found _ member hmember haccepts =>
      refine ⟨_, hfound member hmember, ?_⟩
      have hlisted : registry.listed? chain receivers step =
          some ⟨step, receivers step, resolution⟩ := by
        rw [listed?, hresolution, Resolution.isFound, hmember]
        rfl
      rw [discoverFrom_cons_of_found (by rw [hanswer, hresolution, hmember]) haccepts, hlisted,
        hanswer, hresolution, hreceiver]
      rfl
    | left hoptional =>
      refine ⟨types, hleft hoptional, ?_⟩
      have hlisted : registry.listed? chain receivers step = none := by
        rw [listed?, hresolution]
        rfl
      rw [discoverFrom_cons_of_left (hanswer.trans hresolution) hoptional, hlisted]
      cases registry.discoverFrom chain span types rest <;> rfl

/-- `discoverFrom` stops at a step that does not pass. -/
theorem Tracks.discoverFrom_of_stepFault
    (h : registry.Tracks chain receivers types (step :: rest))
    (hfault : registry.StepFault span step (receivers step)
      (registry.answerIn chain receivers step) fault) :
    registry.discoverFrom chain span types (step :: rest) = .error fault := by
  cases h with
  | cons hreceiver _ _ =>
    rw [answerIn, ← hreceiver] at hfault
    exact discoverFrom_cons_of_stepFault hfault

/-- Either all steps pass (`Passes`), and `discoverFrom` lists those that are found, or the first
step that does not pass decides. -/
theorem Tracks.discoverFrom_cases (h : registry.Tracks chain receivers types steps)
    (span : Span) :
    ((∀ step ∈ steps, step.Passes (registry.answerIn chain receivers step)) ∧
      registry.discoverFrom chain span types steps =
        .ok (steps.filterMap (registry.listed? chain receivers))) ∨
    ∃ fault, registry.FailsWith chain span receivers steps fault ∧
      registry.discoverFrom chain span types steps = .error fault := by
  induction steps generalizing types with
  | nil => exact .inl ⟨by simp, rfl⟩
  | cons step rest ih =>
    rcases registry.passes_or_stepFault span step (receivers step)
      (registry.answerIn chain receivers step) with hpasses | ⟨fault, hfault⟩
    · obtain ⟨next, hnext, hstep⟩ := h.discoverFrom_cons hpasses
      rcases ih hnext with ⟨hall, hrest⟩ | ⟨fault, hfails, hrest⟩
      · refine .inl ⟨List.forall_mem_cons.2 ⟨hpasses, hall⟩, ?_⟩
        rw [hstep, hrest, List.filterMap_cons]
        cases registry.listed? chain receivers step <;> rfl
      · refine .inr ⟨fault, failsWith_cons_iff.2 (.inr ⟨hpasses, hfails⟩), ?_⟩
        rw [hstep, hrest]
        rfl
    · exact .inr ⟨fault, failsWith_cons_iff.2 (.inl hfault), h.discoverFrom_of_stepFault hfault⟩

/-- `discoverFrom` succeeds if every step passes, and lists those that are found. -/
theorem Tracks.discoverFrom_eq_ok_iff (h : registry.Tracks chain receivers types steps)
    {found : List FoundStep} :
    registry.discoverFrom chain span types steps = .ok found ↔
      (∀ step ∈ steps, step.Passes (registry.answerIn chain receivers step)) ∧
        found = steps.filterMap (registry.listed? chain receivers) := by
  rcases h.discoverFrom_cases span with ⟨hall, heq⟩ | ⟨fault, hfails, heq⟩ <;> rw [heq]
  · rw [Except.ok.injEq, eq_comm]
    exact ⟨fun heq => ⟨hall, heq⟩, fun h => h.2⟩
  · exact iff_of_false (by simp) fun h => hfails.not_passes h.1

/-- `discoverFrom` fails with the fault of the first step that does not pass (`FailsWith`). -/
theorem Tracks.discoverFrom_eq_error_iff (h : registry.Tracks chain receivers types steps) :
    registry.discoverFrom chain span types steps = .error fault ↔
      registry.FailsWith chain span receivers steps fault := by
  rcases h.discoverFrom_cases span with ⟨hall, heq⟩ | ⟨fault', hfails, heq⟩ <;> rw [heq]
  · exact iff_of_false (by simp) fun hfails => hfails.not_passes hall
  · constructor
    · intro hfault
      obtain rfl := Except.error.inj hfault
      exact hfails
    · intro hother
      rw [hfails.unique hother]

/-- `Tracks` holds of types that give every step its own and are not replaced by steps that yield
nothing. -/
theorem tracks_of_settled
    (h : ∀ step ∈ steps, slotType types step.slot = receivers step ∧ step.yields = none) :
    registry.Tracks chain receivers types steps := by
  induction steps with
  | nil => exact .nil
  | cons step rest ih =>
    obtain ⟨⟨hreceiver, hyields⟩, hrest⟩ := List.forall_mem_cons.1 h
    refine .cons hreceiver (fun member _ => ?_) fun _ => ih hrest
    rw [slotTypesAfter, hyields]
    exact ih hrest

end Run

end Registry

/-! ## Protocols -/

namespace Protocol

/-- The step that a protocol starts with, the first of `Protocol.steps`. -/
def opening (protocol : Protocol) : ProtocolStep := protocol.steps.headI

theorem steps_eq (protocol : Protocol) :
    protocol.steps = protocol.opening :: protocol.steps.tail := by
  cases protocol <;> rfl

/-- A protocol starts with a step on the subject (`opening`), and all others are used on what it
yields. -/
theorem settled_after_opening (protocol : Protocol) :
    protocol.opening.slot = .subject ∧ protocol.opening.isRequired = true ∧
      ∃ slot, protocol.opening.yields = some slot ∧ ∀ step ∈ protocol.steps.tail,
        step ≠ protocol.opening ∧ step.slot = slot ∧ step.yields = none := by
  cases protocol <;> exact ⟨rfl, rfl, _, rfl, by decide⟩

theorem nodup_steps (protocol : Protocol) : protocol.steps.Nodup := by
  cases protocol <;> decide

end Protocol

namespace Registry

variable (registry : Registry) (chain : ScopeChain) (protocol : Protocol) (subject : TypeHash)

/-- The type that a step is looked up in: `subject` for the first step (`opening`), and for the
others what the member found for the first one returns. Only a declared type has members, so
anything else counts as no value. -/
def receiverOf (step : ProtocolStep) : TypeHash :=
  if step = protocol.opening then subject
  else ((registry.resolve (protocol.opening.query subject) chain).member?.bind
    (·.result.namedHash?)).getD TypeHash.void

/-- The answer of `resolve` to a step, looked up in its `receiverOf`. -/
def answerTo (step : ProtocolStep) : Resolution :=
  registry.resolve (step.query (registry.receiverOf chain protocol subject step)) chain

/-- What `discover` has found for a protocol. -/
structure Lists (found : ProtocolMatch) : Prop where
  /-- They are found for this protocol. -/
  protocol_eq : found.protocol = protocol
  /-- They are steps of the protocol, in its order. -/
  ordered : (found.steps.map (·.step)).Sublist protocol.steps
  /-- Every step that is needed is there. -/
  required : ∀ step ∈ protocol.steps, step.isRequired = true → step ∈ found.steps.map (·.step)
  /-- Of the others, those are there that are found. -/
  optional : ∀ step ∈ protocol.steps, step.isRequired = false →
    (step ∈ found.steps.map (·.step) ↔
      (registry.answerTo chain protocol subject step).isFound = true)
  /-- Each is looked up in its type. -/
  receiver_eq : ∀ listed ∈ found.steps,
    listed.receiver = registry.receiverOf chain protocol subject listed.step
  /-- Each has the answer to its query. -/
  resolution_eq : ∀ listed ∈ found.steps,
    listed.resolution = registry.resolve (listed.step.query listed.receiver) chain
  /-- A property found for a step that reads one can be read. -/
  readable : ∀ listed ∈ found.steps, ∀ member, listed.resolution.member? = some member →
    listed.step.Accepts member

variable {registry chain protocol subject}

/-- What `discover` knows at the start gives every step its `receiverOf`. -/
theorem tracks_receiverOf :
    registry.Tracks chain (registry.receiverOf chain protocol subject) [(.subject, subject)]
      protocol.steps := by
  obtain ⟨hslot, hrequired, slot, hyields, hlater⟩ := protocol.settled_after_opening
  rw [protocol.steps_eq]
  refine .cons ?_ (fun member hmember => tracks_of_settled fun step hstep => ?_) fun hoptional => ?_
  · rw [hslot, receiverOf, if_pos rfl]
    rfl
  · -- The steps after the opening are used on what it gives, and give nothing to later ones.
    obtain ⟨hne, rfl, hnone⟩ := hlater step hstep
    rw [answerIn, receiverOf, if_pos rfl] at hmember
    refine ⟨?_, hnone⟩
    rw [slotTypesAfter, hyields, receiverOf, if_neg hne, hmember]
    simp [slotType]
  · rw [hrequired] at hoptional
    cases hoptional

/-- `listed?` lists a step with its own type and answer. -/
theorem eq_of_listed? {receivers : ProtocolStep → TypeHash} {step : ProtocolStep}
    {listed : FoundStep} (h : registry.listed? chain receivers step = some listed) :
    listed.step = step ∧ listed.receiver = receivers step ∧
      listed.resolution = registry.answerIn chain receivers step := by
  unfold listed? at h
  split at h
  · obtain rfl := Option.some.inj h
    exact ⟨rfl, rfl, rfl⟩
  · cases h

/-- The steps that `listed?` lists are those that are found. -/
theorem map_step_filterMap (receivers : ProtocolStep → TypeHash)
    (steps : List ProtocolStep) :
    (steps.filterMap (registry.listed? chain receivers)).map (·.step) =
      steps.filter fun step => (registry.answerIn chain receivers step).isFound := by
  rw [List.map_filterMap, ← List.filterMap_eq_filter]
  refine List.filterMap_congr fun step _ => ?_
  unfold listed?
  split <;> simp_all [Option.guard]

/-- Where all steps pass, the steps of the protocol that are found are what is listed (`Lists`). -/
theorem lists_filterMap
    (h : ∀ step ∈ protocol.steps, step.Passes (registry.answerTo chain protocol subject step)) :
    registry.Lists chain protocol subject ⟨protocol, protocol.steps.filterMap
      (registry.listed? chain (registry.receiverOf chain protocol subject))⟩ where
  protocol_eq := rfl
  ordered := by
    rw [map_step_filterMap]
    exact List.filter_sublist
  required step hstep hrequired := by
    obtain ⟨member, hmember, _⟩ := (h step hstep).exists_member hrequired
    rw [map_step_filterMap]
    exact List.mem_filter.2 ⟨hstep, congrArg Option.isSome hmember⟩
  optional step hstep _ := by
    rw [map_step_filterMap, List.mem_filter]
    exact and_iff_right hstep
  receiver_eq listed hlisted := by
    obtain ⟨step, _, hlisted⟩ := List.mem_filterMap.1 hlisted
    obtain ⟨rfl, hreceiver, _⟩ := eq_of_listed? hlisted
    exact hreceiver
  resolution_eq listed hlisted := by
    obtain ⟨step, _, hlisted⟩ := List.mem_filterMap.1 hlisted
    obtain ⟨rfl, hreceiver, hresolution⟩ := eq_of_listed? hlisted
    rw [hresolution, hreceiver, answerIn]
  readable listed hlisted member hmember := by
    obtain ⟨step, hstep, hlisted⟩ := List.mem_filterMap.1 hlisted
    obtain ⟨rfl, _, hresolution⟩ := eq_of_listed? hlisted
    have hpasses := h listed.step hstep
    rw [answerTo, ← answerIn, ← hresolution] at hpasses
    exact hpasses.accepts hmember

/-- The steps found are determined by `Lists`. -/
theorem Lists.unique {found other : ProtocolMatch}
    (h : registry.Lists chain protocol subject found)
    (hother : registry.Lists chain protocol subject other) : found = other := by
  -- The same steps are listed, in the order of the protocol.
  have hmem : ∀ step ∈ protocol.steps,
      (step ∈ found.steps.map (·.step) ↔ step ∈ other.steps.map (·.step)) := by
    intro step hstep
    cases hrequired : step.isRequired with
    | true =>
      exact iff_of_true (h.required step hstep hrequired) (hother.required step hstep hrequired)
    | false =>
      exact (h.optional step hstep hrequired).trans (hother.optional step hstep hrequired).symm
  have hsteps : found.steps.map (·.step) = other.steps.map (·.step) := by
    rw [eq_filter_of_sublist h.ordered protocol.nodup_steps,
      eq_filter_of_sublist hother.ordered protocol.nodup_steps]
    exact List.filter_congr fun step hstep => by simp [hmem step hstep]
  -- A step is listed in one way only.
  have hlisted : ∀ {found}, registry.Lists chain protocol subject found →
      found.steps = (found.steps.map (·.step)).map fun step =>
        ⟨step, registry.receiverOf chain protocol subject step,
          registry.answerTo chain protocol subject step⟩ := by
    intro found h
    rw [List.map_map]
    refine (List.map_id _).symm.trans (List.map_congr_left fun listed hin => ?_)
    rw [Function.comp_apply, answerTo, ← h.receiver_eq listed hin, ← h.resolution_eq listed hin]
    rfl
  obtain ⟨kind, steps⟩ := found
  obtain ⟨kind', steps'⟩ := other
  obtain rfl := h.protocol_eq
  obtain rfl := hother.protocol_eq
  exact congrArg _ ((hlisted h).trans (hsteps ▸ (hlisted hother).symm))

/-- `discover` succeeds if every step passes, and then `Lists` the steps that are found. -/
theorem discover_eq_ok_iff {span : Span} {found : ProtocolMatch} :
    registry.discover protocol subject chain span = .ok found ↔
      (∀ step ∈ protocol.steps,
        step.Passes (registry.answerTo chain protocol subject step)) ∧
      registry.Lists chain protocol subject found := by
  have htracks : registry.Tracks chain (registry.receiverOf chain protocol subject)
      [(.subject, subject)] protocol.steps := tracks_receiverOf
  rw [discover, bind_eq_ok_iff]
  constructor
  · rintro ⟨steps, hsteps, hfound⟩
    obtain ⟨hall, rfl⟩ := htracks.discoverFrom_eq_ok_iff.1 hsteps
    obtain rfl := Except.ok.inj hfound
    exact ⟨hall, lists_filterMap hall⟩
  · rintro ⟨hall, hlists⟩
    obtain rfl := hlists.unique (lists_filterMap hall)
    exact ⟨_, htracks.discoverFrom_eq_ok_iff.2 ⟨hall, rfl⟩, rfl⟩

/-- `discover` fails with the fault of the first step that does not pass (`FailsWith`). -/
theorem discover_eq_error_iff {span : Span} {fault : LookupFault} :
    registry.discover protocol subject chain span = .error fault ↔
      registry.FailsWith chain span (registry.receiverOf chain protocol subject) protocol.steps
        fault := by
  have htracks : registry.Tracks chain (registry.receiverOf chain protocol subject)
      [(.subject, subject)] protocol.steps := tracks_receiverOf
  rw [← htracks.discoverFrom_eq_error_iff, discover]
  cases registry.discoverFrom chain span [(.subject, subject)] protocol.steps with
  | error other => constructor <;> rintro ⟨⟩ <;> rfl
  | ok steps => exact iff_of_false (by rintro ⟨⟩) (by rintro ⟨⟩)

/-- `discover` is the look-up of each step by itself. It finds members for a protocol if every step
passes (`Passes`): one that is needed is found, and a property found for a step that reads one can
be read. What it returns lists the steps that are found, in the order of the protocol and each with
the type that it is looked up in (`receiverOf`) and its answer. Otherwise it fails with the fault of
one step that all steps before it leave to decide. -/
theorem discover_stepwise (registry : Registry) (chain : ScopeChain) (protocol : Protocol)
    (subject : TypeHash) (span : Span) :
    (∀ found, registry.discover protocol subject chain span = .ok found ↔
      (∀ step ∈ protocol.steps,
        step.Passes (registry.answerTo chain protocol subject step)) ∧
      registry.Lists chain protocol subject found) ∧
    ∀ fault, registry.discover protocol subject chain span = .error fault ↔
      ∃ before step after, protocol.steps = before ++ step :: after ∧
        (∀ earlier ∈ before,
          earlier.Passes (registry.answerTo chain protocol subject earlier)) ∧
        registry.StepFault span step (registry.receiverOf chain protocol subject step)
          (registry.answerTo chain protocol subject step) fault :=
  ⟨fun _ => discover_eq_ok_iff, fun _ => discover_eq_error_iff⟩

/-- A class that an extension lets loops run over, with the class of its enumerators, which some
extensions let loops give up. -/
def cursorFile (closers : List String) : SourceFile where
  id := ⟨0⟩
  name := "cursor"
  items :=
    [.type ⟨.plainClass, "Bag", none, [], .unplaced⟩,
      .type ⟨.plainClass, "Cursor", none, [moveNext, current], .unplaced⟩,
      .extension ⟨"BagLoops", some (.parse "Bag"), [], [getEnumerator], .unplaced⟩] ++
    closers.map fun closer => .extension ⟨closer, some (.parse "Cursor"), [], [dispose], .unplaced⟩
where
  moveNext : WrittenMember :=
    { (default : WrittenMember) with name := "MoveNext", result := some (.parse "bool") }
  current : WrittenMember :=
    { (default : WrittenMember) with
      category := .property, name := "Current", result := some (.parse "int"),
      accessors := ⟨true, false⟩ }
  getEnumerator : WrittenMember :=
    { (default : WrittenMember) with
      name := "GetEnumerator", result := some (.parse "Cursor") }
  dispose : WrittenMember := { (default : WrittenMember) with name := "Dispose" }

/-- With `cursorFile`, a loop over a bag asks the bag for its cursor, and the cursor for all else; a
loop over a cursor fails at its first step. -/
theorem discover_stepwise_cursor :
    let registry := (assemble [cursorFile ["CursorEnd"]] .standard).registry
    let chain := registry.chain ⟨0⟩
    let bag := (QualifiedName.global "Bag").hash
    let cursor := (QualifiedName.global "Cursor").hash
    (∃ found, registry.discover .iteration bag chain .unplaced = .ok found ∧
      registry.Lists chain .iteration bag found ∧
      found.steps.map (fun listed => (listed.step.name, listed.receiver)) =
        [("GetEnumerator", bag), ("MoveNext", cursor), ("Current", cursor), ("Dispose", cursor)]) ∧
    ∃ before step after, Protocol.iteration.steps = before ++ step :: after ∧
      registry.StepFault .unplaced step (registry.receiverOf chain .iteration cursor step)
        (registry.answerTo chain .iteration cursor step)
        ⟨.unplaced, .notFound (.global "Cursor") "GetEnumerator" 0⟩ := by
  intro registry chain bag cursor
  have hnames : (registry.discover .iteration bag chain .unplaced).map (fun found =>
      found.steps.map fun listed => (listed.step.name, listed.receiver)) =
        .ok [("GetEnumerator", bag), ("MoveNext", cursor), ("Current", cursor),
          ("Dispose", cursor)] := by decide +kernel
  have hfails : registry.discover .iteration cursor chain .unplaced =
      .error ⟨.unplaced, .notFound (.global "Cursor") "GetEnumerator" 0⟩ := by decide +kernel
  constructor
  · cases hfound : registry.discover .iteration bag chain .unplaced with
    | error fault =>
      rw [hfound] at hnames
      cases hnames
    | ok found =>
      rw [hfound] at hnames
      exact ⟨found, rfl, (((discover_stepwise registry chain .iteration bag .unplaced).1 found).1
        hfound).2, Except.ok.inj hnames⟩
  · obtain ⟨before, step, after, hsteps, _, hfault⟩ :=
      ((discover_stepwise registry chain .iteration cursor .unplaced).2 _).1 hfails
    exact ⟨before, step, after, hsteps, hfault⟩

end Registry

end ExtensionMembers
