import ExtensionMembers.Call.Form

/-!
# Protocols

A loop and a wait each need a few members, on their subject and on what the first of them returns.
Every member is looked up like any other, so extensions can supply it.

* `Protocol.steps`: the members that a protocol needs, in order.
* `Registry.discover`: the members found for a subject.

## References

- Specification, §4.3, Member Merge Resolver (protocol discovery)
-/

namespace ExtensionMembers

/-- A member that a protocol needs, the engine's `ProtocolStep`. -/
structure ProtocolStep where
  /-- The name of the member. -/
  name : String
  /-- The value it is used on. -/
  slot : ProtocolSlot
  /-- The category looked up. -/
  category : MemberCategory
  /-- The number of arguments. -/
  arity : Nat
  /-- Whether the protocol can do without it. -/
  isRequired : Bool
  /-- The value that it returns, if later steps use it. -/
  yields : Option ProtocolSlot
deriving DecidableEq, Inhabited

/-- A construct with a fixed list of members, the engine's `Protocol`. -/
inductive Protocol where
  /-- A loop over elements. -/
  | iteration
  /-- A wait. -/
  | await
deriving DecidableEq, Inhabited

namespace Protocol

/-- The engine's `ITERATION_STEPS`, the steps of a loop. -/
def iterationSteps : List ProtocolStep :=
  [⟨"GetEnumerator", .subject, .method, 0, true, some .enumerator⟩,
    ⟨"MoveNext", .enumerator, .method, 0, true, none⟩,
    ⟨"Current", .enumerator, .property, 0, true, none⟩,
    ⟨"Dispose", .enumerator, .method, 0, false, none⟩,
    ⟨"Reset", .enumerator, .method, 0, false, none⟩]

/-- The engine's `AWAIT_STEPS`, the steps of a wait. -/
def awaitSteps : List ProtocolStep :=
  [⟨"GetAwaiter", .subject, .method, 0, true, some .awaiter⟩,
    ⟨"IsCompleted", .awaiter, .property, 0, true, none⟩,
    ⟨"GetResult", .awaiter, .method, 0, true, none⟩,
    ⟨"OnCompleted", .awaiter, .method, 1, true, none⟩]

/-- The steps of a protocol, in order. -/
def steps : Protocol → List ProtocolStep
  | iteration => iterationSteps
  | await => awaitSteps

end Protocol

/-- A step with what was found for it, the engine's `DiscoveredStep`. -/
structure FoundStep where
  /-- The step. -/
  step : ProtocolStep
  /-- The type in which it was looked up. -/
  receiver : TypeHash
  /-- What was found. -/
  resolution : Resolution
deriving DecidableEq, Inhabited

/-- The steps found for a protocol, in order, the engine's `ProtocolMatch`. -/
structure ProtocolMatch where
  /-- The protocol. -/
  protocol : Protocol
  /-- The steps found. -/
  steps : List FoundStep
deriving DecidableEq, Inhabited

/-- The step found for a name. -/
def ProtocolMatch.step? (found : ProtocolMatch) (name : String) : Option FoundStep :=
  found.steps.find? (·.step.name = name)

/-- The types of the values that a protocol works on, as far as they are known. -/
abbrev SlotTypes := List (ProtocolSlot × TypeHash)

/-- The type of a value; one that is not known counts as no value (`TypeHash.void`). -/
def slotType (types : SlotTypes) (slot : ProtocolSlot) : TypeHash :=
  (types.lookup slot).getD TypeHash.void

/-- The types known after a step that resolved to a member. Only a declared type has members, so
any other result counts as no value. -/
def slotTypesAfter (types : SlotTypes) (step : ProtocolStep) (member : Member) : SlotTypes :=
  match step.yields with
  | some slot => (slot, member.result.namedHash?.getD TypeHash.void) :: types
  | none => types

/-- The query of a step: its member, asked of a value of `receiver`. -/
def ProtocolStep.query (step : ProtocolStep) (receiver : TypeHash) : MemberQuery :=
  ⟨receiver, false, step.name, step.category, some step.arity⟩

namespace Registry

/-- The steps found, given the types known so far, the loop of the engine's `discover`. A step that
may be missing is left out if it is not found; every other failure, and a property that cannot be
read, is a fault at `span`. -/
def discoverFrom (registry : Registry) (chain : ScopeChain) (span : Span) (types : SlotTypes) :
    List ProtocolStep → Except LookupFault (List FoundStep)
  | [] => .ok []
  | step :: rest =>
    let receiver := slotType types step.slot
    let query := step.query receiver
    let resolution := registry.resolve query chain
    match resolution.member? with
    | none =>
      -- Several candidates are a fault even for a step that may be missing.
      if resolution = .notFound && !step.isRequired then registry.discoverFrom chain span types rest
      else .error <| (registry.lookupFault? query span resolution).getD
        ⟨span, .notFound (.global "?") step.name step.arity⟩
    | some member =>
      -- A declared method can turn up for a property, and has no accessors to check.
      if step.category = .property && member.category = .property && !member.accessors.get then
        .error ⟨span, .accessorMissing member.name .get⟩
      else do
        let found ← registry.discoverFrom chain span (slotTypesAfter types step member) rest
        return ⟨step, receiver, resolution⟩ :: found

/-- The engine's `discover` (specification, §4.3): the steps of a protocol found for a subject of
some type, at a place with this chain. -/
def discover (registry : Registry) (protocol : Protocol) (subject : TypeHash)
    (chain : ScopeChain) (span : Span) : Except LookupFault ProtocolMatch := do
  let steps ← registry.discoverFrom chain span [(.subject, subject)] protocol.steps
  return ⟨protocol, steps⟩

end Registry

end ExtensionMembers
