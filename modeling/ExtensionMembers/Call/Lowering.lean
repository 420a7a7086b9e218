import ExtensionMembers.Call.Form
import ExtensionMembers.Fault

/-!
# Lowering uses of members

Each use evaluates its receiver, then its arguments in the order written, then the value it
assigns, whether or not the use makes sense; then comes one call form. A use that fails has the
form of an error and one diagnostic.

* `AccessSite.sources`: what the prelude of a use evaluates.
* `Registry.formOf`: the form of a use, or what is wrong with it.
* `Registry.lowerAccess`, `Registry.lowerSite`: the lowered use with its diagnostics.

## References

- Specification, §4.5, Lowering / Rewriter (`LoweredAccess`), and §7, Error Handling Design
-/

namespace ExtensionMembers

namespace AccessSite

/-- What the prelude of a use evaluates, in order. -/
def sources (site : AccessSite) : List TempSource :=
  (site.access.receiver?.map TempSource.receiver).toList ++ argumentSources site.shape.args
    ++ (site.shape.assigned?.map TempSource.assigned).toList

/-- The number of the temporary of the first argument. -/
def firstArgument (site : AccessSite) : Nat := if site.access.isStatic then 0 else 1

/-- The temporary of the receiver. -/
def receiverOperand? (site : AccessSite) : Option Operand :=
  if site.access.isStatic then none else some (.temp ⟨0⟩)

/-- The temporary of the assigned value. -/
def assignedOperand? (site : AccessSite) : Option Operand :=
  site.shape.assigned?.map fun _ => .temp ⟨site.firstArgument + site.shape.args.length⟩

end AccessSite

/-- The engine's `check_accessor`: the accessor that a use of a member needs and the member lacks.
Methods have no accessors. -/
def Member.missingAccessor? (member : Member) (kind : AccessKind) : Option Accessor :=
  if member.category = .method then none
  else kind.accessor?.filter fun accessor => !member.accessors.has accessor

/-- The operands for the parameters of a member, by `bind`. A property and a method made a delegate
take none, whatever the arguments. -/
def Member.operands (member : Member) (site : AccessSite) : Except CallFault (List Operand) :=
  if site.shape.kind = .methodGroup || member.category = .property then .ok []
  else do
    let slots ← bind member.params site.shape.args site.span
    return slots.map (·.operand site.firstArgument)

/-- A lowered use of a member, the `LoweredAccess` of the specification (§4.5). -/
structure LoweredAccess where
  /-- The use. -/
  site : SiteId
  /-- The temporaries, in the order of evaluation. -/
  prelude : List Temp
  /-- The call. -/
  form : CallForm
deriving DecidableEq, Inhabited

namespace Registry

/-- The fault of a use that did not find one member: `lookupFault?`, or that nothing was found, so
that `lowerAccess` always has a fault to note. -/
def siteFault (registry : Registry) (site : AccessSite) (resolution : Resolution) : Fault :=
  .lookup <| (registry.lookupFault? (.ofSite site) site.span resolution).getD
    ⟨site.span, .notFound (.global site.access.target.text) site.member 0⟩

/-- The form of a use that resolved in this way, or what is wrong with it: the look-up first, then
the accessor (`Member.missingAccessor?`), then the arguments (`Member.operands`). -/
def formOf (registry : Registry) (site : AccessSite) (resolution : Resolution) :
    Except Fault CallForm :=
  match resolution.member? with
  | none => .error (registry.siteFault site resolution)
  | some member =>
    match member.missingAccessor? site.shape.kind with
    | some accessor => .error (.lookup ⟨site.span, .accessorMissing member.name accessor⟩)
    | none =>
      match member.operands site with
      | .error fault => .error (.call fault)
      | .ok operands => .ok (.ofResolution site.shape.kind site.receiverOperand?
          (operands ++ site.assignedOperand?.toList) resolution)

/-- The engine's `lower_access` (specification, §4.5): a use that resolved in this way, lowered,
with its diagnostics. -/
def lowerAccess (registry : Registry) (site : AccessSite) (resolution : Resolution) :
    LoweredAccess × Report :=
  match registry.formOf site resolution with
  | .ok form => (⟨site.id, prelude site.sources, form⟩, .empty)
  | .error fault => (⟨site.id, prelude site.sources, .error⟩, ⟨[fault.diagnostic]⟩)

/-- The engine's `resolve_site`: a use of a member resolved (`resolve`) and lowered (`lowerAccess`),
with its diagnostics. -/
def lowerSite (registry : Registry) (site : AccessSite) : LoweredAccess × Report :=
  registry.lowerAccess site (registry.resolve (.ofSite site) (registry.chain site.scope))

/-- The engine's `run`: uses of members resolved and lowered one by one, with their diagnostics in
the same order. -/
def lowerSites (registry : Registry) (sites : List AccessSite) : List LoweredAccess × Report :=
  let lowered := sites.map registry.lowerSite
  (lowered.map (·.1), .concat (lowered.map (·.2)))

end Registry

end ExtensionMembers
