import ExtensionMembers.Fault.Lookup
import ExtensionMembers.Lookup.Query
import ExtensionMembers.Lookup.Visibility

/-!
# Resolving members

A member of the type or of one of its bases always goes before those of extensions, whatever its
category. Otherwise the innermost tier with an extension that offers the member decides: one such
extension supplies it, several are ambiguous. A type that an extension declares for itself is
asked for the static members of that extension and nothing else.

* `Registry.declared?`: the member that a type or one of its bases declares.
* `Registry.offers`: the members that the extensions of a tier offer.
* `Registry.resolve`: the answer to a query.

## References

- Specification, §3, Data Model (`ResolutionResult`), and §4.3, Member Merge Resolver (`resolve`)
-/

namespace ExtensionMembers

/-- The answer to a member query, the `ResolutionResult` of the specification (§3). -/
inductive Resolution where
  /-- A member that a type declares, `RealMember`. -/
  | declared (owner : NamedType) (member : Member)
  /-- A member that an extension supplies, `AugmentationMember`. -/
  | supplied (extension : Extension) (member : Member)
  /-- Several extensions of one tier supply a member. -/
  | ambiguous (candidates : List (Extension × Member))
  /-- Nothing supplies a member. -/
  | notFound
deriving DecidableEq, Inhabited

namespace Resolution

/-- The one member found. -/
def member? : Resolution → Option Member
  | declared _ member | supplied _ member => some member
  | ambiguous _ | notFound => none

/-- Whether one member was found. -/
def isFound (resolution : Resolution) : Bool := resolution.member?.isSome

/-- The answer if these are the candidates of the deciding tier: one is `supplied`, several are
`ambiguous`. -/
def ofCandidates : List (Extension × Member) → Resolution
  | [] => notFound
  | [candidate] => supplied candidate.1 candidate.2
  | candidates => ambiguous candidates

end Resolution

/-- The engine's `find_augmentation_member`: the first member of an extension that answers a
query. -/
def Extension.member? (extension : Extension) (query : MemberQuery) : Option Member :=
  extension.members.find? fun member =>
    member.isStatic == query.isStatic && query.selects member

namespace Registry

/-- The engine's `find_real` (specification, §4.3): the first member with the name and arity of a
query that the type asked or one of its `bases` declares, with the type that declares it. Neither
the category nor static-ness is compared. -/
def declared? (registry : Registry) (query : MemberQuery) : Option (NamedType × Member) :=
  (registry.bases query.receiver).findSome? fun owner =>
    (owner.members.find? query.collides).map (owner, ·)

/-- The members that some extensions offer for a query (`Extension.member?`), one for each extension
that has any. -/
def offers (query : MemberQuery) (extensions : List Extension) : List (Extension × Member) :=
  extensions.filterMap fun extension => (extension.member? query).map (extension, ·)

/-- The answer of the first tier with any `offers`. -/
def resolveInTiers (query : MemberQuery) : List (List Extension) → Resolution
  | [] => .notFound
  | tier :: outer =>
    if offers query tier = [] then resolveInTiers query outer
    else .ofCandidates (offers query tier)

/-- The engine's `resolve_in_unit`: the answer if the type asked is the own type of an extension. -/
def resolveWithin (query : MemberQuery) (extension : Extension) : Resolution :=
  if extension.isValid then
    match extension.member? query with
    | some member => .supplied extension member
    | none => .notFound
  else .notFound

/-- The extension whose own type a query asks for static members; `resolveWithin` answers for it. -/
def qualifyingExtension? (registry : Registry) (query : MemberQuery) : Option Extension :=
  if query.isStatic then registry.extensionOfType? query.receiver else none

/-- The engine's `resolve` (specification, §4.3): the answer to a query at a place with this
chain. -/
def resolve (registry : Registry) (query : MemberQuery) (chain : ScopeChain) : Resolution :=
  match registry.qualifyingExtension? query with
  | some extension => resolveWithin query extension
  | none =>
    -- Declared members are looked for by name and arity alone, extensions only after them.
    match registry.declared? query with
    | some (owner, member) => .declared owner member
    | none => resolveInTiers query (registry.tiers query.receiver chain)

/-- The engine's `shadowed_members`: the members of an extension that a declared member of the
extended type hides. Each is asked for with its `requiredCount` as arity. -/
def hiddenMembers (registry : Registry) (extension : Extension) : List Member :=
  match extension.extendedHash? with
  | none => []
  | some target => extension.members.filter fun member =>
    (registry.declared?
      ⟨target, member.isStatic, member.name, member.category, some member.requiredCount⟩).isSome

/-- The engine's `to_error`: the fault of a query at `span` that did not find one member. -/
def lookupFault? (registry : Registry) (query : MemberQuery) (span : Span) :
    Resolution → Option LookupFault
  | .ambiguous candidates =>
    some ⟨span, .ambiguous query.name (candidates.map (·.1.name))⟩
  | .notFound =>
    let type := (registry.typeName? query.receiver).getD (.global query.receiver.text)
    some ⟨span, .notFound type query.name (query.arity.getD 0)⟩
  | .declared .. | .supplied .. => none

end Registry

end ExtensionMembers
