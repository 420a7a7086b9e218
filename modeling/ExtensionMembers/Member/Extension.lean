import ExtensionMembers.Member.NamedType

/-!
# Extensions

An extension attaches members to a type declared elsewhere. It declares a type of its own, whose
static members its members become once calls are lowered.

* `Extension.extendedHash?`: the declared type that an extension extends.

## References

- Specification, §3, Data Model (`AugmentationUnit`)
-/

namespace ExtensionMembers

/-- A declaration that attaches members to an existing type, the `AugmentationUnit` of the
specification (§3). -/
structure Extension where
  /-- The identity, which also gives the declaration order. -/
  id : ExtensionId
  /-- The qualified name, shared by the type that the extension declares for itself. -/
  name : QualifiedName
  /-- The extended type, if the declaration names one. -/
  extended : Option TypeRef
  /-- The scope of the declaration. -/
  scope : ScopeId
  /-- The members attached. -/
  members : List Member
  /-- Whether the extended type can have static members only. -/
  isStaticOnly : Bool
  /-- Whether the extension breaks no rule; one that does is never visible. -/
  isValid : Bool
  /-- Where it is declared. -/
  span : Span
deriving DecidableEq, Inhabited

namespace Extension

/-- An extension of which only the declaration is known; `Assembly.signExtension` fills in the
rest. -/
def declared (id : ExtensionId) (name : QualifiedName) (scope : ScopeId) (span : Span) :
    Extension :=
  ⟨id, name, none, scope, [], false, true, span⟩

/-- The hash of the type that the extension declares for itself, `Extension.ownType`. -/
def hash (extension : Extension) : TypeHash := extension.name.hash

/-- The engine's `extended_hash`: the declared type that the extension extends, if `extended` names
one (`TypeRef.namedHash?`). -/
def extendedHash? (extension : Extension) : Option TypeHash :=
  extension.extended.bind (·.namedHash?)

/-- The type that the extension declares for itself, the `TypeEntry` of kind `Augmentation` of the
specification (§3.1). -/
def ownType (extension : Extension) : NamedType :=
  .bare extension.name .extension extension.span

end Extension

end ExtensionMembers
