import ExtensionMembers.Registry.Basic

/-!
# Visible extensions

An extension is visible from a place if some level of the scope chain reaches the namespace it is
declared in. The extensions that the same level reaches first make up a tier; tiers are ranked
like levels, innermost first, and none is empty.

* `Registry.depthOf?`: the rank of an extension seen from a place.
* `Registry.tiers`: the visible extensions of a type.

## References

- Specification, §4.2, Scope Visibility Resolver (`visible_units`)
-/

namespace ExtensionMembers

namespace Registry

/-- The innermost level of a chain that reaches an extension: `ScopeChain.depthOf?` of its
namespace. -/
def depthOf? (registry : Registry) (chain : ScopeChain) (extension : Extension) : Option Nat :=
  (registry.namespaceOf? extension).bind chain.depthOf?

/-- The valid extensions of a type (`extensionsOf`) that a level of a chain is the first to
reach. -/
def tierAt (registry : Registry) (hash : TypeHash) (chain : ScopeChain) (depth : Nat) :
    List Extension :=
  (registry.extensionsOf hash).filter fun extension =>
    extension.isValid && registry.depthOf? chain extension == some depth

/-- The engine's `visible_units` (specification, §4.2): the visible extensions of a type, tier by
tier, each tier in declaration order. -/
def tiers (registry : Registry) (hash : TypeHash) (chain : ScopeChain) : List (List Extension) :=
  ((List.range chain.levels.length).map (registry.tierAt hash chain)).filter (· ≠ [])

end Registry

end ExtensionMembers
