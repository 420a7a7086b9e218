import ExtensionMembers.Namespace.TypeName
import ExtensionMembers.Program.Declaration

/-!
# Signatures

Written types and members get their meaning at a place: names are resolved along the scope chain,
and a name without a path that is one of the type parameters means that parameter.

* `NamespaceTree.typeRef`: the meaning of a written type.
* `NamespaceTree.member`: the member that a written member declares.

## References

- Specification, §3, Data Model (`MemberDecl`, `ExtendedType`)
-/

namespace ExtensionMembers

/-- The reference for a written name with this meaning. The type of no value is no declared type to
refer to, and a name without one meaning is kept as written (`TypeRef.unresolved`). -/
def NameMeaning.typeRef (pieces : List String) : NameMeaning → TypeRef
  | found hash => if hash = TypeHash.void then .void else .named hash
  | ambiguous _ => .unresolved (joinPath pieces) true
  | notFound => .unresolved (joinPath pieces) false

namespace NamespaceTree

/-- The meaning of a written name: a type parameter, or what `resolveType` gives. -/
def namedRef (tree : NamespaceTree) (chain : ScopeChain) (parameters : List String)
    (pieces : List String) : TypeRef :=
  match pieces with
  | [name] =>
    if name ∈ parameters then .parameter name else (tree.resolveType [name] chain).typeRef [name]
  | pieces => (tree.resolveType pieces chain).typeRef pieces

/-- The engine's `resolve_type_expr`: the meaning of a written type. -/
def typeRef (tree : NamespaceTree) (chain : ScopeChain) (parameters : List String) :
    TypeExpr → TypeRef
  | .named pieces _ => tree.namedRef chain parameters pieces
  | .pointer target _ => .pointer (tree.typeRef chain parameters target)
  | .array element _ => .array (tree.typeRef chain parameters element)
  | .dynamic _ => .dynamic

/-- The parameter that a written parameter declares, its type resolved by `typeRef`. -/
def param (tree : NamespaceTree) (chain : ScopeChain) (parameters : List String)
    (written : WrittenParam) : Param where
  name := written.name
  type := tree.typeRef chain parameters written.type
  default := written.default
  isVariadic := written.isVariadic
  isReceiver := written.isReceiver

end NamespaceTree

namespace WrittenMember

/-- The engine's `member_kind`. Indexers are never static, and only a static method with a foreign
function is a foreign binding. -/
def kind (written : WrittenMember) : MemberKind :=
  match written.category, written.isStatic with
  | .method, true => if written.foreign.isSome then .foreignBinding else .staticMethod
  | .method, false => .instanceMethod
  | .property, true => .staticProperty
  | .property, false => .instanceProperty
  | .indexer, _ => .instanceIndexer

/-- The foreign function of the member. -/
def foreignImport (written : WrittenMember) : Option ForeignImport :=
  written.foreign.map fun foreign => ⟨foreign.library, foreign.entry.getD written.name⟩

/-- The accessors of the member; a method has none. -/
def declaredAccessors (written : WrittenMember) : Accessors :=
  if written.category = .method then ⟨false, false⟩ else written.accessors

end WrittenMember

/-- The engine's `lower_member`: the member that a written member declares. -/
def NamespaceTree.member (tree : NamespaceTree) (chain : ScopeChain) (parameters : List String)
    (written : WrittenMember) : Member where
  name := written.name
  kind := written.kind
  params := written.params.map (tree.param chain parameters)
  result := (written.result.map (tree.typeRef chain parameters)).getD .void
  audience := written.audience
  accessors := written.declaredAccessors
  foreign := written.foreignImport
  span := written.span

end ExtensionMembers
