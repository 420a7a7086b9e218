import ExtensionMembers.Member.Basic
import ExtensionMembers.Name.Qualified

/-!
# Declared types

A declared type has a qualified name, which fixes its hash, a kind, perhaps a base, and members.

* `NamedType.member?`: the first member that answers to a name, a category and an arity.

## References

- Specification, §3.1, Real types (`TypeEntry`)
-/

namespace ExtensionMembers

/-- The kind of a declared type, the `TypeKind` of the specification (§3.1). -/
inductive TypeKind where
  /-- A type that exists without a declaration. -/
  | builtIn
  /-- A class. -/
  | plainClass
  /-- A struct. -/
  | struct
  /-- An interface. -/
  | interface
  /-- An enumeration. -/
  | enum
  /-- A class with static members only. -/
  | staticClass
  /-- A delegate. -/
  | delegate
  /-- The type that an extension declares for itself. -/
  | extension
deriving DecidableEq, Inhabited

/-- The words for a kind of type; in source programs extensions are called augmentations. -/
def TypeKind.text : TypeKind → String
  | builtIn => "primitive"
  | plainClass => "class"
  | struct => "struct"
  | interface => "interface"
  | enum => "enum"
  | staticClass => "static class"
  | delegate => "delegate"
  | extension => "augmentation"

/-- A declared type with its own members, the `TypeEntry` of the specification (§3.1). -/
structure NamedType where
  /-- The qualified name. -/
  name : QualifiedName
  /-- The kind. -/
  kind : TypeKind
  /-- The base, which need not be registered. -/
  base : Option TypeHash
  /-- The members declared by the type itself. -/
  members : List Member
  /-- Where it is declared. -/
  span : Span
deriving DecidableEq, Inhabited

namespace NamedType

/-- A type without base and members. -/
def bare (name : QualifiedName) (kind : TypeKind) (span : Span) : NamedType :=
  ⟨name, kind, none, [], span⟩

/-- The hash of the type, that of its `name`; the `Registry` knows the type by it. -/
def hash (type : NamedType) : TypeHash := type.name.hash

/-- Whether the type can have static members only, which `TypeKind.staticClass` says. -/
def isStaticOnly (type : NamedType) : Bool := type.kind = .staticClass

/-- The engine's `find_member`: the first member with this name and category that accepts the arity
(`Member.acceptsArity`); no arity accepts all. `Registry.declared?`, in contrast, leaves the
category aside. -/
def member? (type : NamedType) (name : String) (category : MemberCategory)
    (arity : Option Nat) : Option Member :=
  type.members.find? fun member =>
    member.name = name && member.category = category && arity.all member.acceptsArity

end NamedType

end ExtensionMembers
