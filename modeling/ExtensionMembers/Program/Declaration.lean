import ExtensionMembers.Member.NamedType
import ExtensionMembers.Program.TypeExpr

/-!
# Source files

A source file is a list of items: namespace blocks, which hold items in turn, using directives,
type declarations and extension declarations.

* `SourceFile`, `Item`: the tree that the caller hands in.
* `Item.ofUsing?`: the path of a using directive.

## References

- Specification, §2.1, Workspace layout, and §6, External Interfaces (the input)
-/

namespace ExtensionMembers

/-- A parameter as written, the engine's `ParamSyntax`; `NamespaceTree.param` gives its meaning. -/
structure WrittenParam where
  /-- The name. -/
  name : String
  /-- The type; that of a gathering parameter is already an array. -/
  type : TypeExpr
  /-- The default. -/
  default : Option Constant
  /-- Whether it gathers the remaining positional arguments. -/
  isVariadic : Bool
  /-- Whether it is marked as the receiver. -/
  isReceiver : Bool
deriving DecidableEq, Inhabited

/-- A parameter that gathers the remaining positional arguments into an array. -/
def WrittenParam.gathering (param : WrittenParam) : WrittenParam :=
  { param with isVariadic := true, type := .array param.type .unplaced }

/-- A foreign function as written, the engine's `ForeignAttr`; without an entry it has the name of
the member. -/
structure WrittenImport where
  /-- The library that holds it. -/
  library : String
  /-- The name it has there. -/
  entry : Option String
deriving DecidableEq, Inhabited

/-- A member as written, the engine's `MemberSyntax`; `NamespaceTree.member` gives its meaning. -/
structure WrittenMember where
  /-- The category. -/
  category : MemberCategory
  /-- The name. -/
  name : String
  /-- Whether it is marked as static. -/
  isStatic : Bool
  /-- The parameters. -/
  params : List WrittenParam
  /-- The type of the result, or of the property. -/
  result : Option TypeExpr
  /-- The accessors, which count for properties and indexers only. -/
  accessors : Accessors
  /-- Who may use it. -/
  audience : Audience
  /-- The foreign function it stands for. -/
  foreign : Option WrittenImport
  /-- The place. -/
  span : Span
deriving DecidableEq, Inhabited

/-- The kind of a type as written, the engine's `TypeDeclKind`. -/
inductive WrittenKind where
  /-- A class. -/
  | plainClass
  /-- A struct. -/
  | struct
  /-- An interface. -/
  | interface
  /-- An enumeration. -/
  | enum
  /-- A class with static members only. -/
  | staticClass
  /-- A delegate. -/
  | delegate
deriving DecidableEq, Inhabited

/-- The engine's `type_kind`: the kind of the declared type. -/
def WrittenKind.typeKind : WrittenKind → TypeKind
  | plainClass => .plainClass
  | struct => .struct
  | interface => .interface
  | enum => .enum
  | staticClass => .staticClass
  | delegate => .delegate

/-- The declaration of a type, the engine's `TypeDecl`. -/
structure TypeDeclaration where
  /-- The kind. -/
  kind : WrittenKind
  /-- The simple name. -/
  name : String
  /-- The base. -/
  base : Option TypeExpr
  /-- The members. -/
  members : List WrittenMember
  /-- The place. -/
  span : Span
deriving DecidableEq, Inhabited

/-- The declaration of an extension, the engine's `AugmentationDecl`. -/
structure ExtensionDeclaration where
  /-- The simple name. -/
  name : String
  /-- The type to extend, if one is named. -/
  target : Option TypeExpr
  /-- The names that stand for type parameters. -/
  typeParameters : List String
  /-- The members. -/
  members : List WrittenMember
  /-- The place. -/
  span : Span
deriving DecidableEq, Inhabited

/-- An item of a file or namespace block, the engine's `Item`. -/
inductive Item where
  /-- A namespace block with its path relative to the scope around it. -/
  | block (path : NamespacePath) (items : List Item)
  /-- A using directive. -/
  | importing (path : NamespacePath)
  /-- A type declaration. -/
  | type (declaration : TypeDeclaration)
  /-- An extension declaration. -/
  | extension (declaration : ExtensionDeclaration)

/-- The path of a using directive, `Item.importing`. -/
def Item.ofUsing? : Item → Option NamespacePath
  | importing path => some path
  | _ => none

/-- A source file, the engine's `SourceFile`. -/
structure SourceFile where
  /-- The number given by the caller. -/
  id : FileId
  /-- The name. -/
  name : String
  /-- The items. -/
  items : List Item

end ExtensionMembers
