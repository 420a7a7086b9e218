import ExtensionMembers.Member.Constant
import ExtensionMembers.Member.TypeRef
import ExtensionMembers.Source.Span

/-!
# Members

A member is a method, property or indexer of a type or extension. Methods and properties may be
static; a static method may stand for a foreign function.

* `MemberKind.category`, `MemberKind.isStatic`: the two ways to sort the kinds.
* `Member.requiredCount`, `Member.hasTail`: what the parameters ask of a call.
* `Member.acceptsArity`: whether a call with so many arguments can mean the member.

## References

- Specification, §3, Data Model (`MemberDecl`), and §4.3, Member Merge Resolver (arity)
-/

namespace ExtensionMembers

/-- Who may use a member, the engine's `Visibility`. -/
inductive Audience where
  /-- Everyone. -/
  | everyone
  /-- The same program. -/
  | program
  /-- The type and the types derived from it. -/
  | derivedTypes
  /-- The type alone. -/
  | ownType
deriving DecidableEq, Inhabited

/-- A declared parameter, the engine's `Param`. -/
structure Param where
  /-- The name that named arguments use. -/
  name : String
  /-- The type of the values it takes. -/
  type : TypeRef
  /-- The value taken when a call gives no argument. -/
  default : Option Constant
  /-- Whether it gathers the remaining positional arguments; this counts in last place only. -/
  isVariadic : Bool
  /-- Whether it is marked as the receiver. -/
  isReceiver : Bool
deriving DecidableEq, Inhabited

/-- The category that a look-up asks for, the engine's `MemberCategory`. -/
inductive MemberCategory where
  /-- Called with arguments. -/
  | method
  /-- Read and assigned without arguments. -/
  | property
  /-- Read and assigned with arguments. -/
  | indexer
deriving DecidableEq, Inhabited

/-- The kind of a member: the variants of the `MemberDecl` of the specification (§3). -/
inductive MemberKind where
  /-- A method on a receiver. -/
  | instanceMethod
  /-- A property of a receiver. -/
  | instanceProperty
  /-- An indexer of a receiver; there are no static indexers. -/
  | instanceIndexer
  /-- A method of the type. -/
  | staticMethod
  /-- A property of the type. -/
  | staticProperty
  /-- A static method that stands for a foreign function. -/
  | foreignBinding
deriving DecidableEq, Inhabited

namespace MemberKind

/-- Whether members of this kind belong to the type and take no receiver. -/
def isStatic : MemberKind → Bool
  | staticMethod | staticProperty | foreignBinding => true
  | instanceMethod | instanceProperty | instanceIndexer => false

/-- The category of this kind. -/
def category : MemberKind → MemberCategory
  | instanceMethod | staticMethod | foreignBinding => .method
  | instanceProperty | staticProperty => .property
  | instanceIndexer => .indexer

end MemberKind

/-- The two ways to use a property or indexer, each a flag of the engine's `Accessors`. -/
inductive Accessor where
  /-- Reading. -/
  | get
  /-- Assigning. -/
  | set
deriving DecidableEq, Inhabited

/-- The word for an accessor. -/
def Accessor.text : Accessor → String
  | get => "get"
  | set => "set"

/-- The accessors that a member declares. -/
structure Accessors where
  /-- Whether it can be read. -/
  get : Bool
  /-- Whether it can be assigned. -/
  set : Bool
deriving DecidableEq, Inhabited

namespace Accessors

/-- Whether an accessor is declared. -/
def has (accessors : Accessors) : Accessor → Bool
  | .get => accessors.get
  | .set => accessors.set

/-- The accessors of a member that says nothing about them: both, and none for methods. -/
def ofCategory : MemberCategory → Accessors
  | .method => ⟨false, false⟩
  | .property | .indexer => ⟨true, true⟩

end Accessors

/-- The foreign function behind a member of kind `MemberKind.foreignBinding`. -/
structure ForeignImport where
  /-- The library that holds it. -/
  library : String
  /-- The name it has there. -/
  entry : String
deriving DecidableEq, Inhabited

/-- A declared member, the `MemberDecl` of the specification (§3). -/
structure Member where
  /-- The simple name. -/
  name : String
  /-- The kind. -/
  kind : MemberKind
  /-- The parameters, without a receiver. -/
  params : List Param
  /-- The type of the result, or of the property. -/
  result : TypeRef
  /-- Who may use it. -/
  audience : Audience
  /-- How it can be used, if it is a property or indexer. -/
  accessors : Accessors
  /-- The foreign function it stands for. -/
  foreign : Option ForeignImport
  /-- Where it is declared. -/
  span : Span
deriving DecidableEq, Inhabited

/-- The engine's `INDEXER_NAME`, the name of every indexer. -/
def indexerName : String := "Item"

/-- The engine's `is_variadic`: whether the last parameter gathers the remaining positional
arguments. -/
def hasTail (params : List Param) : Bool := params.getLast?.any (·.isVariadic)

namespace Member

/-- Whether the member belongs to the type and takes no receiver. -/
def isStatic (member : Member) : Bool := member.kind.isStatic

/-- The category of the member. -/
def category (member : Member) : MemberCategory := member.kind.category

/-- The engine's `required_count`: the number of parameters that every call has to fill. -/
def requiredCount (member : Member) : Nat :=
  member.params.countP fun param => param.default.isNone && !param.isVariadic

/-- The engine's `accepts_arity`: whether a call with this number of arguments can mean the member,
with at least `requiredCount` of them and, unless `hasTail`, no more than there are parameters. A
property takes none. -/
def acceptsArity (member : Member) (count : Nat) : Bool :=
  if member.category = .property then count == 0
  else member.requiredCount ≤ count && (hasTail member.params || count ≤ member.params.length)

end Member

end ExtensionMembers
