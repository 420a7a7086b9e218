import ExtensionMembers.Member.Basic

/-!
# Use sites

A use site is a place in a program that uses a member: it calls, reads or assigns it, or turns a
method into a delegate. Expressions are known by number only, receivers also by their static type.

* `Access`: how the member is reached, through a value or through a type.
* `AccessShape`: what is done with it; the shape fixes the category and arity of the look-up.
* `AccessSite`, `ProtocolSite`: a use of one member, and a construct that uses several.

## References

- Specification, §3.2, Access sites (`AccessSite`)
-/

namespace ExtensionMembers

/-- An argument as written, the `Argument` of the specification (§3.2). -/
structure Argument where
  /-- The parameter it is for, if it is named. -/
  name : Option String
  /-- The expression passed. -/
  value : ExprId
  /-- The place. -/
  span : Span
deriving DecidableEq, Inhabited

/-- How a member is reached, the `access` of the specification (§3.2). -/
inductive Access where
  /-- Through a value of a static type. -/
  | onValue (receiver : ExprId) (type : TypeHash)
  /-- Through a type, which may be that of an extension. -/
  | onType (qualifier : TypeHash)
deriving DecidableEq, Inhabited

namespace Access

/-- Whether the member is reached through a type. -/
def isStatic : Access → Bool
  | onValue _ _ => false
  | onType _ => true

/-- The engine's `target_type`: the type in which the look-up starts. -/
def target : Access → TypeHash
  | onValue _ type => type
  | onType qualifier => qualifier

/-- The receiver, if there is one. -/
def receiver? : Access → Option ExprId
  | onValue receiver _ => some receiver
  | onType _ => none

end Access

/-- What is done with a member, the `shape` of the specification (§3.2). -/
inductive AccessShape where
  /-- A call. -/
  | invoke (args : List Argument)
  /-- The reading of a property. -/
  | get
  /-- The assignment of a property. -/
  | set (value : ExprId)
  /-- The reading of an indexer. -/
  | indexGet (args : List Argument)
  /-- The assignment of an indexer. -/
  | indexSet (args : List Argument) (value : ExprId)
  /-- The conversion of a method to a delegate, whose number of parameters may be known. -/
  | methodGroup (arity : Option Nat)
deriving DecidableEq, Inhabited

/-- The kind of use, the engine's `AccessKind`: an `AccessShape` without its expressions. -/
inductive AccessKind where
  /-- A call. -/
  | invoke
  /-- The reading of a property. -/
  | get
  /-- The assignment of a property. -/
  | set
  /-- The reading of an indexer. -/
  | indexGet
  /-- The assignment of an indexer. -/
  | indexSet
  /-- The conversion of a method to a delegate. -/
  | methodGroup
deriving DecidableEq, Inhabited

namespace AccessKind

/-- The accessor that a use needs, if it is the use of a property or indexer. -/
def accessor? : AccessKind → Option Accessor
  | get | indexGet => some .get
  | set | indexSet => some .set
  | invoke | methodGroup => none

/-- The symbol under which a member is emitted for this use. -/
def symbol (kind : AccessKind) (member : String) : String :=
  match kind.accessor? with
  | some accessor => accessor.text ++ "_" ++ member
  | none => member

end AccessKind

namespace AccessShape

/-- The kind of use. -/
def kind : AccessShape → AccessKind
  | invoke _ => .invoke
  | get => .get
  | set _ => .set
  | indexGet _ => .indexGet
  | indexSet _ _ => .indexSet
  | methodGroup _ => .methodGroup

/-- The category looked up. -/
def category : AccessShape → MemberCategory
  | invoke _ | methodGroup _ => .method
  | get | set _ => .property
  | indexGet _ | indexSet _ _ => .indexer

/-- The arity looked up; none accepts every number of parameters. -/
def arity : AccessShape → Option Nat
  | invoke args | indexGet args | indexSet args _ => some args.length
  | get | set _ => some 0
  | methodGroup arity => arity

/-- The arguments in the order written. -/
def args : AccessShape → List Argument
  | invoke args | indexGet args | indexSet args _ => args
  | get | set _ | methodGroup _ => []

/-- The value assigned. -/
def assigned? : AccessShape → Option ExprId
  | set value | indexSet _ value => some value
  | invoke _ | get | indexGet _ | methodGroup _ => none

end AccessShape

/-- A use of one member, the `AccessSite` of the specification (§3.2). -/
structure AccessSite where
  /-- The number given by the caller. -/
  id : SiteId
  /-- The place. -/
  span : Span
  /-- The scope of the place. -/
  scope : ScopeId
  /-- How the member is reached. -/
  access : Access
  /-- The name of the member. -/
  member : String
  /-- What is done with it. -/
  shape : AccessShape
deriving DecidableEq, Inhabited

/-- A construct that uses several members of one subject, the engine's `ProtocolUse`. -/
inductive ProtocolUse where
  /-- A loop over the elements of the subject. -/
  | iterate
  /-- A wait for the subject. -/
  | await
  /-- An object with initial elements, each added with arguments of its own (`CollectionInit`). -/
  | addElements (elements : List (List Argument))
deriving DecidableEq, Inhabited

/-- A place where a `ProtocolUse` stands, the engine's `ProtocolSite`. -/
structure ProtocolSite where
  /-- The number given by the caller. -/
  id : SiteId
  /-- The place. -/
  span : Span
  /-- The scope of the place. -/
  scope : ScopeId
  /-- The expression used. -/
  subject : ExprId
  /-- The static type of that expression. -/
  type : TypeHash
  /-- The construct. -/
  construct : ProtocolUse
deriving DecidableEq, Inhabited

end ExtensionMembers
