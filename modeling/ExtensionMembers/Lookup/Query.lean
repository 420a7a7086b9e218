import ExtensionMembers.Call.Site

/-!
# Member queries

A query asks for a member of a type by name, category and arity, either for a value of the type or
for the type itself.

* `MemberQuery.collides`: whether a member has the name and accepts the arity.
* `MemberQuery.selects`: whether it has the category as well.
* `MemberQuery.ofSite`: the query of a use site.

## References

- Specification, §4.3, Member Merge Resolver (the arguments of `resolve`)
-/

namespace ExtensionMembers

/-- A question for a member, the engine's `MemberQuery`. -/
structure MemberQuery where
  /-- The type asked. -/
  receiver : TypeHash
  /-- Whether the type itself is asked, and not a value of it. -/
  isStatic : Bool
  /-- The name. -/
  name : String
  /-- The category. -/
  category : MemberCategory
  /-- The number of arguments; none accepts every member. -/
  arity : Option Nat
deriving DecidableEq, Inhabited

namespace MemberQuery

/-- The engine's `for_site`: the query of a use of one member. -/
def ofSite (site : AccessSite) : MemberQuery where
  receiver := site.access.target
  isStatic := site.access.isStatic
  name := site.member
  category := site.shape.category
  arity := site.shape.arity

/-- The engine's `collides`: whether a member has the name asked for and accepts the arity, whatever
its category. -/
def collides (query : MemberQuery) (member : Member) : Bool :=
  member.name = query.name && query.arity.all member.acceptsArity

/-- The engine's `matches`: whether a member has the name and category asked for and accepts the
arity. -/
def selects (query : MemberQuery) (member : Member) : Bool :=
  query.collides member && member.category = query.category

end MemberQuery

end ExtensionMembers
