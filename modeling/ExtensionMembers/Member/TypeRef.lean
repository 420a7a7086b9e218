import ExtensionMembers.Name.TypeHash

/-!
# Type references

A type reference is what a written type means once names are resolved.

* `TypeRef.namedHash?`: the declared type that a reference names.

## References

- Specification, §2.1, Workspace layout (`TypeRef`), and §3, Data Model (`ExtendedType`)
-/

namespace ExtensionMembers

/-- A resolved reference to a type, the engine's `TypeRef`. -/
inductive TypeRef where
  /-- No value. -/
  | void
  /-- A declared type. -/
  | named (hash : TypeHash)
  /-- A pointer to another type. -/
  | pointer (target : TypeRef)
  /-- An array of another type. -/
  | array (element : TypeRef)
  /-- A type parameter of the enclosing declaration. -/
  | parameter (name : String)
  /-- The type whose members are looked up when the program runs. -/
  | dynamic
  /-- A name, as written, that means no type or, if `ambiguous`, several. -/
  | unresolved (name : String) (ambiguous : Bool)
deriving DecidableEq, Inhabited

namespace TypeRef

/-- The engine's `named_hash`: the declared type that the reference names itself, not below a
pointer or array. -/
def namedHash? : TypeRef → Option TypeHash
  | named hash => some hash
  | _ => none

/-- Whether the reference is `unresolved`: a name without a meaning. -/
def isUnresolved : TypeRef → Bool
  | unresolved _ _ => true
  | _ => false

end TypeRef

end ExtensionMembers
