import ExtensionMembers.Text.Digest
import ExtensionMembers.Text.Hex

/-!
# Type hashes

Types, members and identifiers are known by 64-bit hashes of their names, so that a reference can
be made before the thing it names is declared. Each kind of hash is marked by a word of its own.

* `TypeHash.ofName`: the hash of a type, from its qualified name.
* `TypeHash.ofMember`: the hash of a member, from its owner, name and number of parameters.
* `BuiltIn.names`: the types that exist without a declaration.

## References

- Specification, §3.1, Real types, and §10.4, Hashing and collections
-/

namespace ExtensionMembers

/-- The digest of a text: `Text.digest` of its UTF-8 bytes. -/
def textDigest (text : String) : UInt64 := Text.digest text.toUTF8.toList

/-- The identity of a type or member, the engine's `TypeHash`. -/
structure TypeHash where
  /-- The hash itself. -/
  word : UInt64
deriving DecidableEq, Inhabited

namespace TypeHash

/-- The mark of type hashes, which `TypeHash.ofName` mixes in. -/
def typeMark : UInt64 := 0x2fac10b63a6cc57c
/-- The mark of member hashes, which `TypeHash.ofMember` mixes in. -/
def memberMark : UInt64 := 0x7d3c8b4a92e15f6d
/-- The mark of identifier hashes, which `TypeHash.ofIdentifier` mixes in. -/
def identifierMark : UInt64 := 0x1a095090689d4647
/-- The odd factor by which `TypeHash.ofMember` keeps a member's name and its parameter count
apart. -/
def memberFactor : UInt64 := 0x4bc94d6bd06053ad

/-- The engine's `EMPTY`, the hash that belongs to nothing. -/
def empty : TypeHash := ⟨0⟩

/-- Whether this is the hash that belongs to nothing. -/
def isEmpty (hash : TypeHash) : Bool := hash.word == 0

/-- The engine's `from_name`: the hash of the type with this qualified name. -/
def ofName (name : String) : TypeHash := ⟨typeMark ^^^ textDigest name⟩

/-- The engine's `from_ident`: the hash of a bare identifier. -/
def ofIdentifier (name : String) : TypeHash := ⟨identifierMark ^^^ textDigest name⟩

/-- The engine's `from_member`: the hash of a member, by `owner`, `name` and number of declared
`parameters`. -/
def ofMember (owner : TypeHash) (name : String) (parameters : Nat) : TypeHash :=
  ⟨(memberMark ^^^ owner.word ^^^ textDigest name) * memberFactor + UInt64.ofNat parameters⟩

/-- The hash in hexadecimal. -/
def text (hash : TypeHash) : String := "0x" ++ Text.hexWord hash.word

/-- The hash marked as one. -/
def marked (hash : TypeHash) : String := "TypeHash(" ++ hash.text ++ ")"

/-- The hash of the built-in type of no value; a name with this hash is referred to by
`TypeRef.void`. -/
def void : TypeHash := ofName "void"

end TypeHash

namespace BuiltIn

/-- The built-in types, all in the global namespace (specification, §3.1); `Registry.withBuiltIns`
registers them. -/
def names : List String := ["void", "bool", "int", "double", "string", "object"]

/-- The name of the built-in type with this hash. -/
def name? (hash : TypeHash) : Option String := names.find? fun name => TypeHash.ofName name = hash

end BuiltIn

end ExtensionMembers
