/-!
# Numbered identities

The engine and its caller name files, scopes, namespaces, extensions, expressions and use sites
by number. Each kind of number is a type of its own, so that none can stand for another.

* `FileId`: a compiled file; the order of files is the order of their numbers.
* `ExtensionId`: an extension, by file and by position within the file.
* `ScopeId`, `NamespaceId`: a lexical scope, a namespace.
* `ExprId`, `SiteId`: an expression and a use site, both owned by the caller.

## References

- Specification, §3, Data Model (`UnitId`), and §4.1, Augmentation Registry (`ScopeTable`)
-/

namespace ExtensionMembers

/-- A compiled file, the engine's `FileId`. Files are ordered by `FileId.index`. -/
structure FileId where
  /-- The number given by the caller. -/
  index : Nat
deriving DecidableEq, Inhabited

namespace FileId

/-- The number alone. -/
def text (file : FileId) : String := toString file.index

/-- The number marked as that of a file. -/
def marked (file : FileId) : String := "file#" ++ file.text

end FileId

/-- A lexical scope, the engine's `ScopeId`: a file root or one namespace block. -/
structure ScopeId where
  /-- The position in the scope table. -/
  index : Nat
deriving DecidableEq, Inhabited

/-- The number marked as that of a scope. -/
def ScopeId.marked (scope : ScopeId) : String := "ScopeId(" ++ toString scope.index ++ ")"

/-- A namespace, the node of the engine's `NamespaceTree`. -/
structure NamespaceId where
  /-- The position in order of creation; the global namespace has position 0. -/
  index : Nat
deriving DecidableEq, Inhabited

/-- An extension, the `UnitId` of the specification (§3): its file and its place there. -/
structure ExtensionId where
  /-- The file of the declaration. -/
  file : FileId
  /-- The position among the extensions of that file. -/
  index : Nat
deriving DecidableEq, Inhabited

namespace ExtensionId

/-- The key of the declaration order of extensions: `file` first, then `index`. -/
def key (id : ExtensionId) : List Nat := [id.file.index, id.index]

/-- The two numbers marked as those of an extension. -/
def marked (id : ExtensionId) : String :=
  "UnitId(" ++ id.file.text ++ "." ++ toString id.index ++ ")"

end ExtensionId

/-- An expression that the caller has already type-checked, the engine's `ExprId`. -/
structure ExprId where
  /-- The number given by the caller. -/
  index : Nat
deriving DecidableEq, Inhabited

/-- A use site, the engine's `SiteId`: one access, call or protocol use. -/
structure SiteId where
  /-- The number given by the caller. -/
  index : Nat
deriving DecidableEq, Inhabited

end ExtensionMembers
