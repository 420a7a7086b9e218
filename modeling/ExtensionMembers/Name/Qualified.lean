import ExtensionMembers.Name.Path
import ExtensionMembers.Name.TypeHash

/-!
# Qualified names

A qualified name is a simple name with the path of the namespace it is declared in.

* `QualifiedName.parse`: the name written in a text.
* `QualifiedName.text`: the text of a name, on which its type hash rests.

## References

- Specification, §2.1, Workspace layout (`QualifiedName`)
-/

namespace ExtensionMembers

/-- A simple name within a namespace, the engine's `QualifiedName`. -/
structure QualifiedName where
  /-- The path of the namespace. -/
  path : NamespacePath
  /-- The simple name. -/
  name : String
deriving DecidableEq, Inhabited

namespace QualifiedName

/-- A name in the global namespace. -/
def global (name : String) : QualifiedName := ⟨[], name⟩

/-- The engine's `from_qualified_string`: the last piece of the text (`splitPath`) is the simple
name, the pieces before it are the path. A text without pieces is the empty global name. -/
def parse (text : String) : QualifiedName :=
  let pieces := splitPath text
  ⟨pieces.dropLast, pieces.getLast?.getD ""⟩

/-- Whether the name lies in the global namespace. -/
def isGlobal (name : QualifiedName) : Bool := name.path.isEmpty

/-- The text of `name` within `path`: the path (`joinPath`) and the name, with `::` between them. -/
def textWithin (path : NamespacePath) (name : String) : String :=
  if path = [] then name else joinPath path ++ "::" ++ name

/-- The text of a name, on which `QualifiedName.hash` rests. -/
def text (name : QualifiedName) : String := textWithin name.path name.name

/-- The name with points between its pieces. -/
def dotted (name : QualifiedName) : String :=
  String.join (name.path.map (· ++ ".")) ++ name.name

/-- The engine's `to_type_hash`: `TypeHash.ofName` of the text of the name. -/
def hash (name : QualifiedName) : TypeHash := TypeHash.ofName name.text

end QualifiedName

end ExtensionMembers
