/-!
# Namespace paths

A path lists the simple names from the outermost namespace inwards; the empty path is that of the
global namespace. In text the names are joined by `::`, and a text is split at each `::`, leftmost
first, with empty pieces dropped.

* `splitPath`: the path written in a text.
* `joinPath`: the text of a path.

## References

- Specification, §2.1, Workspace layout (`QualifiedName`)
-/

namespace ExtensionMembers

/-- The simple names of the enclosing namespaces, outermost first. -/
abbrev NamespacePath := List String

/-- The piece in front of the rest, unless it is empty; a step of `splitPieces`. -/
def keepPiece (piece : List Char) (rest : List (List Char)) : List (List Char) :=
  if piece = [] then rest else piece :: rest

/-- The nonempty pieces of `piece` followed by a text, cut at each pair of colons. -/
def splitPieces (piece : List Char) : List Char → List (List Char)
  | [] => keepPiece piece []
  | ':' :: ':' :: rest => keepPiece piece (splitPieces [] rest)
  | char :: rest => splitPieces (piece ++ [char]) rest

/-- The path written in a text: its nonempty pieces between pairs of colons. -/
def splitPath (text : String) : NamespacePath :=
  (splitPieces [] text.toList).map String.ofList

/-- The text of a path, its names joined by `::`. -/
def joinPath (path : NamespacePath) : String := "::".intercalate path

end ExtensionMembers
