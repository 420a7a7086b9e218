import ExtensionMembers.Name.Path
import ExtensionMembers.Source.Span

/-!
# Written types

A written type is a name, perhaps with the path of a namespace, or built from another one.

* `TypeExpr.parse`: the named type written in a text.
* `TypeExpr.text`: the text of a written type.

## References

- Specification, §2.1, Workspace layout, and §6, External Interfaces (the input)
-/

namespace ExtensionMembers

/-- A type as written in a program, the engine's `TypeExpr`; `NamespaceTree.typeRef` gives its
meaning. -/
inductive TypeExpr where
  /-- A name, the last of the pieces, within the path before it. -/
  | named (pieces : List String) (span : Span)
  /-- A pointer to another type. -/
  | pointer (target : TypeExpr) (span : Span)
  /-- An array of another type. -/
  | array (element : TypeExpr) (span : Span)
  /-- The type whose members are looked up when the program runs. -/
  | dynamic (span : Span)
deriving DecidableEq, Inhabited

namespace TypeExpr

/-- The named type written in a text, its pieces cut by `splitPath`. -/
def parse (text : String) : TypeExpr := named (splitPath text) .unplaced

/-- The place of a written type. -/
def span : TypeExpr → Span
  | named _ span | pointer _ span | array _ span | dynamic span => span

/-- The engine's `simple_name`: the name of a type that is written without a path. -/
def simpleName? : TypeExpr → Option String
  | named [name] _ => some name
  | _ => none

/-- The text of a written type. -/
def text : TypeExpr → String
  | named pieces _ => joinPath pieces
  | pointer target _ => target.text ++ "*"
  | array element _ => element.text ++ "[]"
  | dynamic _ => "dynamic"

end TypeExpr

end ExtensionMembers
