import ExtensionMembers.Program.Declaration

/-!
# Outlines of files

The outline of a file lists what the file declares, in the order of the text and without looking
at any other file: its scopes, each with its absolute path and its using directives, its types,
and its extensions. Scopes are known by their position; the file root comes first.

* `Outline.ofFile`: the outline of a file.

## References

- Specification, §4.1, Augmentation Registry (one `RegistrationResult` per file)
-/

namespace ExtensionMembers

/-- A scope of a file, the engine's `PendingScope`. -/
structure OutlineScope where
  /-- The position of the scope directly around it. -/
  parent : Option Nat
  /-- The absolute path of the namespace it opens. -/
  path : NamespacePath
  /-- The paths of its using directives, as written. -/
  usings : List NamespacePath
deriving DecidableEq, Inhabited

/-- A type declared in a file, the engine's `PendingType`. -/
structure OutlineType where
  /-- The qualified name. -/
  name : QualifiedName
  /-- The position of the scope that holds the declaration. -/
  scope : Nat
  /-- The declaration. -/
  declaration : TypeDeclaration
deriving DecidableEq, Inhabited

/-- An extension declared in a file, the engine's `PendingUnit`. -/
structure OutlineExtension where
  /-- The identity. -/
  id : ExtensionId
  /-- The qualified name. -/
  name : QualifiedName
  /-- The position of the scope that holds the declaration. -/
  scope : Nat
  /-- The declaration. -/
  declaration : ExtensionDeclaration
deriving DecidableEq, Inhabited

/-- What a file declares, the `RegistrationResult` of the specification (§4.1). -/
structure Outline where
  /-- The file. -/
  file : FileId
  /-- The scopes. -/
  scopes : List OutlineScope
  /-- The types. -/
  types : List OutlineType
  /-- The extensions. -/
  extensions : List OutlineExtension
deriving DecidableEq, Inhabited

namespace Outline

/-- The engine's `open_scope`: the outline with one more scope, at position `scopes.length`. -/
def openScope (outline : Outline) (parent : Option Nat) (path : NamespacePath)
    (items : List Item) : Outline :=
  { outline with scopes := outline.scopes ++ [⟨parent, path, items.filterMap Item.ofUsing?⟩] }

/-- The engine's `visit_type`: the outline with one more type, declared in `scope`. -/
def addType (outline : Outline) (scope : Nat) (path : NamespacePath)
    (declaration : TypeDeclaration) : Outline :=
  { outline with types := outline.types ++ [⟨⟨path, declaration.name⟩, scope, declaration⟩] }

/-- The engine's `visit_augmentation`: the outline with one more extension, declared in `scope` and
numbered by its place among `extensions`. -/
def addExtension (outline : Outline) (scope : Nat) (path : NamespacePath)
    (declaration : ExtensionDeclaration) : Outline :=
  { outline with
    extensions := outline.extensions ++
      [⟨⟨outline.file, outline.extensions.length⟩, ⟨path, declaration.name⟩, scope, declaration⟩] }

mutual

/-- The outline with what one item of a scope declares: `addType`, `addExtension`, or, for a block,
`openScope` and the items in it. -/
def addItem (scope : Nat) (path : NamespacePath) (outline : Outline) : Item → Outline
  | .block inner items =>
    (outline.openScope (some scope) (path ++ inner) items).addItems outline.scopes.length
      (path ++ inner) items
  | .importing _ => outline
  | .type declaration => outline.addType scope path declaration
  | .extension declaration => outline.addExtension scope path declaration

/-- The engine's `visit_items`: the outline with what the items of a scope declare, in order. -/
def addItems (scope : Nat) (path : NamespacePath) (outline : Outline) : List Item → Outline
  | [] => outline
  | item :: rest => (outline.addItem scope path item).addItems scope path rest

end

/-- The outline of a file: the root scope, `openScope`, then its items, `addItems`. -/
def ofFile (file : SourceFile) : Outline :=
  ((Outline.mk file.id [] [] []).openScope none [] file.items).addItems 0 [] file.items

end Outline

end ExtensionMembers
