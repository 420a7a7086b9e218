import ExtensionMembers.Collection.Table
import ExtensionMembers.Fault.Declaration

/-!
# The namespace tree

The tree lists the namespaces in order of creation, each with its absolute path and what is
declared in it. The global namespace comes first and has the empty path; every other namespace
comes after the one that encloses it. A namespace is known by its position, and positions that
do not exist have neither path nor contents.

* `NamespaceTree.path?`, `NamespaceTree.idOf?`: from a namespace to its path and back.
* `NamespaceTree.child?`, `NamespaceTree.parent?`, `NamespaceTree.follow?`: steps in the tree.
* `NamespaceTree.makeChild`, `NamespaceTree.makePath`: namespaces made where they are missing.
* `NamespaceTree.declareType`, `NamespaceTree.declareExtension`: declarations in a namespace.

## References

- Specification, §2.1, Workspace layout, and §10.4, Hashing and collections (`NamespaceTree`)
-/

namespace ExtensionMembers

/-- A namespace with what is declared directly in it, the engine's `NamespaceData`. -/
structure Namespace where
  /-- The absolute path. -/
  path : NamespacePath
  /-- The types, by simple name. -/
  types : Table String TypeHash
  /-- The extensions, in order of declaration. -/
  extensions : List ExtensionId
deriving Inhabited

/-- The namespace with a path in which nothing is declared. -/
def Namespace.empty (path : NamespacePath) : Namespace := ⟨path, .empty, []⟩

/-- All namespaces, in order of creation, the engine's `NamespaceTree`. An edge of the engine's tree
joins a path to the path with one name less. -/
structure NamespaceTree where
  /-- The namespaces; the first one is the global namespace. -/
  spaces : List Namespace

namespace NamespaceTree

/-- The tree of the global namespace alone. -/
def empty : NamespaceTree := ⟨[.empty []]⟩

instance : Inhabited NamespaceTree := ⟨empty⟩

/-- The global namespace. -/
def root : NamespaceId := ⟨0⟩

/-! ## Steps in the tree -/

/-- The engine's `get_namespace`: the contents of a namespace. -/
def space? (tree : NamespaceTree) (id : NamespaceId) : Option Namespace := tree.spaces[id.index]?

/-- The absolute path of a namespace. -/
def path? (tree : NamespaceTree) (id : NamespaceId) : Option NamespacePath :=
  (tree.space? id).map (·.path)

/-- The engine's `get_namespace_path`: the absolute path of a namespace; the empty path if there is
no such namespace. -/
def path (tree : NamespaceTree) (id : NamespaceId) : NamespacePath := (tree.path? id).getD []

/-- The engine's `get_path`: the namespace with an absolute path. -/
def idOf? (tree : NamespaceTree) (path : NamespacePath) : Option NamespaceId :=
  (tree.spaces.findIdx? (·.path = path)).map NamespaceId.mk

/-- The engine's `find_child`: the namespace of a simple name directly within another one. -/
def child? (tree : NamespaceTree) (parent : NamespaceId) (name : String) : Option NamespaceId :=
  (tree.path? parent).bind fun path => tree.idOf? (path ++ [name])

/-- The engine's `get_namespace_name`: the last name of the path; the global namespace has none. -/
def name? (tree : NamespaceTree) (id : NamespaceId) : Option String :=
  (tree.path? id).bind (·.getLast?)

/-- The namespaces around a namespace, innermost first, up to the global one; `ScopeTable.levelsAt`
takes its levels from them. -/
def enclosing (tree : NamespaceTree) (id : NamespaceId) : List NamespaceId :=
  let path := tree.path id
  (List.range path.length).reverse.filterMap fun count => tree.idOf? (path.take count)

/-- The engine's `find_parent`: the namespace directly around a namespace. -/
def parent? (tree : NamespaceTree) (id : NamespaceId) : Option NamespaceId :=
  (tree.enclosing id).head?

/-- The engine's `get_path_from`: the namespace at the end of a relative path. The empty path leads
nowhere else, so it gives the start unchecked. -/
def follow? (tree : NamespaceTree) (start : NamespaceId) (path : NamespacePath) :
    Option NamespaceId :=
  if path = [] then some start
  else (tree.path? start).bind fun base => tree.idOf? (base ++ path)

/-- The engine's `qualified_name`: the text of a simple name declared in a namespace. -/
def qualifiedText (tree : NamespaceTree) (id : NamespaceId) (name : String) : String :=
  QualifiedName.textWithin (tree.path id) name

/-! ## Making namespaces -/

/-- The tree with one more namespace at the end. -/
def append (tree : NamespaceTree) (path : NamespacePath) : NamespaceTree :=
  ⟨tree.spaces ++ [.empty path]⟩

/-- A namespace made by `append` takes the next free position and moves no other. -/
theorem space?_append (tree : NamespaceTree) (path : NamespacePath) (id : NamespaceId) :
    (tree.append path).space? id =
      if id.index = tree.spaces.length then some (.empty path) else tree.space? id := by
  simp only [space?, append, List.getElem?_append]
  grind

/-- The engine's `get_or_create_child`: the namespace of a simple name directly within another one,
made if it is missing. Within a namespace that does not exist nothing is made. -/
def makeChild (tree : NamespaceTree) (parent : NamespaceId) (name : String) :
    NamespaceTree × NamespaceId :=
  match tree.child? parent name, tree.path? parent with
  | some child, _ => (tree, child)
  | none, some path => (tree.append (path ++ [name]), ⟨tree.spaces.length⟩)
  | none, none => (tree, parent)

/-- The engine's `get_or_create_path_from`: the namespace at the end of a relative path, with all
that is missing on the way made by `makeChild`. -/
def makePath (tree : NamespaceTree) (start : NamespaceId) :
    NamespacePath → NamespaceTree × NamespaceId
  | [] => (tree, start)
  | name :: rest =>
    let made := tree.makeChild start name
    made.1.makePath made.2 rest

/-! ## Declarations -/

/-- The engine's `lookup_in`: the type of a simple name declared directly in a namespace. -/
def typeIn? (tree : NamespaceTree) (id : NamespaceId) (name : String) : Option TypeHash :=
  (tree.space? id).bind (·.types.find? name)

/-- Whether a simple name is taken in a namespace; `declareType` asks it. -/
def containsType (tree : NamespaceTree) (id : NamespaceId) (name : String) : Bool :=
  (tree.typeIn? id name).isSome

/-- The tree with the contents of one namespace changed. -/
def modify (tree : NamespaceTree) (id : NamespaceId) (change : Namespace → Namespace) :
    NamespaceTree :=
  ⟨tree.spaces.modify id.index change⟩

/-- `modify` reaches its namespace and no other. -/
theorem space?_modify (tree : NamespaceTree) (id other : NamespaceId)
    (change : Namespace → Namespace) :
    (tree.modify id change).space? other =
      if id = other then (tree.space? other).map change else tree.space? other := by
  cases id; cases other
  simp only [space?, modify, List.getElem?_modify]
  grind

/-- The engine's `declare_type`: the tree with one more type; the name must be free. The fault has
no place, which `DeclarationFault.placedAt` gives it. -/
def declareType (tree : NamespaceTree) (id : NamespaceId) (name : String) (hash : TypeHash) :
    Except DeclarationFault NamespaceTree :=
  match tree.space? id with
  | none => .error .unknownNamespace
  | some space =>
    if space.types.contains name then .error (.duplicate ⟨space.path, name⟩ .unplaced)
    else .ok (tree.modify id fun space => { space with types := space.types.insert name hash })

/-- The engine's `declare_unit`: the tree with one more extension. -/
def declareExtension (tree : NamespaceTree) (id : NamespaceId) (extension : ExtensionId) :
    Except DeclarationFault NamespaceTree :=
  match tree.space? id with
  | none => .error .unknownNamespace
  | some _ =>
    .ok (tree.modify id fun space => { space with extensions := space.extensions ++ [extension] })

end NamespaceTree

end ExtensionMembers
