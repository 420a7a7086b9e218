import ExtensionMembers.Collection.Trail
import ExtensionMembers.Namespace.Tree

/-!
# Lexical scopes and scope chains

Each file root and each namespace block of a file is a scope, with the imports written directly in
it. The chain of a scope lists what can be seen from it in levels, innermost first: the scope
itself, then the namespaces between it and the scope around it, which have no imports of their
own, then the scope around it in the same way, up to the file root.

* `ScopeTable.add`, `ScopeTable.find?`: the table of all scopes.
* `ScopeTable.chain`: the chain of a scope.
* `ScopeChain.depthOf?`: the innermost level that reaches a namespace.

## References

- Specification, §3, Data Model (`ScopeChain`), and §4.1, Augmentation Registry (`ScopeTable`)
-/

namespace ExtensionMembers

/-- A level of a `ScopeChain`: `namespace_path` and `imported_scopes` of the specification (§3). -/
structure ScopeLevel where
  /-- The namespace of the level. -/
  namespaceId : NamespaceId
  /-- The namespaces imported at the level, in the order written. -/
  imports : List NamespaceId
deriving DecidableEq, Inhabited

/-- The level of a namespace that imports nothing. -/
def ScopeLevel.plain (id : NamespaceId) : ScopeLevel := ⟨id, []⟩

/-- Whether a level reaches the declarations of a namespace, as its own or by an import. -/
def ScopeLevel.reaches (level : ScopeLevel) (id : NamespaceId) : Bool :=
  level.namespaceId = id || level.imports.contains id

/-- The levels seen from a place, innermost first, the `ScopeChain` of the specification (§3). -/
structure ScopeChain where
  /-- The levels. -/
  levels : List ScopeLevel
deriving DecidableEq, Inhabited

/-- The engine's `depth_of`: the innermost level that reaches a namespace (`ScopeLevel.reaches`),
counted from 0. -/
def ScopeChain.depthOf? (chain : ScopeChain) (id : NamespaceId) : Option Nat :=
  chain.levels.findIdx? (·.reaches id)

/-- A file root or a namespace block, the engine's `LexicalScope`. -/
structure Scope where
  /-- The file. -/
  file : FileId
  /-- The scope directly around it; a file root has none. -/
  parent : Option ScopeId
  /-- The namespace that the block opens. -/
  namespaceId : NamespaceId
  /-- The paths of the imports, as written. -/
  usings : List NamespacePath
  /-- The namespaces that the paths mean. -/
  imports : List NamespaceId
deriving DecidableEq, Inhabited

/-- All scopes, each known by its position, the `ScopeTable` of the specification (§4.1). -/
structure ScopeTable where
  /-- The scopes. -/
  scopes : List Scope
deriving Inhabited

namespace ScopeTable

/-- The table without scopes. -/
def empty : ScopeTable := ⟨[]⟩

/-- The number of scopes. -/
def size (table : ScopeTable) : Nat := table.scopes.length

/-- The scope at a position. -/
def get? (table : ScopeTable) (id : ScopeId) : Option Scope := table.scopes[id.index]?

/-- The positions that have a scope. -/
def ids (table : ScopeTable) : List ScopeId := (List.range table.size).map ScopeId.mk

/-- The table with one more scope, at position `table.size`. -/
def add (table : ScopeTable) (scope : Scope) : ScopeTable := ⟨table.scopes ++ [scope]⟩

/-- The table with one scope changed. -/
def modify (table : ScopeTable) (id : ScopeId) (change : Scope → Scope) : ScopeTable :=
  ⟨table.scopes.modify id.index change⟩

/-- A scope added by `add` takes the next free position and moves no other. -/
theorem get?_add (table : ScopeTable) (scope : Scope) (id : ScopeId) :
    (table.add scope).get? id =
      if id.index = table.size then some scope else table.get? id := by
  simp only [get?, add, size, List.getElem?_append]
  grind

/-- `modify` reaches its scope and no other. -/
theorem get?_modify (table : ScopeTable) (id other : ScopeId) (change : Scope → Scope) :
    (table.modify id change).get? other =
      if id = other then (table.get? other).map change else table.get? other := by
  cases id; cases other
  simp only [get?, modify, List.getElem?_modify]
  grind

/-- The engine's `find`: the first scope of a file that opens a namespace. -/
def find? (table : ScopeTable) (file : FileId) (id : NamespaceId) : Option ScopeId :=
  (table.scopes.findIdx? fun scope => scope.file = file && scope.namespaceId = id).map ScopeId.mk

/-- The scope directly around a scope. -/
def parent? (table : ScopeTable) (id : ScopeId) : Option ScopeId :=
  (table.get? id).bind (·.parent)

/-- A scope and the scopes around it, innermost first: the `trail` of `parent?`. -/
def outward (table : ScopeTable) (id : ScopeId) : List ScopeId :=
  trail table.parent? table.ids id

/-- The levels that a scope adds to a chain, one turn of the loop of the engine's `chain`: its own,
and one for each namespace around its namespace up to that of the scope around it. -/
def levelsAt (table : ScopeTable) (tree : NamespaceTree) (id : ScopeId) : List ScopeLevel :=
  match table.get? id with
  | none => []
  | some scope =>
    let outer := (scope.parent.bind table.get?).map (·.namespaceId)
    -- A block without a path opens the namespace of the scope around it, which is then not met
    -- again: the levels between run up to the global namespace.
    let between := (tree.enclosing scope.namespaceId).takeWhile fun id => some id != outer
    ⟨scope.namespaceId, scope.imports⟩ :: between.map .plain

/-- The engine's `chain`: the levels (`levelsAt`) of a scope and of the scopes around it
(`outward`). -/
def chain (table : ScopeTable) (tree : NamespaceTree) (id : ScopeId) : ScopeChain :=
  ⟨(table.outward id).flatMap (table.levelsAt tree)⟩

end ScopeTable

end ExtensionMembers
