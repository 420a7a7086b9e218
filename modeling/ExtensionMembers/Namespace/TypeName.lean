import ExtensionMembers.Namespace.Scope

/-!
# What a written type name means

A simple name means the declaration in the innermost level that has one. Within a level the
namespace of the level goes before its imports; imports that supply different types make the name
ambiguous. A name with a path is tried within the namespace of each level in turn, and last within
the global namespace.

* `NamespaceTree.resolveType`: the meaning of a name at a place.

## References

- Specification, §3, Data Model (`ScopeChain`: imports at an inner level are preferred)
-/

namespace ExtensionMembers

/-- What a type name means, the engine's `ResolutionResult` of a type. -/
inductive NameMeaning where
  /-- One type. -/
  | found (hash : TypeHash)
  /-- Several types, each with the first import that supplies it. -/
  | ambiguous (candidates : List (NamespaceId × TypeHash))
  /-- No type. -/
  | notFound
deriving DecidableEq, Inhabited

namespace NameMeaning

/-- Whether the name means one type. -/
def isFound : NameMeaning → Bool
  | found _ => true
  | _ => false

/-- Whether the name means several types. -/
def isAmbiguous : NameMeaning → Bool
  | ambiguous _ => true
  | _ => false

/-- The one type that the name means. -/
def type? : NameMeaning → Option TypeHash
  | found hash => some hash
  | _ => none

/-- The meaning of a name for which there are these candidates, each of another type. -/
def ofCandidates : List (NamespaceId × TypeHash) → NameMeaning
  | [] => notFound
  | [candidate] => found candidate.2
  | candidates => ambiguous candidates

end NameMeaning

/-- The candidates less those whose type an earlier one supplies; `resolve_type` of the engine keeps
a candidate by its hash. -/
def firstPerType : List (NamespaceId × TypeHash) → List (NamespaceId × TypeHash)
  | [] => []
  | first :: rest => first :: (firstPerType rest).filter (·.2 ≠ first.2)

theorem firstPerType_subset (candidates : List (NamespaceId × TypeHash)) :
    firstPerType candidates ⊆ candidates := by
  induction candidates with
  | nil => exact List.Subset.refl _
  | cons first rest ih =>
    exact List.cons_subset_cons first fun _ hin => ih (List.filter_sublist.subset hin)

namespace NamespaceTree

/-- The types of a simple name that the `imports` of a level supply. -/
def imported (tree : NamespaceTree) (name : String) (level : ScopeLevel) :
    List (NamespaceId × TypeHash) :=
  firstPerType (level.imports.filterMap fun id => (tree.typeIn? id name).map (id, ·))

/-- What a simple name means at one level: the declaration of its own namespace (`typeIn?`), else
what is `imported`. -/
def meaningAt (tree : NamespaceTree) (name : String) (level : ScopeLevel) : NameMeaning :=
  match tree.typeIn? level.namespaceId name with
  | some hash => .found hash
  | none => .ofCandidates (tree.imported name level)

/-- What a simple name means: its meaning (`meaningAt`) at the innermost level where it has one. -/
def resolveSimple (tree : NamespaceTree) (name : String) (chain : ScopeChain) : NameMeaning :=
  ((chain.levels.map (tree.meaningAt name)).find? (· ≠ .notFound)).getD .notFound

/-- What a simple name within a relative path means: the path is followed (`follow?`) from each
level in turn, then from the global namespace. -/
def resolveWithin (tree : NamespaceTree) (path : NamespacePath) (name : String)
    (chain : ScopeChain) : NameMeaning :=
  -- A chain made by hand need not end with the global namespace.
  let starts := chain.levels.map (·.namespaceId) ++ [root]
  let typeFrom? (start : NamespaceId) :=
    (tree.follow? start path).bind fun id => tree.typeIn? id name
  match starts.findSome? typeFrom? with
  | some hash => .found hash
  | none => .notFound

/-- The engine's `resolve_type`: what a name means that is written as these pieces, the last one
being the simple name. One piece is left to `resolveSimple`, more to `resolveWithin`. -/
def resolveType (tree : NamespaceTree) (pieces : List String) (chain : ScopeChain) :
    NameMeaning :=
  match pieces.getLast? with
  | none => .notFound
  | some name =>
    if pieces.dropLast = [] then tree.resolveSimple name chain
    else tree.resolveWithin pieces.dropLast name chain

end NamespaceTree

end ExtensionMembers
