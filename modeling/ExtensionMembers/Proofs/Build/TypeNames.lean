import ExtensionMembers.Proofs.Build.Nesting
import ExtensionMembers.Proofs.Build.Storage
import ExtensionMembers.Proofs.Namespace.Order
import ExtensionMembers.Proofs.Namespace.TypeName

/-!
# Type names in a program

In the finished registry of some files every level of a chain has a path, and a namespace declares
the names that are built in or written in the files. So what a type name means at a place can be
told from the paths and the declarations, and it is the innermost declaration that matches.

## Main results

* `Registry.declaresAt_assemble_iff`: what the namespaces of a finished registry declare.
* `Registry.resolveType_innermost`: what type names mean along the chains of a finished registry.
-/

namespace ExtensionMembers

/-- The names of the `registeredTypes` are the `declaredNames`. -/
theorem mem_names_registeredTypes_iff {files : List SourceFile} {name : QualifiedName} :
    name ∈ (registeredTypes (declaredOf files)).map (·.name) ↔ name ∈ declaredNames files := by
  constructor
  · intro hin
    obtain ⟨type, htype, rfl⟩ := List.mem_map.1 hin
    exact name_mem_declaredNames htype
  · intro hin
    rcases List.mem_append.1 hin with hbuiltIn | hdeclared
    · obtain ⟨simple, hsimple, rfl⟩ := List.mem_map.1 hbuiltIn
      exact List.mem_map.2 ⟨_, List.mem_append_left _ (List.mem_map_of_mem hsimple), rfl⟩
    · obtain ⟨file, hfile, hname⟩ := List.mem_flatMap.1 hdeclared
      have hall : name ∈ (declarationsOf files).map (·.name) := by
        rw [declarationsOf, map_name_declaredFrom]
        exact List.mem_flatMap.2 ⟨_, mem_outlinesOf_iff.2 ⟨file, hfile, rfl⟩, hname⟩
      obtain ⟨next, hnext, rfl⟩ := List.mem_map.1 hall
      exact name_taken_of_mem hnext

namespace Registry

/-- In the registry that `assemble` makes, the namespace with a path declares (`DeclaresAt`) the
names with this path that are built in or declared in the files, each with its hash. -/
theorem declaresAt_assemble_iff (files : List SourceFile) (options : Options)
    {path : NamespacePath} {name : String} {hash : TypeHash} :
    (assemble files options).registry.namespaces.DeclaresAt path name hash ↔
      ⟨path, name⟩ ∈ declaredNames files ∧ (QualifiedName.mk path name).hash = hash := by
  have hnames := (Assembly.records_declareFiles files).names
  rw [namespaces_assemble, ← mem_names_registeredTypes_iff]
  constructor
  · rintro ⟨id, hid, htype⟩
    rw [hnames.typeIn?_eq hid] at htype
    split at htype
    next hin => exact ⟨hin, Option.some.inj htype⟩
    next => cases htype
  · rintro ⟨hin, rfl⟩
    obtain ⟨type, htype, hname⟩ := List.mem_map.1 hin
    have hpath := hnames.within type htype
    rw [hname] at hpath
    obtain ⟨id, hid⟩ := NamespaceTree.mem_paths_iff.1 hpath
    exact ⟨id, hid, by rw [hnames.typeIn?_eq hid, if_pos hin]⟩

/-- The levels of a chain of the registry that `assemble` makes have paths. -/
theorem exists_paths_levels (files : List SourceFile) (options : Options) (id : ScopeId) :
    let registry := (assemble files options).registry
    ∃ bases,
      List.Forall₂ (fun level base => registry.namespaces.path? level.namespaceId = some base)
        (registry.chain id).levels bases := by
  intro registry
  cases hscope : registry.scopes.get? id with
  | none =>
    rw [chain, ScopeTable.chain_eq_nil hscope]
    exact ⟨[], .nil⟩
  | some scope =>
    obtain ⟨blocks, path, hblocks, houtward, hpath⟩ :=
      exists_lexicalPath_assemble files options hscope
    obtain ⟨bases, hbases, _⟩ := (nested_assemble files options).exists_paths
      (opened_assemble files options).proper hblocks hscope hpath
    rw [chain, ScopeTable.chain, houtward]
    exact ⟨bases, hbases⟩

/-- `resolveType` gives a type name the innermost declaration that matches. At each place of a
program, a simple name means what the first level that mentions it says (`MentionedAt`): the
declaration of the namespace of that level, or else the one type that its imports supply; if they
supply several, the name is ambiguous, and each of these types is listed once, with the first import
that supplies it. A name with a path is never ambiguous. It means the declaration in the first
namespace that the path leads to within the namespaces of the levels, or at last within the global
namespace, if that namespace declares the name. Every other name means nothing. -/
theorem resolveType_innermost (files : List SourceFile) (options : Options) (id : ScopeId) :
    let registry := (assemble files options).registry
    let tree := registry.namespaces
    let chain := registry.chain id
    (∀ path name hash, tree.DeclaresAt path name hash ↔
      ⟨path, name⟩ ∈ declaredNames files ∧ (QualifiedName.mk path name).hash = hash) ∧
    (∀ name meaning,
      tree.resolveType [name] chain = meaning ↔ tree.SimpleMeaning name chain meaning) ∧
    (∃ bases, List.Forall₂ (fun level base => tree.path? level.namespaceId = some base)
        chain.levels bases ∧
      ∀ path name meaning, path ≠ [] → (tree.resolveType (path ++ [name]) chain = meaning ↔
        tree.QualifiedMeaning path name (bases ++ [[]]) meaning)) ∧
    tree.resolveType [] chain = .notFound := by
  intro registry tree chain
  refine ⟨fun path name hash => declaresAt_assemble_iff files options,
    fun name meaning => NamespaceTree.resolveSimple_iff, ?_, rfl⟩
  obtain ⟨bases, hbases⟩ := exists_paths_levels files options id
  refine ⟨bases, hbases, fun path name meaning hpath => ?_⟩
  rw [NamespaceTree.resolveType_concat hpath]
  exact NamespaceTree.resolveWithin_iff (opened_assemble files options).proper hbases

end Registry

/-- Two namespaces with a type of the same name, a block that imports both, and a name with a path
that leads to an inner namespace first. -/
def libraryFile : SourceFile where
  id := ⟨0⟩
  name := "library"
  items :=
    [.block ["Lib"] [type "Reader", type "Widget"], .block ["Net"] [type "Reader"],
      .block ["Io"] [type "Socket"],
      .block ["App"] [.importing ["Lib"], .importing ["Net"], type "Widget", .block ["Io"] []]]
where
  type (name : String) : Item := .type ⟨.plainClass, name, none, [], .unplaced⟩

namespace Registry

/-- In the inner block of `libraryFile`, `Widget` is the one of the outer block, `Reader` is
ambiguous, and a socket is found in the global `Io` only, since the inner one declares none. -/
theorem resolveType_innermost_library :
    let tree := (assemble [libraryFile] .standard).registry.namespaces
    let chain := (assemble [libraryFile] .standard).registry.chain ⟨5⟩
    chain.levels.map (fun level => (tree.path level.namespaceId, level.imports.map tree.path)) =
      [(["App", "Io"], []), (["App"], [["Lib"], ["Net"]]), ([], [])] ∧
    tree.SimpleMeaning "Widget" chain (.found (QualifiedName.mk ["App"] "Widget").hash) ∧
    (∃ candidates, tree.SimpleMeaning "Reader" chain (.ambiguous candidates) ∧
      candidates.map (fun candidate => (tree.path candidate.1, candidate.2)) =
        [(["Lib"], (QualifiedName.mk ["Lib"] "Reader").hash),
          (["Net"], (QualifiedName.mk ["Net"] "Reader").hash)]) ∧
    ∃ bases, List.Forall₂ (fun level base => tree.path? level.namespaceId = some base)
        chain.levels bases ∧
      tree.QualifiedMeaning ["Io"] "Socket" (bases ++ [[]])
        (.found (QualifiedName.mk ["Io"] "Socket").hash) ∧
      tree.QualifiedMeaning ["Io"] "Widget" (bases ++ [[]]) .notFound := by
  intro tree chain
  obtain ⟨_, hsimple, ⟨bases, hbases, hqualified⟩, _⟩ :=
    resolveType_innermost [libraryFile] .standard ⟨5⟩
  have hreader : tree.resolveType ["Reader"] chain =
      .ambiguous [(⟨1⟩, (QualifiedName.mk ["Lib"] "Reader").hash),
        (⟨2⟩, (QualifiedName.mk ["Net"] "Reader").hash)] := by decide +kernel
  exact ⟨by decide +kernel, (hsimple "Widget" _).1 (by decide +kernel),
    ⟨_, (hsimple "Reader" _).1 hreader, by decide +kernel⟩, bases, hbases,
    (hqualified ["Io"] "Socket" _ (by decide)).1 (by decide +kernel),
    (hqualified ["Io"] "Widget" _ (by decide)).1 (by decide +kernel)⟩

end Registry

end ExtensionMembers
