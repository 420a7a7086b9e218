import ExtensionMembers.Proofs.Build.Completion
import ExtensionMembers.Proofs.Build.Places
import ExtensionMembers.Proofs.Namespace.Search
import ExtensionMembers.Proofs.Program.Blocks

/-!
# What using directives mean

The imports of all scopes are resolved when the scopes of all files are open. So the path of a using
directive is looked for among all namespaces of the program, wherever they are opened, and it means
the namespace within the innermost block around it from which the path leads to one.

## Main results

* `Registry.mem_paths_assemble_iff`: the namespaces of a finished registry are those that blocks
  open.
* `Registry.usings_mean_innermost`: the imports of the scopes of a finished registry.
-/

namespace ExtensionMembers

/-- The scopes of `scopesOf` are the blocks in the texts of the files. -/
theorem exists_block_of_scope {files : List SourceFile} {placed : PlacedScope}
    (h : placed ∈ scopesOf files) :
    ∃ file ∈ files, ∃ block ∈ file.opened,
      placed.file = file.id ∧ placed.path = block.path ∧ placed.usings = block.usings := by
  obtain ⟨index, hplaced⟩ := List.mem_iff_getElem?.1 h
  obtain ⟨outline, first, position, hstarts, -, hposition⟩ := exists_startsAt_of_scope hplaced
  obtain ⟨file, hfile, rfl⟩ := mem_outlinesOf_iff.1 hstarts.mem
  rw [Outline.placedScopes, List.getElem?_map] at hposition
  obtain ⟨scope, hscope, rfl⟩ := Option.map_eq_some_iff.1 hposition
  refine ⟨file, hfile, scope.block, ?_, Outline.file_ofFile file, rfl, rfl⟩
  rw [← Outline.opened_ofFile]
  exact List.mem_map_of_mem (List.mem_of_getElem? hscope)

namespace Registry

/-- The registry that `assemble` makes has the namespaces that blocks of the files open
(`IsOpened`), those around them, and no others. -/
theorem mem_paths_assemble_iff (files : List SourceFile) (options : Options)
    {path : NamespacePath} :
    path ∈ (assemble files options).registry.namespaces.paths ↔ IsOpened files path := by
  rw [(opened_assemble files options).paths_eq, (NamespaceTree.ofPaths_spec _).2, IsOpened]
  refine or_congr_right ⟨?_, ?_⟩
  · rintro ⟨other, hother, hprefix⟩
    obtain ⟨placed, hplaced, rfl⟩ := List.mem_map.1 hother
    obtain ⟨file, hfile, block, hblock, _, hpath, _⟩ := exists_block_of_scope hplaced
    exact ⟨file, hfile, block, hblock, hpath ▸ hprefix⟩
  · rintro ⟨file, hfile, block, hblock, hprefix⟩
    refine ⟨block.path, ?_, hprefix⟩
    rw [scopesOf, map_path_scopesFrom]
    refine List.mem_flatMap.2 ⟨_, mem_outlinesOf_iff.2 ⟨file, hfile, rfl⟩, ?_⟩
    rw [← Outline.opened_ofFile] at hblock
    obtain ⟨scope, hscope, rfl⟩ := List.mem_map.1 hblock
    exact List.mem_map_of_mem hscope

/-- A using directive means the innermost namespace that its path leads to, wherever in the program
this is opened. The namespaces of the registry that `assemble` makes are those that the blocks of
the files open, with those around them (`IsOpened`). Each scope is that of a block in the text of
its file, and its imports are what the paths of the using directives of the block mean, in order and
less those that mean nothing. The search for what a path means goes outward from the namespace of
the scope and always ends, with one result: the namespace within the longest beginning of the path
of the block that the path of the directive continues to the path of a namespace, and nothing if
there is no such beginning. -/
theorem usings_mean_innermost (files : List SourceFile) (options : Options) :
    let registry := (assemble files options).registry
    let tree := registry.namespaces
    (∀ path, (∃ id, tree.path? id = some path) ↔ IsOpened files path) ∧
    ∀ place scope, registry.scopes.get? place = some scope →
      ∃ file ∈ files, ∃ block ∈ file.opened, scope.file = file.id ∧
        tree.path? scope.namespaceId = some block.path ∧ scope.usings = block.usings ∧
        ∃ meanings : List (Option NamespaceId), scope.imports = meanings.filterMap id ∧
          List.Forall₂ (fun path meaning =>
              (∀ result, tree.SearchesOutward path scope.namespaceId result ↔ result = meaning) ∧
                tree.InnermostWithin (IsOpened files) block.path path meaning)
            block.usings meanings := by
  intro registry tree
  have hopened : registry.Opened (scopesOf files) := opened_assemble files options
  have hknown : ∀ path, path ∈ tree.paths ↔ IsOpened files path := fun path =>
    mem_paths_assemble_iff files options
  refine ⟨fun path => NamespaceTree.mem_paths_iff.symm.trans (hknown path), ?_⟩
  intro place scope hscope
  rw [hopened.get?_scopes] at hscope
  -- The scope is that of a block, with its imports resolved.
  obtain ⟨placed, hplaced, hresolved⟩ := Option.map_eq_some_iff.1 hscope
  obtain ⟨same, hsame, _, _, hpath⟩ := hopened.exists_scope hplaced
  rw [hopened.get?_scopes, hscope] at hsame
  obtain rfl := Option.some.inj hsame
  obtain ⟨file, hfile, block, hblock, hfileId, hblockPath, husings⟩ :=
    exists_block_of_scope (List.mem_of_getElem? hplaced)
  rw [hblockPath] at hpath
  subst hresolved
  refine ⟨file, hfile, block, hblock, hfileId, hpath, husings,
    block.usings.map (tree.resolveImport? (placed.scope tree).namespaceId), ?_, ?_⟩
  · rw [List.filterMap_map, ← husings]
    rfl
  · refine List.forall₂_map_right_iff.2 (List.forall₂_same.2 fun path _ => ⟨fun result => ?_, ?_⟩)
    · exact (NamespaceTree.searchesOutward_iff hopened.proper hknown hpath).trans eq_comm
    · exact (NamespaceTree.resolveImport?_iff hopened.proper hknown hpath).1 rfl

end Registry

/-- A block with three using directives: for a namespace that only a later file opens within the
block, beside a global one of the same name, for one that a later block opens, and for one that
there is not. -/
def importingFiles : List SourceFile :=
  [⟨⟨0⟩, "app", [.block ["App"] [.importing ["Lib"], .importing ["Util"], .importing ["Nope"]],
      .block ["Util"] []]⟩,
    ⟨⟨1⟩, "lib", [.block ["Lib"] [], .block ["App", "Lib"] []]⟩]

namespace Registry

/-- The block of `importingFiles` imports the inner one of the two namespaces, and the one of the
later block. -/
theorem usings_mean_innermost_lib :
    let registry := (assemble importingFiles .standard).registry
    let tree := registry.namespaces
    ∃ scope, registry.scopes.get? ⟨1⟩ = some scope ∧
      scope.imports.map tree.path = [["App", "Lib"], ["Util"]] ∧
      ∃ meanings : List (Option NamespaceId), scope.imports = meanings.filterMap id ∧
        List.Forall₂ (tree.InnermostWithin (IsOpened importingFiles) ["App"])
          [["Lib"], ["Util"], ["Nope"]] meanings := by
  intro registry tree
  have hread : (registry.scopes.get? ⟨1⟩).map (fun scope =>
      (scope.usings, tree.path? scope.namespaceId, scope.imports.map tree.path)) =
        some ([["Lib"], ["Util"], ["Nope"]], some ["App"], [["App", "Lib"], ["Util"]]) := by
    decide +kernel
  obtain ⟨scope, hscope, heq⟩ := Option.map_eq_some_iff.1 hread
  obtain ⟨husings, hpath, himports⟩ := by simpa only [Prod.mk.injEq] using heq
  obtain ⟨file, _, block, _, _, hblock, hsame, meanings, hmeanings, hall⟩ :=
    (usings_mean_innermost importingFiles .standard).2 ⟨1⟩ scope hscope
  have hblockPath : block.path = ["App"] := Option.some.inj (hblock.symm.trans hpath)
  rw [← hsame, husings, hblockPath] at hall
  exact ⟨scope, hscope, himports, meanings, hmeanings, hall.imp fun _ _ h => h.2⟩

end Registry

end ExtensionMembers
