import ExtensionMembers.Proofs.Build.Completion
import ExtensionMembers.Proofs.Build.Places
import ExtensionMembers.Proofs.Namespace.Chain
import ExtensionMembers.Proofs.Program.Nesting

/-!
# Chains in a finished registry

The scopes of all files stand one after another in the registry, and each file is declared into a
tree that others have made before. Still the scopes of each file nest as its blocks do, so that a
chain can be read off the text: it has a level for each beginning of the path of the scope, with
the using directives of the block that opens it.

## Main results

* `Registry.nestsBy_assemble`: the scopes of a finished registry are nested as the blocks are.
* `Registry.chain_mirrors_blocks`: the chain of every scope of a finished registry.
-/

namespace ExtensionMembers

section Nested

variable {files : List SourceFile} {allowed : NamespacePath → Prop}
  (hallowed : ∀ file ∈ files, ∀ path ∈ Item.allBlockPaths file.items, allowed path)

include hallowed

theorem nestedBy_of_mem_outlinesOf {outline : Outline} (h : outline ∈ outlinesOf files) :
    outline.NestedBy allowed := by
  obtain ⟨file, hfile, rfl⟩ := mem_outlinesOf_iff.1 h
  exact Outline.nestedBy_ofFile (hallowed file hfile)

/-- Among `scopesOf`, the scopes of each file are nested. -/
theorem nestedBy_scopesOf {index : Nat} {placed : PlacedScope}
    (hplaced : (scopesOf files)[index]? = some placed) :
    (placed.parent = none → placed.path = []) ∧
      ∀ outer, placed.parent = some outer → outer.index < index ∧ ∃ around more,
        (scopesOf files)[outer.index]? = some around ∧ around.file = placed.file ∧ allowed more ∧
          placed.path = around.path ++ more := by
  obtain ⟨outline, first, position, hstarts, rfl, hposition⟩ := exists_startsAt_of_scope hplaced
  have hnested := nestedBy_of_mem_outlinesOf hallowed hstarts.mem
  rw [Outline.placedScopes, List.getElem?_map] at hposition
  obtain ⟨scope, hscope, rfl⟩ := Option.map_eq_some_iff.1 hposition
  constructor
  · intro hparent
    exact hnested.outermost hscope (Option.map_eq_none_iff.1 hparent)
  · intro outer hparent
    obtain ⟨inFile, hinFile, rfl⟩ := Option.map_eq_some_iff.1 hparent
    obtain ⟨hlt, around, more, haround, hmore, hpath⟩ := hnested.within hscope hinFile
    -- The scope around it is as far from where the file starts as it is from the file root.
    exact ⟨Nat.add_lt_add_left hlt first, _, more,
      getElem?_scopesFrom hstarts (Outline.getElem?_placedScopes first haround), rfl, hmore, hpath⟩

/-- The scopes of the registry that `assemble` makes are nested (`ScopeTable.NestsBy`) as the blocks
of the files are. -/
theorem Registry.nestsBy_assemble (options : Options) :
    ScopeTable.NestsBy allowed (assemble files options).registry.scopes
      (assemble files options).registry.namespaces := by
  have hopened := opened_assemble files options
  constructor
  · intro id scope hscope hnone
    obtain ⟨placed, hplaced, hparent, _, hpath⟩ := hopened.exists_placed hscope
    rw [hpath, (nestedBy_scopesOf hallowed hplaced).1 (hparent ▸ hnone)]
  · intro id scope outer hscope houter
    obtain ⟨placed, hplaced, hparent, hfile, hpath⟩ := hopened.exists_placed hscope
    obtain ⟨hlt, around, more, haround, hsame, hmore, hmorePath⟩ :=
      (nestedBy_scopesOf hallowed hplaced).2 outer (hparent ▸ houter)
    obtain ⟨found, hfound, hfoundFile, _, hfoundPath⟩ := hopened.exists_scope haround
    exact ⟨hlt, found, hfound, by rw [hfoundFile, hsame, hfile], around.path, more, hmore,
      hfoundPath, by rw [hpath, hmorePath]⟩

end Nested

namespace Registry

/-- The scopes of the registry that `assemble` makes are nested whatever the paths of the blocks
are. -/
theorem nested_assemble (files : List SourceFile) (options : Options) :
    ScopeTable.NestsBy (fun _ => True) (assemble files options).registry.scopes
      (assemble files options).registry.namespaces :=
  nestsBy_assemble (fun _ _ _ _ => trivial) options

/-- From each scope of the registry that `assemble` makes one gets to a file root (`LexicalPath`),
and its namespace has a path. -/
theorem exists_lexicalPath_assemble (files : List SourceFile) (options : Options) {id : ScopeId}
    {scope : Scope} (hscope : (assemble files options).registry.scopes.get? id = some scope) :
    ∃ blocks path, (assemble files options).registry.scopes.LexicalPath id blocks ∧
      (assemble files options).registry.scopes.outward id = blocks ∧
      (assemble files options).registry.namespaces.path? scope.namespaceId = some path := by
  have hnests := nested_assemble files options
  obtain ⟨blocks, hblocks⟩ := hnests.exists_lexicalPath hscope
  obtain ⟨placed, _, _, _, hpath⟩ := (opened_assemble files options).exists_placed hscope
  exact ⟨blocks, placed.path, hblocks, hnests.outward_eq hblocks, hpath⟩

end Registry

section Blocks

variable {files : List SourceFile}
  (hblocks : ∀ file ∈ files, Item.allNameBlocks file.items = true)

include hblocks

namespace Registry

/-- The scopes of the registry that `assemble` makes have longer paths than those around them if
every namespace block has a path (`Item.allNameBlocks`). -/
theorem nests_assemble (options : Options) :
    ScopeTable.NestsBy (· ≠ []) (assemble files options).registry.scopes
      (assemble files options).registry.namespaces :=
  nestsBy_assemble (fun file hfile => Item.ne_nil_of_allNameBlocks file.items (hblocks file hfile))
    options

/-- If every namespace block has a path (`Item.allNameBlocks`), `Registry.chain` mirrors the blocks
around a scope of the registry that `assemble` makes. The scope around a scope comes earlier and is
of the same file, and going outward ends at a file root. The levels of the chain are the namespaces
of the beginnings of the absolute path, the longest first, one more than the path has names; and a
level has the imports of the block around the scope that opens its namespace, and none if there is
no such block. -/
theorem chain_mirrors_blocks (options : Options) :
    let registry := (assemble files options).registry
    ∀ (id : ScopeId) (scope : Scope), registry.scopes.get? id = some scope →
      (∀ outer, scope.parent = some outer → outer.index < id.index ∧
        ∃ around, registry.scopes.get? outer = some around ∧ around.file = scope.file) ∧
      ∃ path blocks, registry.namespaces.path? scope.namespaceId = some path ∧
        registry.scopes.LexicalPath id blocks ∧ registry.scopes.outward id = blocks ∧
        (registry.chain id).levels.length = path.length + 1 ∧
        List.Forall₂ (fun level beginning =>
            registry.namespaces.idOf? beginning = some level.namespaceId)
          (registry.chain id).levels path.inits.reverse ∧
        ∀ level ∈ (registry.chain id).levels, registry.scopes.ImportsFrom blocks level := by
  intro registry id scope hscope
  have hopened := opened_assemble files options
  have hnests := nests_assemble hblocks options
  obtain ⟨blocks, path, hpath, houtward, hid⟩ := exists_lexicalPath_assemble files options hscope
  obtain ⟨hlevels, himports⟩ := hnests.chain_mirrors hopened.proper hpath hscope hid
  refine ⟨fun outer hparent => ?_, path, blocks, hid, hpath, houtward, ?_,
    hlevels.imp fun _ _ => (NamespaceTree.idOf?_eq_some_iff hopened.proper.nodup).2, himports⟩
  · obtain ⟨hlt, around, haround, hfile, _⟩ := hnests.within hscope hparent
    exact ⟨hlt, around, haround, hfile⟩
  · exact hlevels.length_eq.trans (by simp)

end Registry

end Blocks

/-- Blocks within blocks, one of them with a path of two names, and using directives in some of
them; another file comes first and has made some of the namespaces. -/
def nestedFiles : List SourceFile :=
  [⟨⟨2⟩, "widgets", [.importing ["Core"],
      .block ["Ui", "Forms"] [.importing ["Core", "Text"],
        .block ["Fields"] [.block ["Masks"] []]]]⟩,
    ⟨⟨1⟩, "core", [.block ["Core"] [.block ["Text"] []], .block ["Ui"] []]⟩]

/-- The innermost block has five levels. The last but one belongs to no block, since one block
opens `Ui` and `Forms` at once; the one before has the imports of that block, and the last has those
of the file. -/
theorem Registry.chain_mirrors_blocks_fields :
    let registry := (assemble nestedFiles .standard).registry
    let chain := registry.chain ⟨7⟩
    (∀ file ∈ nestedFiles, Item.allNameBlocks file.items = true) ∧
      registry.scopes.outward ⟨7⟩ = [⟨7⟩, ⟨6⟩, ⟨5⟩, ⟨4⟩] ∧
      chain.levels.map (fun level => (registry.namespaces.path level.namespaceId,
          level.imports.map registry.namespaces.path)) =
        [(["Ui", "Forms", "Fields", "Masks"], []), (["Ui", "Forms", "Fields"], []),
          (["Ui", "Forms"], [["Core", "Text"]]), (["Ui"], []), ([], [["Core"]])] ∧
      ∃ blocks, registry.scopes.LexicalPath ⟨7⟩ blocks ∧
        ∀ level ∈ chain.levels, registry.scopes.ImportsFrom blocks level := by
  intro registry chain
  have hblocks : ∀ file ∈ nestedFiles, Item.allNameBlocks file.items = true := by decide
  obtain ⟨scope, hscope⟩ : ∃ scope, registry.scopes.get? ⟨7⟩ = some scope :=
    Option.isSome_iff_exists.1 (by decide +kernel)
  obtain ⟨_, _, blocks, _, hpath, _, _, _, himports⟩ :=
    Registry.chain_mirrors_blocks hblocks .standard ⟨7⟩ scope hscope
  exact ⟨hblocks, by decide +kernel, by decide +kernel, blocks, hpath, himports⟩

end ExtensionMembers
