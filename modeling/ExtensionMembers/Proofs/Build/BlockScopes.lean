import ExtensionMembers.Proofs.Build.Positions
import ExtensionMembers.Proofs.Call.Legality
import ExtensionMembers.Proofs.Namespace.Search
import ExtensionMembers.Proofs.Program.Blocks

/-!
# Scopes and the blocks they are opened for

A scope is asked for by a file and a path. The path leads to a namespace, which any number of files
may open, each any number of times, and which may only lie around one that a block opens. The scopes
of a file stand together and in the order of its blocks, so what is found is the scope of the first
block of this file with this absolute path, if there is one.

## Main definitions

* `Registry.Opens`: a scope is that of a block in the text of a file.
* `Registry.LaysOut`: where the scopes of a file stand in a registry.

## Main results

* `Registry.Opened.scopeOf?_eq`: the scope that is found, among the scopes that were opened.
* `Registry.laysOut_assemble`: the scopes of the files in a finished registry.
* `Compilation.scope_finds_block`: which scopes a compilation finds.
-/

namespace ExtensionMembers

/-! ## The scopes of one file among those of all -/

section Search

variable {outlines : List Outline} {outline : Outline} {first : Nat}

/-- Whether a scope is one of `file` that opens `path`. -/
def PlacedScope.isAt (file : FileId) (path : NamespacePath) (placed : PlacedScope) : Bool :=
  placed.file = file && placed.path = path

/-- `scopesFrom` has no scope of a file that is not there. -/
theorem findIdx?_scopesFrom_eq_none {file : FileId} (h : file ∉ outlines.map (·.file))
    (path : NamespacePath) : (scopesFrom first outlines).findIdx? (·.isAt file path) = none := by
  refine List.findIdx?_eq_none_iff.2 fun placed hplaced => ?_
  have hne : placed.file ≠ file := fun heq => h (heq ▸ file_mem_of_mem_scopesFrom hplaced)
  simp [PlacedScope.isAt, hne]

/-- Among the `placedScopes` of one file, the first with a path is that of the first block with
it. -/
theorem Outline.findIdx?_placedScopes (outline : Outline) (first : Nat) (path : NamespacePath) :
    (outline.placedScopes first).findIdx? (·.isAt outline.file path) =
      outline.opened.findIdx? (·.path = path) := by
  rw [placedScopes, opened, List.findIdx?_map, List.findIdx?_map]
  congr 1
  funext scope
  simp [PlacedScope.isAt, OutlineScope.block]

/-- Among `scopesFrom`, the first of a file with a path is that of the first block of the file with
it, counted from where the scopes of the file start. -/
theorem Outline.StartsAt.findIdx?_scopesFrom (h : outline.StartsAt outlines first)
    (hfiles : (outlines.map (·.file)).Nodup) (path : NamespacePath) :
    (scopesFrom 0 outlines).findIdx? (·.isAt outline.file path) =
      (outline.opened.findIdx? (·.path = path)).map (first + ·) := by
  obtain ⟨before, after, rfl, rfl⟩ := h
  rw [List.map_append, List.map_cons, List.nodup_append] at hfiles
  obtain ⟨_, hrest, hapart⟩ := hfiles
  have hbefore : outline.file ∉ before.map (·.file) :=
    fun hin => hapart _ hin _ List.mem_cons_self rfl
  have hafter : outline.file ∉ after.map (·.file) := (List.nodup_cons.1 hrest).1
  -- The scopes before and after are of other files.
  rw [scopesFrom_append, scopesFrom, List.findIdx?_append, List.findIdx?_append,
    findIdx?_scopesFrom_eq_none hbefore, findIdx?_scopesFrom_eq_none hafter,
    Outline.findIdx?_placedScopes]
  cases outline.opened.findIdx? (·.path = path) with
  | none => rfl
  | some position => simp [Nat.add_comm]

end Search

/-! ## Scopes of a finished registry -/

namespace Registry

/-- `Registry.scopeOf?` finds a scope by its file and by its path, whatever the numbers of the
namespaces. -/
theorem Opened.scopeOf?_eq {registry : Registry} {scopes : List PlacedScope}
    (h : registry.Opened scopes) (file : FileId) (path : NamespacePath) :
    registry.scopeOf? file path = (scopes.findIdx? (·.isAt file path)).map ScopeId.mk := by
  rw [scopeOf?, NamespaceTree.follow?_eq_idOf? h.proper h.proper.root, List.nil_append]
  have hpath : ∀ placed ∈ scopes, registry.namespaces.path?
      (placed.scope registry.namespaces).namespaceId = some placed.path := fun _ => h.path?_scope
  cases hid : registry.namespaces.idOf? path with
  | none =>
    have hnone : scopes.findIdx? (·.isAt file path) = none := by
      refine List.findIdx?_eq_none_iff.2 fun placed hplaced => ?_
      have hne : placed.path ≠ path := by
        rintro rfl
        exact NamespaceTree.idOf?_eq_none_iff.1 hid
          (NamespaceTree.mem_paths_iff.2 ⟨_, hpath placed hplaced⟩)
      simp [PlacedScope.isAt, hne]
    rw [hnone]
    rfl
  | some id =>
    rw [Option.bind_some, ScopeTable.find?, h.scopes_eq, List.findIdx?_map]
    congr 1
    have hsame : List.Forall₂ (fun placed other => placed = other ∧ placed ∈ scopes)
        scopes scopes := List.forall₂_same.2 fun placed hplaced => ⟨rfl, hplaced⟩
    refine findIdx?_eq_of_forall₂ ?_ hsame
    rintro placed _ ⟨rfl, hplaced⟩
    -- One namespace has the path, so scopes with this namespace are those with the path.
    have hiff : (placed.scope registry.namespaces).namespaceId = id ↔ placed.path = path := by
      have hspace := (NamespaceTree.idOf?_eq_some_iff h.proper.nodup).2 (hpath placed hplaced)
      constructor
      · rintro rfl
        exact Option.some.inj ((hpath placed hplaced).symm.trans (NamespaceTree.path?_of_idOf? hid))
      · rintro rfl
        exact Option.some.inj (hspace.symm.trans hid)
    exact congrArg (decide (placed.file = file) && ·) (decide_eq_decide.2 hiff)

/-- A scope is that of `block` in the text of the file `source`. -/
structure Opens (registry : Registry) (source : SourceFile) (block : OpenedBlock)
    (scope : Scope) : Prop where
  file_eq : scope.file = source.id
  path?_eq : registry.namespaces.path? scope.namespaceId = some block.path
  usings_eq : scope.usings = block.usings

/-- From position `first` on stand the scopes of the blocks of the file `source`, in the order of
the text. The file root comes first and lies in no scope, and no other scope is of the file. -/
structure LaysOut (registry : Registry) (source : SourceFile) (first : Nat) : Prop where
  root : registry.scopes.parent? ⟨first⟩ = none
  exists_scope : ∀ {position : Nat} {block : OpenedBlock}, source.opened[position]? = some block →
    ∃ scope, registry.scopes.get? ⟨first + position⟩ = some scope ∧
      registry.Opens source block scope
  exists_position : ∀ {id : ScopeId} {scope : Scope}, registry.scopes.get? id = some scope →
    scope.file = source.id → ∃ position < source.opened.length, id = ⟨first + position⟩

section Assembled

variable {files : List SourceFile} (hids : (files.map (·.id)).Nodup) (options : Options)

include hids

/-- The scopes of each file stand together in the registry that `assemble` makes, in the order of
the text. -/
theorem laysOut_assemble {source : SourceFile} {first : Nat}
    (hstarts : (Outline.ofFile source).StartsAt (outlinesOf files) first) :
    (assemble files options).registry.LaysOut source first := by
  have hopened := opened_assemble files options
  have hplaced : ∀ {position : Nat} {scope : OutlineScope},
      (Outline.ofFile source).scopes[position]? = some scope →
        (scopesOf files)[first + position]? = some ⟨(Outline.ofFile source).file,
          scope.parent.map fun index => ⟨first + index⟩, scope.path, scope.usings⟩ :=
    fun hscope => getElem?_scopesFrom hstarts (Outline.getElem?_placedScopes first hscope)
  constructor
  case root =>
    have hroot : (scopesOf files)[(⟨first⟩ : ScopeId).index]? = some _ :=
      hplaced (Outline.getElem?_scopes_ofFile_zero source)
    obtain ⟨scope, hscope, _, hparent, _⟩ := hopened.exists_scope hroot
    rw [ScopeTable.parent?, hscope, Option.bind_some, hparent]
    rfl
  case exists_scope =>
    intro position block hblock
    rw [← Outline.opened_ofFile, Outline.opened, List.getElem?_map] at hblock
    obtain ⟨scope, hscope, rfl⟩ := Option.map_eq_some_iff.1 hblock
    have hin := hplaced hscope
    refine ⟨_, by rw [hopened.get?_scopes, hin]; rfl, ?_⟩
    exact ⟨Outline.file_ofFile source, hopened.path?_scope (List.mem_of_getElem? hin), rfl⟩
  case exists_position =>
    intro id scope hscope hfile
    obtain ⟨placed, hplaced, _, hsame, _⟩ := hopened.exists_placed hscope
    obtain ⟨outline, other, position, hothers, hindex, hposition⟩ :=
      exists_startsAt_of_scope hplaced
    -- No other file has this number, so the scope is one of those counted from `first`.
    have hfiles := nodup_file_outlinesOf hids
    have heq : outline = Outline.ofFile source := by
      refine List.inj_on_of_nodup_map hfiles hothers.mem hstarts.mem ?_
      rw [← Outline.file_of_placed hposition, ← hsame, hfile, Outline.file_ofFile]
    subst heq
    obtain rfl := (hothers.eq_start hfiles).trans (hstarts.eq_start hfiles).symm
    refine ⟨position, ?_, congrArg ScopeId.mk hindex⟩
    rw [← Outline.opened_ofFile, Outline.opened, List.length_map]
    simpa [Outline.placedScopes] using (List.getElem?_eq_some_iff.1 hposition).1

/-- `Registry.scopeOf?` finds a scope of a file at the place that the first block of the file with
the path has in the text. -/
theorem scopeOf?_assemble {source : SourceFile} {first : Nat}
    (hstarts : (Outline.ofFile source).StartsAt (outlinesOf files) first) (path : NamespacePath) :
    (assemble files options).registry.scopeOf? source.id path =
      (source.opened.findIdx? (·.path = path)).map fun position => ⟨first + position⟩ := by
  rw [(opened_assemble files options).scopeOf?_eq, ← Outline.file_ofFile source, scopesOf,
    hstarts.findIdx?_scopesFrom (nodup_file_outlinesOf hids), Outline.opened_ofFile, Option.map_map]
  rfl

omit hids in
/-- `Registry.scopeOf?` finds no scope for a file that is not there. -/
theorem scopeOf?_assemble_eq_none {file : FileId} (h : file ∉ files.map (·.id))
    (path : NamespacePath) : (assemble files options).registry.scopeOf? file path = none := by
  have hout : file ∉ (outlinesOf files).map (·.file) := by
    intro hin
    obtain ⟨outline, houtline, rfl⟩ := List.mem_map.1 hin
    obtain ⟨source, hsource, rfl⟩ := mem_outlinesOf_iff.1 houtline
    exact h (List.mem_map.2 ⟨source, hsource, (Outline.file_ofFile source).symm⟩)
  rw [(opened_assemble files options).scopeOf?_eq, scopesOf, findIdx?_scopesFrom_eq_none hout]
  rfl

/-- `Registry.scopeOf?` finds a scope exactly for a file that is there and has a block with the
path. -/
theorem exists_scopeOf?_iff {file : FileId} {path : NamespacePath} :
    (∃ id, (assemble files options).registry.scopeOf? file path = some id) ↔
      ∃ source ∈ files, source.id = file ∧ ∃ block ∈ source.opened, block.path = path := by
  have hfound : ∀ {source : SourceFile}, source ∈ files →
      ((∃ id, (assemble files options).registry.scopeOf? source.id path = some id) ↔
        ∃ block ∈ source.opened, block.path = path) := by
    intro source hsource
    obtain ⟨first, hstarts⟩ := Outline.exists_startsAt (mem_outlinesOf_iff.2 ⟨source, hsource, rfl⟩)
    rw [← Option.isSome_iff_exists, scopeOf?_assemble hids options hstarts, Option.isSome_map,
      List.findIdx?_isSome, List.any_eq_true]
    simp
  constructor
  · intro hsome
    by_cases hin : file ∈ files.map (·.id)
    · obtain ⟨source, hsource, rfl⟩ := List.mem_map.1 hin
      exact ⟨source, hsource, rfl, (hfound hsource).1 hsome⟩
    · obtain ⟨id, hid⟩ := hsome
      rw [scopeOf?_assemble_eq_none options hin] at hid
      cases hid
  · rintro ⟨source, hsource, rfl, hblock⟩
    exact (hfound hsource).2 hblock

end Assembled

end Registry

namespace Compilation

section Built

variable {compilation : Compilation} {registry : Registry}
  (hregistry : compilation.registry = some registry)

include hregistry

/-- `Compilation.scope` of a built compilation asks the registry (`Registry.scopeOf?`). -/
theorem scope_eq (file : FileId) (path : NamespacePath) :
    compilation.scope file path =
      match registry.scopeOf? file path with
      | some id => .ok id
      | none => .error (.unknownScope file path) := by
  rw [scope, built, hregistry]
  rfl

theorem scope_eq_ok_iff {file : FileId} {path : NamespacePath} {id : ScopeId} :
    compilation.scope file path = .ok id ↔ registry.scopeOf? file path = some id := by
  rw [scope_eq hregistry]
  cases registry.scopeOf? file path <;> simp

/-- `Compilation.scope`, where it fails, says which scope there is none for. -/
theorem eq_unknownScope {file : FileId} {path : NamespacePath} {fault : CompilationFault}
    (h : compilation.scope file path = .error fault) : fault = .unknownScope file path := by
  rw [scope_eq hregistry] at h
  split at h
  next => cases h
  next => exact (Except.error.inj h).symm

end Built

variable {files : List SourceFile} (hids : (files.map (·.id)).Nodup)

include hids

/-- `Compilation.scope` finds a scope exactly if the file was added and is asked for its root, or
one of its own namespace blocks has this absolute path, put together from the paths on the way to
it. Any other question fails as one for an unknown scope. The scopes of each file are those of the
file root and of its blocks in the order of the text (`Registry.LaysOut`), each with the path and
the using directives of its block. What is found is the scope of the first block with the path, and
for the empty path that of the file root. -/
theorem scope_finds_block (options : Options) :
    ∃ compilation registry, ofFiles files options = .ok compilation ∧
      compilation.registry = some registry ∧
      (∀ file path, (∃ id, compilation.scope file path = .ok id) ↔
        ∃ source ∈ files, source.id = file ∧ (path = [] ∨
          ∃ paths content, Item.HoldsBlock source.items paths content ∧ path = paths.flatten)) ∧
      (∀ file path fault, compilation.scope file path = .error fault →
        fault = .unknownScope file path) ∧
      ∀ source ∈ files, ∃ first, registry.LaysOut source first ∧
        compilation.scope source.id [] = .ok ⟨first⟩ ∧
        ∀ path id, compilation.scope source.id path = .ok id →
          ∃ position block scope, source.opened[position]? = some block ∧ block.path = path ∧
            (∀ earlier ∈ source.opened.take position, earlier.path ≠ path) ∧
            id = ⟨first + position⟩ ∧ registry.scopes.get? id = some scope ∧
            registry.Opens source block scope := by
  obtain ⟨compilation, hfiles, hregistry⟩ := ofFiles_eq_ok hids options
  refine ⟨compilation, _, hfiles, hregistry, fun file path => ?_,
    fun _ _ _ => eq_unknownScope hregistry, fun source hsource => ?_⟩
  · simp only [scope_eq_ok_iff hregistry, Registry.exists_scopeOf?_iff hids options,
      SourceFile.exists_opened_iff]
  · obtain ⟨first, hstarts⟩ := Outline.exists_startsAt (mem_outlinesOf_iff.2 ⟨source, hsource, rfl⟩)
    have hlaid := Registry.laysOut_assemble hids options hstarts
    have hfind := Registry.scopeOf?_assemble hids options hstarts
    refine ⟨first, hlaid, (scope_eq_ok_iff hregistry).2 ((hfind []).trans rfl),
      fun path id hid => ?_⟩
    -- The look-up stops at the first block with the path, whose scope stands at its position.
    rw [scope_eq_ok_iff hregistry, hfind] at hid
    obtain ⟨position, hposition, rfl⟩ := Option.map_eq_some_iff.1 hid
    obtain ⟨hlt, hpath, hearlier⟩ := List.findIdx?_eq_some_iff_getElem.1 hposition
    obtain ⟨scope, hget, hopens⟩ := hlaid.exists_scope (List.getElem?_eq_getElem hlt)
    refine ⟨position, _, scope, List.getElem?_eq_getElem hlt, of_decide_eq_true hpath,
      fun earlier hin => ?_, rfl, hget, hopens⟩
    obtain ⟨index, hindex, rfl⟩ := List.mem_take_iff_getElem.1 hin
    simpa using hearlier index (lt_min_iff.1 hindex).1

end Compilation

/-- One file opens a namespace at once, and a second time from a block around it; the other opens
the namespace around it, and one of its own. -/
def partsFiles : List SourceFile :=
  [⟨⟨3⟩, "parts", [.block ["Shop", "Parts"] [.importing ["Tools"]],
      .block ["Shop"] [.block ["Parts"] [.importing ["Base"]]]]⟩,
    ⟨⟨1⟩, "tools", [.block ["Tools"] [], .block ["Shop"] []]⟩]

/-- In the first of `partsFiles` the scope of the first of the two blocks is found, with its using
directives, and none for the namespace that only the other file opens. -/
theorem Compilation.scope_finds_block_parts :
    (partsFiles.map (·.id)).Nodup ∧ ∃ compilation registry,
      ofFiles partsFiles .standard = .ok compilation ∧ compilation.registry = some registry ∧
      compilation.scope ⟨3⟩ ["Shop", "Parts"] = .ok ⟨4⟩ ∧
      (∃ scope, registry.scopes.get? ⟨4⟩ = some scope ∧ scope.file = ⟨3⟩ ∧
        registry.namespaces.path? scope.namespaceId = some ["Shop", "Parts"] ∧
        scope.usings = [["Tools"]]) ∧
      compilation.scope ⟨3⟩ ["Tools"] = .error (.unknownScope ⟨3⟩ ["Tools"]) := by
  have hids : (partsFiles.map (·.id)).Nodup := by decide
  obtain ⟨compilation, registry, hfiles, hregistry, _, _, hfound⟩ :=
    scope_finds_block hids .standard
  have hread : ∀ file path, (ofFiles partsFiles .standard).bind (·.scope file path) =
      compilation.scope file path := by
    intro file path
    rw [hfiles]
    rfl
  have hscope : compilation.scope ⟨3⟩ ["Shop", "Parts"] = .ok ⟨4⟩ := by
    rw [← hread]
    decide +kernel
  have hroot : compilation.scope ⟨3⟩ [] = .ok ⟨3⟩ := by
    rw [← hread]
    decide +kernel
  have hnone : compilation.scope ⟨3⟩ ["Tools"] = .error (.unknownScope ⟨3⟩ ["Tools"]) := by
    rw [← hread]
    decide +kernel
  obtain ⟨first, _, hfirst, hblock⟩ := hfound _ List.mem_cons_self
  obtain ⟨position, block, scope, hposition, hpath, _, hid, hget, hopens⟩ := hblock _ _ hscope
  -- The file starts at its root, so the block is the second of its text.
  obtain rfl : first = 3 := by simpa using hfirst.symm.trans hroot
  have hplace : 3 + position = 4 := by simpa using hid.symm
  obtain rfl : position = 1 := by omega
  have husings : block.usings = [["Tools"]] := by
    obtain rfl := Option.some.inj hposition
    rfl
  exact ⟨hids, compilation, registry, hfiles, hregistry, hscope,
    ⟨scope, hget, hopens.file_eq, hpath ▸ hopens.path?_eq, hopens.usings_eq.trans husings⟩, hnone⟩

end ExtensionMembers
