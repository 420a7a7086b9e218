import ExtensionMembers.Proofs.Build.Completion
import ExtensionMembers.Proofs.Lookup.Contents
import ExtensionMembers.Proofs.Namespace.ImportSets
import ExtensionMembers.Proofs.Program.Usings

/-!
# The using directives of a block form a set

Two programs that differ only in where using directives stand among the items of their blocks, in
which order and how often, are assembled side by side. Opening scopes and resolving imports leaves
the two with the same sets of imports. Every other step of the assembly looks at the imports through
the meaning of type names alone, if at all, and leaves the scopes as they are; so it does the same
in both, and all but the scopes stays equal up to the end.

## Main definitions

* `Assembly.SameImports`: the same assembly, with the same sets of imports in each scope.
* `Assembly.IgnoresImports`: a step that does the same in both.

## Main results

* `Assembly.sameImports_declareFiles`, `Assembly.sameImports_complete`: the assembly, side by side.
* `Registry.usings_form_set`: what does not depend on the order and number of using directives.
* `Registry.usings_not_set_of_shared_hash`: what does.
-/

namespace ExtensionMembers

/-! ## Registries with other scopes -/

theorem ScopeChain.SameImports.sameReach {chain other : ScopeChain} (h : chain.SameImports other) :
    chain.SameReach other :=
  ⟨h.length_eq, h.depthOf?_eq⟩

/-- The registry with another `table` of scopes. -/
def Registry.withScopes (registry : Registry) (table : ScopeTable) : Registry :=
  { registry with scopes := table }

namespace Registry

variable {registry : Registry} {table : ScopeTable}

@[simp]
theorem namespaces_withScopes (registry : Registry) (table : ScopeTable) :
    (registry.withScopes table).namespaces = registry.namespaces := rfl

theorem registerType_withScopes (registry : Registry) (table : ScopeTable) (type : NamedType) :
    (registry.withScopes table).registerType type =
      ((registry.registerType type).1, (registry.registerType type).2.withScopes table) := by
  unfold registerType withScopes
  dsimp only
  split <;> rfl

theorem chain_withScopes (h : registry.scopes.SameImports table) (id : ScopeId) :
    (registry.chain id).SameImports ((registry.withScopes table).chain id) :=
  h.chain registry.namespaces id

theorem namespaceOf?_withScopes (h : registry.scopes.SameImports table) (extension : Extension) :
    (registry.withScopes table).namespaceOf? extension = registry.namespaceOf? extension :=
  (h.map_get?_eq (fun _ _ hscope => hscope.namespaceId_eq) extension.scope).symm

theorem registerExtension_withScopes (h : registry.scopes.SameImports table)
    (extension : Extension) :
    (registry.withScopes table).registerExtension extension =
      ((registry.registerExtension extension).1,
        (registry.registerExtension extension).2.withScopes table) := by
  -- The scope of the extension is asked for its namespace only, after the own type is registered.
  have hscopes := scopes_registerType registry extension.ownType
  unfold registerExtension
  rw [registerType_withScopes]
  generalize registry.registerType extension.ownType = outcome at hscopes
  obtain ⟨_ | _, registered⟩ := outcome
  · rfl
  · dsimp only
    rw [namespaceOf?_withScopes (hscopes ▸ h)]
    cases registered.namespaceOf? extension with
    | none => rfl
    | some id =>
      simp only [withScopes]
      cases registered.namespaces.declareExtension id extension.id <;> rfl

end Registry

/-! ## Steps that ignore imports -/

namespace Assembly

variable {assembly other : Assembly} {table : ScopeTable}

/-- The assembly with another `table` of scopes in its registry. -/
def withScopes (assembly : Assembly) (table : ScopeTable) : Assembly :=
  { assembly with registry := assembly.registry.withScopes table }

@[simp]
theorem registry_withScopes (assembly : Assembly) (table : ScopeTable) :
    (assembly.withScopes table).registry = assembly.registry.withScopes table := rfl

/-- The same assembly, with the same sets of using directives and imports in each scope
(`ScopeTable.SameImports`). -/
structure SameImports (assembly other : Assembly) : Prop where
  scopes : assembly.registry.scopes.SameImports other.registry.scopes
  eq_withScopes : other = assembly.withScopes other.registry.scopes

theorem SameImports.refl (assembly : Assembly) : assembly.SameImports assembly :=
  ⟨.refl _, rfl⟩

theorem SameImports.extensions_eq (h : assembly.SameImports other) :
    other.registry.extensions = assembly.registry.extensions :=
  congrArg (·.registry.extensions) h.eq_withScopes

/-- A `step` does the same whatever the order and number of imports in each scope. -/
def IgnoresImports (step : Assembly → Assembly) : Prop :=
  ∀ assembly table, assembly.registry.scopes.SameImports table →
    step (assembly.withScopes table) = (step assembly).withScopes table

namespace IgnoresImports

variable {step : Assembly → Assembly}

/-- A step with `IgnoresImports` leaves the scopes alone. -/
theorem scopes_eq (h : IgnoresImports step) (assembly : Assembly) :
    (step assembly).registry.scopes = assembly.registry.scopes :=
  congrArg (·.registry.scopes) (h assembly assembly.registry.scopes (.refl _))

theorem foldl {α : Type} {step : Assembly → α → Assembly}
    (h : ∀ item, IgnoresImports fun assembly => step assembly item) (items : List α) :
    IgnoresImports fun assembly => items.foldl step assembly := by
  intro assembly table htable
  induction items generalizing assembly with
  | nil => rfl
  | cons item items ih =>
    have hitem := h item assembly table htable
    dsimp only at hitem ih ⊢
    rw [List.foldl_cons, hitem, ih _ ((h item).scopes_eq assembly ▸ htable), List.foldl_cons]

theorem sameImports (h : IgnoresImports step) (hsame : assembly.SameImports other) :
    (step assembly).SameImports (step other) := by
  obtain ⟨hscopes, heq⟩ := hsame
  rw [heq, h assembly _ hscopes]
  exact ⟨(h.scopes_eq assembly).symm ▸ hscopes, rfl⟩

end IgnoresImports

theorem ignoresImports_declareType (scopes : List ScopeId) (type : OutlineType) :
    IgnoresImports fun assembly => declareType scopes assembly type := by
  intro assembly table _
  simp only [declareType, withScopes, Registry.registerType_withScopes]
  cases scopes[type.scope]? with
  | none => rfl
  | some scope =>
    dsimp only
    generalize assembly.registry.registerType _ = outcome
    obtain ⟨_ | _, registered⟩ := outcome <;> rfl

theorem ignoresImports_declareExtension (scopes : List ScopeId) (extension : OutlineExtension) :
    IgnoresImports fun assembly => declareExtension scopes assembly extension := by
  intro assembly table htable
  simp only [declareExtension, withScopes, Registry.registerExtension_withScopes htable]
  cases scopes[extension.scope]? with
  | none => rfl
  | some scope =>
    dsimp only
    generalize assembly.registry.registerExtension _ = outcome
    obtain ⟨_ | _, registered⟩ := outcome <;> rfl

theorem ignoresImports_completeType (pending : PendingType) :
    IgnoresImports fun assembly => assembly.completeType pending := by
  intro assembly table htable
  have hchain := Registry.chain_withScopes htable pending.scope
  have htype := hchain.typeRef_eq assembly.registry.namespaces []
  have hmember := hchain.member_eq assembly.registry.namespaces []
  simp only [completeType, registry_withScopes, Registry.namespaces_withScopes, ← htype, ← hmember]
  rfl

theorem signExtension_withScopes {registry : Registry} (h : registry.scopes.SameImports table)
    (declaration : ExtensionDeclaration) (extension : Extension) :
    signExtension (registry.withScopes table) declaration extension =
      signExtension registry declaration extension := by
  have hchain := Registry.chain_withScopes h extension.scope
  have htype := hchain.typeRef_eq registry.namespaces declaration.typeParameters
  have hmember := hchain.member_eq registry.namespaces declaration.typeParameters
  simp only [signExtension, Registry.namespaces_withScopes, ← htype, ← hmember]
  rfl

theorem judgeExtension_withScopes (assembly : Assembly) (table : ScopeTable) (id : ExtensionId)
    (faults : List ExtensionFault) :
    (assembly.withScopes table).judgeExtension id faults =
      (assembly.judgeExtension id faults).withScopes table := by
  cases faults with
  | nil => rfl
  | cons fault rest =>
    simp only [judgeExtension, foldl_note]
    rfl

theorem ignoresImports_completeExtension (pending : PendingExtension) :
    IgnoresImports fun assembly => assembly.completeExtension pending := by
  intro assembly table htable
  have hfound : (assembly.registry.withScopes table).extension? pending.id =
      assembly.registry.extension? pending.id := rfl
  simp only [completeExtension, registry_withScopes, hfound]
  split
  next => rfl
  next extension _ =>
    rw [signExtension_withScopes htable]
    let registry := assembly.registry.modifyExtension pending.id fun _ =>
      signExtension assembly.registry pending.declaration extension
    -- An extension is judged by the types, and by itself.
    exact judgeExtension_withScopes { assembly with registry } table pending.id _

/-- `completeType` over the types that are left has `IgnoresImports`: these are listed apart from
the scopes. -/
theorem ignoresImports_completeTypes :
    IgnoresImports fun assembly => assembly.types.foldl completeType assembly :=
  fun assembly => IgnoresImports.foldl ignoresImports_completeType assembly.types assembly

theorem ignoresImports_completeExtensions :
    IgnoresImports fun assembly => assembly.extensions.foldl completeExtension assembly :=
  fun assembly =>
    IgnoresImports.foldl ignoresImports_completeExtension assembly.extensions assembly

theorem ignoresImports_finish (options : Options) :
    IgnoresImports fun assembly => assembly.finish options := by
  intro assembly table _
  rfl

/-! ## Declarations and imports -/

/-- `declareScope` keeps `SameImports`: the new scope takes the same place on both sides, so that
the file keeps the same scopes. -/
theorem sameImports_declareScope (file : FileId) (h : assembly.SameImports other)
    (scopes : List ScopeId) {scope scope' : OutlineScope} (hscope : scope.SameUsings scope') :
    (declareScope file (assembly, scopes) scope).1.SameImports
        (declareScope file (other, scopes) scope').1 ∧
      (declareScope file (assembly, scopes) scope).2 =
        (declareScope file (other, scopes) scope').2 := by
  have hsize := h.scopes.size_eq
  obtain ⟨hscopes, heq⟩ := h
  obtain ⟨parent, path, usings⟩ := scope
  obtain ⟨_, _, usings'⟩ := scope'
  obtain ⟨rfl, rfl, husings⟩ := hscope
  refine ⟨?_, by simp only [declareScope, hsize]⟩
  rw [heq]
  -- The imports are left for later, so none are there as yet.
  exact ⟨List.rel_append hscopes (.cons ⟨rfl, rfl, rfl, husings, .refl _⟩ .nil), rfl⟩

theorem sameImports_foldl_declareScope (file : FileId) (h : assembly.SameImports other)
    (scopes : List ScopeId) {opened opened' : List OutlineScope}
    (hopened : List.Forall₂ OutlineScope.SameUsings opened opened') :
    (opened.foldl (declareScope file) (assembly, scopes)).1.SameImports
        (opened'.foldl (declareScope file) (other, scopes)).1 ∧
      (opened.foldl (declareScope file) (assembly, scopes)).2 =
        (opened'.foldl (declareScope file) (other, scopes)).2 := by
  induction hopened generalizing assembly other scopes with
  | nil => exact ⟨h, rfl⟩
  | cons hscope _ ih =>
    rw [List.foldl_cons, List.foldl_cons]
    obtain ⟨hnext, hsame⟩ := sameImports_declareScope file h scopes hscope
    generalize declareScope file (assembly, scopes) _ = next at hnext hsame ⊢
    generalize declareScope file (other, scopes) _ = next' at hnext hsame ⊢
    obtain ⟨_, ids⟩ := next
    obtain ⟨_, _⟩ := next'
    obtain rfl : ids = _ := hsame
    exact ih hnext ids

/-- `declareOutline` keeps `SameImports` for a file that differs in its sets of using directives
alone. -/
theorem sameImports_declareOutline (h : assembly.SameImports other) {outline outline' : Outline}
    (houtline : outline.SameUsings outline') :
    (assembly.declareOutline outline).SameImports (other.declareOutline outline') := by
  obtain ⟨hscopes, hids⟩ := sameImports_foldl_declareScope outline.file h [] houtline.scopes
  let ids := (outline.scopes.foldl (declareScope outline.file) (assembly, [])).2
  have htypes := (IgnoresImports.foldl (ignoresImports_declareType ids) outline.types).sameImports
    hscopes
  have hextensions := (IgnoresImports.foldl (ignoresImports_declareExtension ids)
    outline.extensions).sameImports htypes
  rw [declareOutline, declareOutline, ← houtline.file_eq, ← houtline.types_eq,
    ← houtline.extensions_eq, ← hids]
  exact hextensions

theorem sameImports_declareFiles {files others : List SourceFile}
    (h : List.Forall₂ SourceFile.SameUsings files others) :
    (declareFiles files).SameImports (declareFiles others) := by
  have houtlines : List.Forall₂ Outline.SameUsings
      (stableSort (fun outline => [outline.file.index]) (files.map Outline.ofFile))
      (stableSort (fun outline => [outline.file.index]) (others.map Outline.ofFile)) :=
    forall₂_stableSort (fun _ _ houtline => by rw [houtline.file_eq])
      (List.rel_map (fun _ _ hfile => Outline.sameUsings_ofFile hfile) h)
  exact List.rel_foldl (P := SameImports) (R := Outline.SameUsings)
    (fun _ _ h _ _ houtline => sameImports_declareOutline h houtline) (.refl start) houtlines

theorem sameImports_complete (h : assembly.SameImports other) :
    assembly.complete.SameImports other.complete := by
  obtain ⟨hscopes, heq⟩ := h
  have hresolved : SameImports { assembly with registry := assembly.registry.resolveImports }
      { other with registry := other.registry.resolveImports } := by
    rw [heq]
    exact ⟨List.rel_map (fun _ _ hscope => hscope.resolveImports assembly.registry.namespaces)
      hscopes, rfl⟩
  exact ignoresImports_completeExtensions.sameImports
    (ignoresImports_completeTypes.sameImports hresolved)

end Assembly

/-! ## What stays as it is -/

namespace Registry

theorem sameContents_withScopes {registry : Registry} {table : ScopeTable}
    (h : registry.scopes.SameImports table) : registry.SameContents (registry.withScopes table) :=
  ⟨fun _ => rfl, rfl, rfl, fun extension => (namespaceOf?_withScopes h extension).symm⟩

section Sets

variable {files others : List SourceFile} (h : List.Forall₂ SourceFile.SameUsings files others)

include h

theorem sameImports_assemble (options : Options) :
    (assemble files options).SameImports (assemble others options) :=
  (Assembly.ignoresImports_finish options).sameImports
    (Assembly.sameImports_complete (Assembly.sameImports_declareFiles h))

/-- The using directives of a block form a set: where they stand among its items, in which order and
how often, changes nothing that `assemble` makes but the lists of using directives and imports in
the scopes (`SameImports`). All types and extensions are the same, with their signatures, and so are
the judgement on each extension and all that is noted. `lowerSite` and `lowerProtocol` lower uses
alike, with the same diagnostics. A type name means the same at each scope; only if it is ambiguous,
the candidates may come in another order, and for a candidate another import of the same level that
supplies the type may be named. -/
theorem usings_form_set (options : Options) :
    let assembly := assemble files options
    let other := assemble others options
    assembly.SameImports other ∧
      (∀ site, other.registry.lowerSite site = assembly.registry.lowerSite site) ∧
      (∀ site, other.registry.lowerProtocol site = assembly.registry.lowerProtocol site) ∧
      ∀ id, (assembly.registry.chain id).SameImports (other.registry.chain id) ∧
        ∀ pieces, (assembly.registry.namespaces.resolveType pieces
          (assembly.registry.chain id)).UpTo
            (assembly.registry.namespaces.Interchangeable pieces (assembly.registry.chain id))
            (other.registry.namespaces.resolveType pieces (other.registry.chain id)) := by
  intro assembly other
  have hsame : assembly.SameImports other := sameImports_assemble h options
  obtain ⟨hscopes, heq⟩ := id hsame
  -- The registries differ in their scopes only, and these reach the same namespaces.
  have hregistry : other.registry = assembly.registry.withScopes other.registry.scopes :=
    congrArg (·.registry) heq
  have hcontents := sameContents_withScopes hscopes
  have hchain : ∀ id, (assembly.registry.chain id).SameImports (other.registry.chain id) := by
    rw [hregistry]
    exact chain_withScopes hscopes
  have hnamespaces : other.registry.namespaces = assembly.registry.namespaces := by
    rw [hregistry, namespaces_withScopes]
  rw [← hregistry] at hcontents
  refine ⟨hsame, fun site => ?_, fun site => ?_, fun id => ⟨hchain id, fun pieces => ?_⟩⟩
  · exact (hcontents.lowerSite_congr (hchain site.scope).sameReach).symm
  · exact (hcontents.lowerProtocol_congr (hchain site.scope).sameReach).symm
  · rw [hnamespaces]
    exact (hchain id).upTo_resolveType assembly.registry.namespaces pieces

end Sets

/-- A class in a namespace of its own. -/
def classBlock (path : NamespacePath) (name : String) : Item :=
  .block path [.type ⟨.plainClass, name, none, [], .unplaced⟩]

/-- Two classes of one name and one of another, each in its namespace. -/
def classesFile : SourceFile :=
  ⟨⟨0⟩, "classes", [classBlock ["Left"] "P", classBlock ["Right"] "P", classBlock ["Mid"] "Q"]⟩

/-- An extension of a class that an import supplies. -/
def toolsExtension : Item :=
  .extension ⟨"Tools", some (.parse "Q"), [],
    [{ (default : WrittenMember) with name := "Use", result := some (.parse "Q") }], .unplaced⟩

/-- A file with using directives, and with a block that has some more. -/
def toolsFile (items inner : List Item) : SourceFile :=
  ⟨⟨1⟩, "tools", items ++ [.block ["App"] inner]⟩

/-- The using directives of a `toolsFile` come in the other order, one of them behind the block, and
that of the block comes after the extension and twice. The extension is the same, and the use of its
member is lowered alike; the name of the two classes is ambiguous as before, with the candidates in
the other order. -/
theorem usings_form_set_moved :
    let file := toolsFile [.importing ["Left"], .importing ["Right"]]
      [.importing ["Mid"], toolsExtension]
    let moved : SourceFile := ⟨⟨1⟩, "tools", [.importing ["Right"],
      .block ["App"] [toolsExtension, .importing ["Mid"], .importing ["Mid"]],
      .importing ["Left"]]⟩
    let registry := (assemble [classesFile, file] .standard).registry
    let other := (assemble [classesFile, moved] .standard).registry
    let call : AccessSite := ⟨⟨0⟩, .unplaced, ⟨5⟩, .onValue ⟨1⟩ (QualifiedName.mk ["Mid"] "Q").hash,
      "Use", .invoke []⟩
    List.Forall₂ SourceFile.SameUsings [classesFile, file] [classesFile, moved] ∧
      registry.namespaces.resolveType ["P"] (registry.chain ⟨4⟩) =
        .ambiguous [(⟨1⟩, (QualifiedName.mk ["Left"] "P").hash),
          (⟨2⟩, (QualifiedName.mk ["Right"] "P").hash)] ∧
      other.namespaces.resolveType ["P"] (other.chain ⟨4⟩) =
        .ambiguous [(⟨2⟩, (QualifiedName.mk ["Right"] "P").hash),
          (⟨1⟩, (QualifiedName.mk ["Left"] "P").hash)] ∧
      other.extensions = registry.extensions ∧
      other.lowerSite call = registry.lowerSite call := by
  intro file moved registry other call
  have hblock : Item.SameUsings [.importing ["Mid"], toolsExtension]
      [toolsExtension, .importing ["Mid"], .importing ["Mid"]] := .of_filter_eq rfl (by decide)
  have hmoved : file.SameUsings moved :=
    ⟨rfl, .left _ (.left _ (.right _ (.block _ hblock.declarations hblock.usings (.right _ .nil)))),
      by decide⟩
  have hfiles : List.Forall₂ SourceFile.SameUsings [classesFile, file] [classesFile, moved] :=
    .cons (.refl _) (.cons hmoved .nil)
  obtain ⟨hsame, hsites, _⟩ := usings_form_set hfiles .standard
  exact ⟨hfiles, by decide +kernel, by decide +kernel,
    hsame.extensions_eq, hsites call⟩

/-- A class `P` in the namespace `A::B` of one name, and one in the namespace `B` within `A`; both
have the same hash. -/
def collidingFile : SourceFile :=
  ⟨⟨0⟩, "colliding", [classBlock ["A::B"] "P", classBlock ["A", "B"] "P", classBlock ["C"] "P"]⟩

/-- `resolveType` names the first import that supplies a type. So if two namespaces supply types
with the same hash, using directives in another order name another namespace, and not just the same
ones in another order. -/
theorem usings_not_set_of_shared_hash :
    let file := ⟨⟨1⟩, "app", [.importing ["A::B"], .importing ["A", "B"], .importing ["C"]]⟩
    let moved := ⟨⟨1⟩, "app", [.importing ["A", "B"], .importing ["A::B"], .importing ["C"]]⟩
    let registry := (assemble [collidingFile, file] .standard).registry
    let other := (assemble [collidingFile, moved] .standard).registry
    ([collidingFile, file].map (·.id)).Nodup ∧
      List.Forall₂ SourceFile.SameUsings [collidingFile, file] [collidingFile, moved] ∧
      ∃ candidates others : List (NamespaceId × TypeHash),
        registry.namespaces.resolveType ["P"] (registry.chain ⟨4⟩) = .ambiguous candidates ∧
        other.namespaces.resolveType ["P"] (other.chain ⟨4⟩) = .ambiguous others ∧
        ¬ candidates.Perm others := by
  intro file moved registry other
  have hfiles : List.Forall₂ SourceFile.SameUsings [collidingFile, file] [collidingFile, moved] :=
    .cons (.refl _) (.cons ⟨rfl, .of_filter_eq rfl (by decide)⟩ .nil)
  refine ⟨by decide, hfiles,
    [(⟨1⟩, (QualifiedName.mk ["A", "B"] "P").hash), (⟨4⟩, (QualifiedName.mk ["C"] "P").hash)],
    [(⟨3⟩, (QualifiedName.mk ["A", "B"] "P").hash), (⟨4⟩, (QualifiedName.mk ["C"] "P").hash)],
    by decide +kernel, by decide +kernel, by decide +kernel⟩

end Registry

end ExtensionMembers
