import ExtensionMembers.Build.Assembly
import ExtensionMembers.Proofs.Collection.Traversal
import Mathlib.Data.List.Nodup
import Mathlib.Data.List.Perm.Subperm

/-!
# Reachable registries

A registry only ever changes by declarations, by changes of what is declared, and by indexing.
This module lists these operations and derives what holds after any sequence of them:

* `Registry.Reachable`: the registries that the operations lead to, from the empty one.
* `Registry.registerExtension_cases`: what declaring an extension does.
* `Registry.reachable_assemble`: the registry of some files is one of them.
* `Registry.IndexWithinExtensions`: the index names every registration at most once, kept by each
  operation (`indexWithinExtensions_of_reachable`).
* `Registry.extensionsOf_reindex`: where identities are distinct, what a new index lists for a type.
* `Registry.nodup_extensionsOf`: where identities are distinct, no extension is listed twice for a
  type.
-/

namespace ExtensionMembers

/-- One operation on a `NamespaceTree`: a namespace made, or something declared in one. -/
inductive NamespaceTree.Step : NamespaceTree → NamespaceTree → Prop
  | makeChild (tree : NamespaceTree) (parent : NamespaceId) (name : String) :
      Step tree (tree.makeChild parent name).1
  | declareType {tree after : NamespaceTree} (id : NamespaceId) (name : String)
      (hash : TypeHash) (h : tree.declareType id name hash = .ok after) : Step tree after
  | declareExtension {tree after : NamespaceTree} (id : NamespaceId) (extension : ExtensionId)
      (h : tree.declareExtension id extension = .ok after) : Step tree after

namespace Registry

/-- The registries that come from `empty` by any sequence of operations. Scopes, types and
extensions may change in any way, only the identity of an extension (`Extension.id`) is for good. -/
inductive Reachable : Registry → Prop
  | empty : Reachable .empty
  | changeTree {registry : Registry} (after : NamespaceTree) :
      Reachable registry → registry.namespaces.Step after →
      Reachable { registry with namespaces := after }
  | changeScopes {registry : Registry} (scopes : ScopeTable) :
      Reachable registry → Reachable { registry with scopes }
  | registerType {registry : Registry} (type : NamedType) :
      Reachable registry → Reachable (registry.registerType type).2
  | modifyType {registry : Registry} (hash : TypeHash) (change : NamedType → NamedType) :
      Reachable registry → Reachable (registry.modifyType hash change)
  | registerExtension {registry : Registry} (extension : Extension) :
      Reachable registry → Reachable (registry.registerExtension extension).2
  | modifyExtension {registry : Registry} (id : ExtensionId) (change : Extension → Extension) :
      Reachable registry → (∀ extension, extension.id = id → (change extension).id = id) →
      Reachable (registry.modifyExtension id change)
  | reindex {registry : Registry} : Reachable registry → Reachable registry.reindex

/-! ## What the operations leave alone -/

/-- `registerType` leaves the extensions alone. -/
@[simp]
theorem extensions_registerType (registry : Registry) (type : NamedType) :
    (registry.registerType type).2.extensions = registry.extensions := by
  unfold registerType
  dsimp only
  split <;> rfl

/-- `registerType` leaves the index alone. -/
@[simp]
theorem index_registerType (registry : Registry) (type : NamedType) :
    (registry.registerType type).2.index = registry.index := by
  unfold registerType
  dsimp only
  split <;> rfl

/-- `registerType` leaves the scopes alone. -/
@[simp]
theorem scopes_registerType (registry : Registry) (type : NamedType) :
    (registry.registerType type).2.scopes = registry.scopes := by
  unfold registerType
  dsimp only
  split <;> rfl

/-- What `registerExtension` does. The own type (`Extension.ownType`) fails, and so does the
extension; or its scope leads to no namespace, and the own type stays; or it is declared in the
namespace of its scope and goes to the end of the extensions. -/
theorem registerExtension_cases (registry : Registry) (extension : Extension) :
    let own := registry.registerType extension.ownType
    let outcome := registry.registerExtension extension
    (∃ fault, own.1 = .error fault ∧ outcome = (.error fault, own.2)) ∨
      (own.1 = .ok () ∧
        (∀ id, own.2.namespaceOf? extension = some id → own.2.namespaces.path? id = none) ∧
        outcome = (.error .unknownNamespace, own.2)) ∨
      (own.1 = .ok () ∧ ∃ id path tree, own.2.namespaceOf? extension = some id ∧
        own.2.namespaces.path? id = some path ∧
        own.2.namespaces.declareExtension id extension.id = .ok tree ∧
        outcome = (.ok (), { own.2 with
          namespaces := tree, extensions := own.2.extensions ++ [extension] })) := by
  unfold registerExtension
  generalize registry.registerType extension.ownType = own
  obtain ⟨result, after⟩ := own
  cases result with
  | error fault => exact .inl ⟨fault, rfl, rfl⟩
  | ok done =>
    refine .inr ?_
    dsimp only
    cases hid : after.namespaceOf? extension with
    | none => exact .inl ⟨rfl, nofun, rfl⟩
    | some id =>
      dsimp only
      -- Declaring the extension fails only in a namespace that there is not.
      cases hpath : after.namespaces.path? id with
      | none =>
        have hspace : after.namespaces.space? id = none := Option.map_eq_none_iff.1 hpath
        rw [NamespaceTree.declareExtension, hspace]
        refine .inl ⟨rfl, fun other hother => ?_, rfl⟩
        rw [← Option.some.inj hother, hpath]
      | some path =>
        obtain ⟨space, hspace, _⟩ := Option.map_eq_some_iff.1 hpath
        obtain ⟨tree, hadded⟩ : ∃ tree,
            after.namespaces.declareExtension id extension.id = .ok tree := by
          rw [NamespaceTree.declareExtension, hspace]
          exact ⟨_, rfl⟩
        rw [hadded]
        exact .inr ⟨rfl, id, path, tree, rfl, hpath, hadded, rfl⟩

/-- `registerExtension` adds the extension at the end, or fails and leaves the extensions alone. -/
theorem extensions_registerExtension (registry : Registry) (extension : Extension) :
    (registry.registerExtension extension).2.extensions = registry.extensions ∨
      (registry.registerExtension extension).2.extensions =
        registry.extensions ++ [extension] := by
  have htype := extensions_registerType registry extension.ownType
  rcases registerExtension_cases registry extension with
    ⟨_, _, houtcome⟩ | ⟨_, _, houtcome⟩ | ⟨_, _, _, _, _, _, _, houtcome⟩
  · exact .inl (by rw [houtcome, htype])
  · exact .inl (by rw [houtcome, htype])
  · exact .inr (by rw [houtcome, htype])

/-- `registerExtension` leaves the index alone. -/
@[simp]
theorem index_registerExtension (registry : Registry) (extension : Extension) :
    (registry.registerExtension extension).2.index = registry.index := by
  rw [← index_registerType registry extension.ownType]
  rcases registerExtension_cases registry extension with
    ⟨_, _, houtcome⟩ | ⟨_, _, houtcome⟩ | ⟨_, _, _, _, _, _, _, houtcome⟩
  all_goals rw [houtcome]

/-- `modifyFirst` keeps all identities if the change keeps the identity of what it changes. -/
theorem map_id_modifyFirst {id : ExtensionId} {change : Extension → Extension}
    (hkeeps : ∀ extension, extension.id = id → (change extension).id = id)
    (extensions : List Extension) :
    (modifyFirst id change extensions).map (·.id) = extensions.map (·.id) := by
  induction extensions with
  | nil => rfl
  | cons first rest ih =>
    by_cases hid : first.id = id
    · simp [modifyFirst, hid, hkeeps first hid]
    · simp [modifyFirst, hid, ih]

/-- `modifyExtension` keeps all identities. -/
theorem map_id_modifyExtension (registry : Registry) {id : ExtensionId}
    {change : Extension → Extension}
    (hkeeps : ∀ extension, extension.id = id → (change extension).id = id) :
    (registry.modifyExtension id change).extensions.map (·.id) =
      registry.extensions.map (·.id) := by
  simp [modifyExtension, map_id_modifyFirst hkeeps]

/-- `extension?` finds a changed extension, if the change keeps the identity. -/
theorem extension?_modifyExtension (registry : Registry) {id : ExtensionId}
    {change : Extension → Extension}
    (hkeeps : ∀ extension, extension.id = id → (change extension).id = id) :
    (registry.modifyExtension id change).extension? id = (registry.extension? id).map change := by
  unfold modifyExtension extension?
  rw [List.reverse_reverse]
  -- The first one from the end is changed, and it is the one that is found.
  induction registry.extensions.reverse with
  | nil => rfl
  | cons first rest ih =>
    by_cases hid : first.id = id
    · simp [modifyFirst, hid, hkeeps first hid]
    · simpa [modifyFirst, hid] using ih

/-! ## The index -/

/-- The `index` names no registration twice, and nothing that is not registered. -/
def IndexWithinExtensions (registry : Registry) : Prop :=
  (registry.index.map (·.2)).Subperm (registry.extensions.map (·.id))

/-- The entries that `indexEntry?` gives name some of the extensions, in order. -/
theorem map_indexEntry_sublist (extensions : List Extension) :
    ((extensions.filterMap indexEntry?).map (·.2)).Sublist (extensions.map (·.id)) := by
  refine map_filterMap_sublist (fun extension entry hentry => ?_) extensions
  unfold indexEntry? at hentry
  split at hentry
  · obtain ⟨hash, _, rfl⟩ := Option.map_eq_some_iff.1 hentry
    rfl
  · cases hentry

/-- `reindex` makes an index that names no registration twice, whatever the old one did. -/
theorem indexWithinExtensions_reindex (registry : Registry) :
    registry.reindex.IndexWithinExtensions := by
  have hsorted := stableSort_perm (fun extension : Extension => extension.id.key)
    registry.extensions
  exact (map_indexEntry_sublist _).subperm.trans (hsorted.map (·.id)).subperm

/-- In a `Reachable` registry the index names no registration twice. -/
theorem indexWithinExtensions_of_reachable {registry : Registry} (hreach : registry.Reachable) :
    registry.IndexWithinExtensions := by
  -- Extensions are only added or changed in place, and only indexing writes the index.
  induction hreach with
  | empty => exact List.Subperm.refl _
  | changeTree after _ _ ih => exact ih
  | changeScopes scopes _ ih => exact ih
  | registerType type _ ih => simpa [IndexWithinExtensions] using ih
  | modifyType hash change _ ih => exact ih
  | @registerExtension before extension _ ih =>
    unfold IndexWithinExtensions
    rw [index_registerExtension]
    rcases extensions_registerExtension before extension with hsame | hadded
    · rw [hsame]
      exact ih
    · rw [hadded, List.map_append]
      exact ih.trans (List.sublist_append_left _ _).subperm
  | @modifyExtension before id change _ hkeeps ih =>
    unfold IndexWithinExtensions
    rw [map_id_modifyExtension before hkeeps]
    exact ih
  | reindex _ _ => exact indexWithinExtensions_reindex _

/-- `extension?` finds an extension with the identity asked for. -/
theorem id_of_extension? {registry : Registry} {id : ExtensionId} {extension : Extension}
    (h : registry.extension? id = some extension) : extension.id = id := by
  simpa using List.find?_some h

/-- Where the identities of extensions are distinct, `extension?` finds each one. -/
theorem extension?_of_mem {registry : Registry} (hids : (registry.extensions.map (·.id)).Nodup)
    {extension : Extension} (hin : extension ∈ registry.extensions) :
    registry.extension? extension.id = some extension := by
  cases hfound : registry.extension? extension.id with
  | none =>
    have hnone := List.find?_eq_none.1 hfound extension (List.mem_reverse.2 hin)
    simp at hnone
  | some found =>
    have hmem := List.mem_reverse.1 (List.mem_of_find?_eq_some hfound)
    exact congrArg some (List.inj_on_of_nodup_map hids hmem hin (id_of_extension? hfound))

/-- Where the identities of extensions are distinct, `reindex` lists for a type the valid ones that
extend it, in declaration order. -/
theorem extensionsOf_reindex {registry : Registry} (hids : (registry.extensions.map (·.id)).Nodup)
    (hash : TypeHash) :
    registry.reindex.extensionsOf hash =
      (stableSort (·.id.key) registry.extensions).filter fun extension =>
        extension.isValid && decide (extension.extendedHash? = some hash) := by
  -- Making the index changes no extension.
  show (((stableSort (·.id.key) registry.extensions).filterMap indexEntry?).filter
    (·.1 = hash)).filterMap (fun entry => registry.extension? entry.2) = _
  rw [List.filter_filterMap, List.filterMap_filterMap, ← List.filterMap_eq_filter]
  refine List.filterMap_congr fun extension hin => ?_
  have hfound := extension?_of_mem hids ((stableSort_perm _ _).mem_iff.1 hin)
  unfold indexEntry? Option.guard
  cases hvalid : extension.isValid with
  | false => simp [hvalid]
  | true =>
    cases hextended : extension.extendedHash? with
    | none => simp [hextended]
    | some target =>
      by_cases heq : target = hash
      · simp [Option.filter, heq, hvalid, hextended, hfound]
      · simp [Option.filter, heq, hextended]

/-- `extensionsOf` lists some of the extensions that the index names, in order. -/
theorem map_id_extensionsOf_sublist (registry : Registry) (hash : TypeHash) :
    ((registry.extensionsOf hash).map (·.id)).Sublist (registry.index.map (·.2)) := by
  have hentries : (registry.index.filter (·.1 = hash)).Sublist registry.index :=
    List.filter_sublist
  refine List.Sublist.trans ?_ (hentries.map (·.2))
  exact map_filterMap_sublist (fun entry extension hfound => id_of_extension? hfound) _

/-- Where the identities of extensions are distinct, `extensionsOf` lists none twice. -/
theorem nodup_extensionsOf {registry : Registry} (hreach : registry.Reachable)
    (hids : (registry.extensions.map (·.id)).Nodup) (hash : TypeHash) :
    (registry.extensionsOf hash).Nodup := by
  obtain ⟨named, hperm, hsub⟩ := indexWithinExtensions_of_reachable hreach
  have hindex : (registry.index.map (·.2)).Nodup := hperm.nodup_iff.1 (hids.sublist hsub)
  exact List.Nodup.of_map _ (hindex.sublist (map_id_extensionsOf_sublist registry hash))

/-! ## Assembled registries -/

/-- `Reachable` after namespaces are made along a whole path. -/
theorem Reachable.makePath {registry : Registry} (hreach : registry.Reachable)
    (start : NamespaceId) (path : NamespacePath) :
    Reachable { registry with namespaces := (registry.namespaces.makePath start path).1 } := by
  induction path generalizing registry start with
  | nil => exact hreach
  | cons name rest ih => exact ih (.changeTree _ hreach (.makeChild _ start name)) _

/-- What holds of the empty registry and is kept by `registerType` holds of `withBuiltIns`. -/
theorem withBuiltIns_induction {P : Registry → Prop} (hempty : P .empty)
    (htype : ∀ registry type, P registry → P (registry.registerType type).2) :
    P withBuiltIns := by
  unfold withBuiltIns registerBuiltIns
  refine List.foldlRecOn (motive := P) BuiltIn.names _ hempty fun registry h name _ => ?_
  dsimp only
  split
  · exact h
  · exact htype registry _ h

theorem reachable_withBuiltIns : withBuiltIns.Reachable :=
  withBuiltIns_induction .empty fun _ type h => .registerType type h

end Registry

namespace Assembly

/-- `Assembly.note` adds to the end of the report and changes nothing else. -/
theorem foldl_note (faults : List Fault) (assembly : Assembly) :
    faults.foldl note assembly = { assembly with
      report := ⟨assembly.report.entries ++ faults.map (·.diagnostic)⟩ } := by
  induction faults generalizing assembly with
  | nil => simp
  | cons fault rest ih =>
    rw [List.foldl_cons, ih]
    simp [note, Report.push]

/-- A loop keeps what holds of `Assembly.registry` if each of its steps does. -/
theorem registry_foldl {P : Registry → Prop} {α : Type} {step : Assembly → α → Assembly}
    (hstep : ∀ assembly item, P assembly.registry → P (step assembly item).registry)
    (items : List α) {assembly : Assembly} (h : P assembly.registry) :
    P (items.foldl step assembly).registry :=
  List.foldlRecOn (motive := fun assembly => P assembly.registry) items step h
    fun assembly h item _ => hstep assembly item h

/-- `declareType` registers the type if its scope is one of the file; otherwise nothing happens. -/
theorem registry_declareType (scopes : List ScopeId) (assembly : Assembly) (type : OutlineType) :
    (declareType scopes assembly type).registry = assembly.registry ∨
      (declareType scopes assembly type).registry = (assembly.registry.registerType
        (.bare type.name type.declaration.kind.typeKind type.declaration.span)).2 := by
  unfold declareType
  split
  next => exact .inl rfl
  next =>
    dsimp only
    split
    next hdone => exact .inr (by rw [hdone])
    next hdone => exact .inr (by rw [hdone]; rfl)

/-- `declareExtension` registers the extension with its scope if that is one of the file; otherwise
nothing happens. -/
theorem registry_declareExtension (scopes : List ScopeId) (assembly : Assembly)
    (extension : OutlineExtension) :
    (declareExtension scopes assembly extension).registry = assembly.registry ∨
      ∃ scope, (declareExtension scopes assembly extension).registry =
        (assembly.registry.registerExtension (.declared extension.id extension.name scope
          extension.declaration.span)).2 := by
  unfold declareExtension
  split
  next => exact .inl rfl
  next scope _ =>
    refine .inr ⟨scope, ?_⟩
    dsimp only
    split
    next hdone => rw [hdone]
    next hdone =>
      rw [hdone]
      rfl

/-- What holds of the built-in types and is kept by each single declaration holds after
`declareFiles`. -/
theorem declareFiles_induction {P : Registry → Prop} (hbuiltIns : P .withBuiltIns)
    (hscope : ∀ file (opened : Assembly × List ScopeId) scope, P opened.1.registry →
      P (declareScope file opened scope).1.registry)
    (htype : ∀ registry type, P registry → P (registry.registerType type).2)
    (hextension : ∀ registry extension, P registry → P (registry.registerExtension extension).2)
    (files : List SourceFile) : P (declareFiles files).registry := by
  have hstart : P start.registry := by
    rw [show start.registry = .withBuiltIns by rw [start]]
    exact hbuiltIns
  refine registry_foldl (fun assembly outline h => ?_) _ hstart
  -- The three loops over the scopes, the types and the extensions of a file, the last one first.
  refine registry_foldl (fun assembly extension h => ?_) outline.extensions ?_
  · rcases registry_declareExtension _ assembly extension with hskipped | ⟨scope, hdone⟩
    · rwa [hskipped]
    · rw [hdone]
      exact hextension _ _ h
  refine registry_foldl (fun assembly type h => ?_) outline.types ?_
  · rcases registry_declareType _ assembly type with hskipped | hdone
    · rwa [hskipped]
    · rw [hdone]
      exact htype _ _ h
  exact List.foldlRecOn (motive := fun opened : Assembly × List ScopeId => P opened.1.registry)
    outline.scopes _ h fun opened h scope _ => hscope outline.file opened scope h

section Completing

variable {P : Registry → Prop}
  (hmodify : ∀ registry id change, P registry →
    (∀ extension : Extension, extension.id = id → (change extension).id = id) →
    P (registry.modifyExtension id change))

include hmodify

theorem registry_judgeExtension {assembly : Assembly} (h : P assembly.registry) (id : ExtensionId)
    (faults : List ExtensionFault) : P (assembly.judgeExtension id faults).registry := by
  cases faults with
  | nil => exact h
  | cons fault rest =>
    refine hmodify _ _ _ ?_ fun _ hid => hid
    rw [foldl_note]
    exact h

/-- `completeExtension` keeps what holds of the registry and is kept by changes of single
extensions: the signed extension takes the place of the declared one and has its identity. -/
theorem registry_completeExtension {assembly : Assembly} (h : P assembly.registry)
    (pending : PendingExtension) : P (assembly.completeExtension pending).registry := by
  unfold completeExtension
  split
  next => exact h
  next extension hfound =>
    have hid : extension.id = pending.id := Registry.id_of_extension? hfound
    refine registry_judgeExtension hmodify ?_ _ _
    exact hmodify _ _ _ h fun _ _ => hid

/-- What holds of a declared program and is kept by changes of its scopes, of its types and of its
extensions holds after `complete`. -/
theorem complete_induction {assembly : Assembly} (h : P assembly.registry)
    (hscopes : ∀ registry scopes, P registry → P { registry with scopes })
    (htype : ∀ registry hash change, P registry → P (registry.modifyType hash change)) :
    P assembly.complete.registry := by
  unfold complete
  -- Last to first: extensions are completed after types, and types after the imports.
  refine registry_foldl (fun _ pending h => registry_completeExtension hmodify h pending) _ ?_
  refine registry_foldl (fun _ pending h => htype _ pending.hash _ h) _ ?_
  exact hscopes _ _ h

end Completing

end Assembly

/-- The registry that `declareFiles` makes is `Reachable`. -/
theorem Registry.reachable_declareFiles (files : List SourceFile) :
    (Assembly.declareFiles files).registry.Reachable :=
  Assembly.declareFiles_induction reachable_withBuiltIns
    (fun _ _ scope h => .changeScopes _ (h.makePath NamespaceTree.root scope.path))
    (fun _ type h => .registerType type h) (fun _ extension h => .registerExtension extension h)
    files

/-- The registry that `assemble` makes is `Reachable`. -/
theorem Registry.reachable_assemble (files : List SourceFile) (options : Options) :
    (assemble files options).registry.Reachable :=
  .reindex (Assembly.complete_induction (fun _ id _ h hkeeps => .modifyExtension id _ h hkeeps)
    (reachable_declareFiles files) (fun _ scopes h => .changeScopes scopes h)
    fun _ hash _ h => .modifyType hash _ h)

end ExtensionMembers
