import ExtensionMembers.Proofs.Collection.Correspondence
import ExtensionMembers.Proofs.Registry.Reachable

/-!
# Extensions in their namespaces

A namespace lists the extensions declared in it. The list is kept beside the registry's own list of
extensions, and written by another function, so that they agree is an invariant: every namespace
lists the extensions whose scope opens it, in the order in which they were registered.

## Main definitions

* `NamespaceTree.extensionsIn`: the extensions that a namespace lists.
* `Registry.Enrolled`: the lists of the namespaces are those of the registry.

## Main results

* `Registry.Enrolled.congr`: what the invariant depends on.
* `Registry.Enrolled.registerType`, `Registry.Enrolled.registerExtension`: the declarations keep it,
  whether or not they succeed.
* `Assembly.enrolled_declareFiles`: it holds after any files are declared.
-/

namespace ExtensionMembers

/-! ## The lists of a tree -/

namespace NamespaceTree

/-- The extensions that a namespace lists (`Namespace.extensions`); one that does not exist lists
none. -/
def extensionsIn (tree : NamespaceTree) (id : NamespaceId) : List ExtensionId :=
  ((tree.space? id).map (·.extensions)).getD []

/-- `append` makes a namespace that lists nothing. -/
theorem extensionsIn_append (tree : NamespaceTree) (path : NamespacePath) (id : NamespaceId) :
    (tree.append path).extensionsIn id = tree.extensionsIn id := by
  rw [extensionsIn, space?_append]
  split
  next hnew =>
    have hnone : tree.space? id = none := by simp [space?, hnew]
    rw [extensionsIn, hnone]
    rfl
  next => rfl

theorem extensionsIn_makeChild (tree : NamespaceTree) (parent : NamespaceId) (name : String)
    (id : NamespaceId) : (tree.makeChild parent name).1.extensionsIn id = tree.extensionsIn id := by
  unfold makeChild
  split
  · rfl
  · exact tree.extensionsIn_append _ id
  · rfl

theorem extensionsIn_makePath (tree : NamespaceTree) (start : NamespaceId) (path : NamespacePath)
    (id : NamespaceId) : (tree.makePath start path).1.extensionsIn id = tree.extensionsIn id := by
  induction path generalizing tree start with
  | nil => rfl
  | cons name rest ih =>
    rw [makePath, ih]
    exact tree.extensionsIn_makeChild start name id

variable {tree later : NamespaceTree} {id : NamespaceId}

/-- `declareType` adds to the types of its namespace only. -/
theorem extensionsIn_declareType {name : String} {hash : TypeHash}
    (h : tree.declareType id name hash = .ok later) (other : NamespaceId) :
    later.extensionsIn other = tree.extensionsIn other := by
  unfold declareType at h
  split at h
  · cases h
  · split at h
    · cases h
    · rw [← Except.ok.inj h, extensionsIn, space?_modify, extensionsIn]
      split
      · rw [Option.map_map]
        rfl
      · rfl

/-- `declareExtension` adds to the end of the list of its namespace. -/
theorem extensionsIn_declareExtension {extension : ExtensionId}
    (h : tree.declareExtension id extension = .ok later) (other : NamespaceId) :
    later.extensionsIn other =
      if id = other then tree.extensionsIn other ++ [extension] else tree.extensionsIn other := by
  unfold declareExtension at h
  split at h
  · cases h
  next space hspace =>
    rw [← Except.ok.inj h, extensionsIn, space?_modify, extensionsIn]
    split
    next hsame =>
      rw [← hsame, hspace]
      rfl
    next => rfl

end NamespaceTree

/-! ## The invariant -/

namespace Registry

/-- Each extension has a namespace (`namespaceOf?`), and a namespace lists the extensions that it is
the namespace of, in the order in which they were registered. -/
structure Enrolled (registry : Registry) : Prop where
  placed : ∀ extension ∈ registry.extensions, (registry.namespaceOf? extension).isSome
  listed : ∀ id, registry.namespaces.extensionsIn id =
    (registry.extensions.filter (registry.namespaceOf? · = some id)).map (·.id)

namespace Enrolled

variable {registry later : Registry}

/-- `Enrolled` depends on the lists of the namespaces, and on the identities and the namespaces of
the extensions, alone. -/
theorem congr (h : registry.Enrolled)
    (hlists : ∀ id, later.namespaces.extensionsIn id = registry.namespaces.extensionsIn id)
    (hextensions : List.Forall₂ (fun extension same => extension.id = same.id ∧
      registry.namespaceOf? extension = later.namespaceOf? same)
      registry.extensions later.extensions) : later.Enrolled := by
  constructor
  · refine (forall_mem_iff_of_forall₂ (fun extension same hsame => ?_) hextensions).1 h.placed
    rw [hsame.2]
  · intro id
    rw [hlists, h.listed]
    refine map_eq_of_forall₂ (fun _ _ hsame => hsame.1)
      (List.rel_filter (fun extension same hsame => ?_) hextensions)
    simp only [hsame.2]

/-- `Enrolled` is kept if the extensions stay as they are and keep their namespaces. -/
theorem congr_extensions (h : registry.Enrolled)
    (hlists : ∀ id, later.namespaces.extensionsIn id = registry.namespaces.extensionsIn id)
    (hsame : later.extensions = registry.extensions)
    (hspaces : ∀ extension ∈ registry.extensions,
      registry.namespaceOf? extension = later.namespaceOf? extension) : later.Enrolled := by
  refine h.congr hlists ?_
  rw [hsame, List.forall₂_same]
  exact fun extension hin => ⟨rfl, hspaces extension hin⟩

/-- `registerType` keeps `Enrolled`, whether or not the name is free. -/
theorem registerType (h : registry.Enrolled) (type : NamedType) :
    (registry.registerType type).2.Enrolled := by
  refine h.congr_extensions (fun id => ?_) (extensions_registerType registry type)
    fun extension _ => ?_
  · -- Neither a namespace that is made nor a type declared in it changes a list.
    unfold Registry.registerType
    dsimp only
    split
    · exact registry.namespaces.extensionsIn_makePath _ _ id
    next tree hdeclared =>
      exact (NamespaceTree.extensionsIn_declareType hdeclared id).trans
        (registry.namespaces.extensionsIn_makePath _ _ id)
  · rw [namespaceOf?, namespaceOf?, scopes_registerType]

/-- `registerExtension` keeps `Enrolled`: where it succeeds, the namespace and the registry put the
extension to the end of their lists. -/
theorem registerExtension (h : registry.Enrolled) (extension : Extension) :
    (registry.registerExtension extension).2.Enrolled := by
  have hown := h.registerType extension.ownType
  -- The own type is declared first and stays, so everything starts from the registry after it.
  rcases registerExtension_cases registry extension with
    ⟨_, _, houtcome⟩ | ⟨_, _, houtcome⟩ | ⟨_, id, _, tree, hid, _, hadded, houtcome⟩
  · rwa [houtcome]
  · rwa [houtcome]
  · rw [houtcome]
    generalize (registry.registerType extension.ownType).2 = after at hown hid hadded
    have hspaces : ∀ other, namespaceOf? { after with
        namespaces := tree, extensions := after.extensions ++ [extension] } other =
          after.namespaceOf? other := fun _ => rfl
    refine ⟨fun other hother => ?_, fun other => ?_⟩
    · -- The extension was enlisted because its scope opens a namespace.
      rw [hspaces]
      rcases List.mem_append.1 hother with hother | hother
      · exact hown.placed other hother
      · rw [List.mem_singleton.1 hother, hid]
        rfl
    · rw [NamespaceTree.extensionsIn_declareExtension hadded, hown.listed]
      simp only [hspaces, List.filter_append, List.map_append, List.filter_singleton, hid,
        Option.some.injEq]
      by_cases hsame : id = other
      · simp [hsame]
      · simp [hsame]

end Enrolled

theorem enrolled_empty : empty.Enrolled := by
  refine ⟨fun _ hin => absurd hin List.not_mem_nil, fun id => ?_⟩
  -- The one namespace there is lists nothing.
  show NamespaceTree.empty.extensionsIn id = []
  cases hspace : NamespaceTree.empty.space? id with
  | none => rw [NamespaceTree.extensionsIn, hspace, Option.map_none, Option.getD_none]
  | some space =>
    obtain rfl := List.mem_singleton.1 (List.mem_of_getElem? hspace)
    rw [NamespaceTree.extensionsIn, hspace]
    rfl

end Registry

/-! ## Declared files -/

namespace Assembly

variable {assembly : Assembly}

/-- `declareScope` keeps `Enrolled`: the scope takes a place that no extension has as yet. -/
theorem enrolled_declareScope (h : assembly.registry.Enrolled) (file : FileId)
    (scopes : List ScopeId) (scope : OutlineScope) :
    (declareScope file (assembly, scopes) scope).1.registry.Enrolled := by
  refine h.congr_extensions
    (fun id => assembly.registry.namespaces.extensionsIn_makePath _ _ id) rfl
    fun extension hin => ?_
  -- Its own scope is open already, so it stands at an earlier place of the table.
  obtain ⟨id, hid⟩ := Option.isSome_iff_exists.1 (h.placed extension hin)
  obtain ⟨opened, hopened, _⟩ := Option.map_eq_some_iff.1 hid
  have hold : extension.scope.index < assembly.registry.scopes.size :=
    (List.getElem?_eq_some_iff.1 hopened).1
  unfold Registry.namespaceOf? declareScope
  dsimp only
  rw [ScopeTable.get?_add, if_neg (Nat.ne_of_lt hold)]

/-- `declareFiles` leads to `Enrolled`: the extensions of any files are listed by their
namespaces. -/
theorem enrolled_declareFiles (files : List SourceFile) :
    (declareFiles files).registry.Enrolled := by
  have hbuiltIns : Registry.withBuiltIns.Enrolled :=
    Registry.withBuiltIns_induction Registry.enrolled_empty fun _ type h => h.registerType type
  exact declareFiles_induction hbuiltIns
    (fun file opened scope h => enrolled_declareScope h file opened.2 scope)
    (fun _ type h => h.registerType type) (fun _ extension h => h.registerExtension extension)
    files

end Assembly

end ExtensionMembers
