import ExtensionMembers.Proofs.Build.Completion
import ExtensionMembers.Proofs.Build.Places
import ExtensionMembers.Proofs.Registry.Enrolled

/-!
# The lists and tables of a finished registry

A registry keeps what is declared in several places: the types by hash, their names and the
extensions by namespace, and the extensions in order of registration. This module shows that in the
finished registry of some files these places agree with each other, given that different names have
different hashes.

## Main definitions

* `declaredNames`: the names of the built-in types and of all that some files declare.
* `Registry.Consistent`: the lists and tables of a registry agree.

## Main results

* `Registry.enrolled_assemble`: namespaces list the extensions declared in them.
* `Registry.consistent_assemble`: the finished registry of some files is consistent.
-/

namespace ExtensionMembers

/-- The names of the built-in types (`BuiltIn.names`) and of all that some files declare. -/
def declaredNames (files : List SourceFile) : List QualifiedName :=
  BuiltIn.names.map .global ++ files.flatMap fun file => (Outline.ofFile file).names

/-- The `registeredTypes` have names that are built in or declared. -/
theorem name_mem_declaredNames {files : List SourceFile} {type : NamedType}
    (h : type ∈ registeredTypes (declaredOf files)) : type.name ∈ declaredNames files := by
  rcases List.mem_append.1 h with hbuiltIn | hdeclared
  · obtain ⟨name, hname, rfl⟩ := List.mem_map.1 hbuiltIn
    exact List.mem_append_left _ (List.mem_map_of_mem hname)
  · obtain ⟨next, hnext, rfl⟩ := List.mem_map.1 hdeclared
    have hall := (foldl_enlist_sublist [] (declaredFrom 0 (outlinesOf files))).subset hnext
    have hname : next.name ∈ (outlinesOf files).flatMap (·.names) := by
      rw [← map_name_declaredFrom 0]
      exact List.mem_map_of_mem hall
    obtain ⟨outline, houtline, hin⟩ := List.mem_flatMap.1 hname
    obtain ⟨file, hfile, rfl⟩ := mem_outlinesOf_iff.1 houtline
    exact List.mem_append_right _ (List.mem_flatMap.2 ⟨file, hfile, hin⟩)

theorem bare_mem_registeredTypes {declared : List Declared} {next : Declared}
    (h : next ∈ declared) : next.bare ∈ registeredTypes declared :=
  List.mem_append_right _ (List.mem_map_of_mem h)

/-- What passes a test alone is the last to pass it. -/
theorem find?_reverse_of_unique {α : Type} {test : α → Bool} {list : List α} {element : α}
    (hin : element ∈ list) (htest : test element = true)
    (hunique : ∀ other ∈ list, test other = true → other = element) :
    list.reverse.find? test = some element := by
  cases hfound : list.reverse.find? test with
  | none =>
    have hfails := List.find?_eq_none.1 hfound element (List.mem_reverse.2 hin)
    exact absurd htest hfails
  | some other =>
    have hother := List.mem_reverse.1 (List.mem_of_find?_eq_some hfound)
    rw [hunique other hother (List.find?_some hfound)]

/-- No declaration of a type makes one of the kind that extensions have, `TypeKind.extension`. -/
theorem WrittenKind.typeKind_ne_extension (kind : WrittenKind) : kind.typeKind ≠ .extension := by
  cases kind <;> decide

namespace Registry

/-- The lists and tables of a `Registry` agree with each other. -/
structure Consistent (registry : Registry) : Prop where
  /-- Extensions come in the order of their identities. -/
  ordered : registry.extensions.Pairwise fun extension later => extension.id.Before later.id
  /-- An extension is found by its identity and by its own type. -/
  found : ∀ extension ∈ registry.extensions,
    registry.extension? extension.id = some extension ∧
      registry.extensionOfType? extension.hash = some extension
  /-- A type is registered under its hash, and its simple name stands for it in the namespace with
  its path and in no other. -/
  held : ∀ hash type, registry.type? hash = some type → type.hash = hash ∧
    ∃ id, registry.namespaces.path? id = some type.name.path ∧
      ∀ other, registry.namespaces.typeIn? other type.name.name = some hash ↔ other = id
  /-- What a namespace holds under a simple name is registered, with the qualified name that the
  namespace and the simple name make. -/
  holds : ∀ id name hash, registry.namespaces.typeIn? id name = some hash →
    ∃ path type, registry.namespaces.path? id = some path ∧ registry.type? hash = some type ∧
      type.name = ⟨path, name⟩
  /-- What is registered under the hash of an extension is its own type. -/
  own_types : ∀ extension ∈ registry.extensions,
    registry.type? extension.hash = some extension.ownType
  /-- The types of the kind that extensions have are the own types of the extensions. -/
  kinds : ∀ hash type, registry.type? hash = some type →
    (type.kind = .extension ↔ ∃ extension ∈ registry.extensions, type = extension.ownType)
  /-- A namespace lists the extensions whose scope opens it. -/
  enrolled : registry.Enrolled
  /-- The extensions that a namespace lists come in the order of their identities. -/
  ordered_lists : ∀ id, (registry.namespaces.extensionsIn id).Pairwise ExtensionId.Before

/-! ## Lists -/

/-- `Assembly.complete` leaves the namespaces as `declareFiles` made them. -/
theorem namespaces_assemble (files : List SourceFile) (options : Options) :
    (assemble files options).registry.namespaces =
      (Assembly.declareFiles files).registry.namespaces :=
  (Assembly.declareFiles files).scopes_complete.1

/-- `Declared.finished?` gives an extension the identity and the scope of the declared one. -/
theorem forall₂_finished? (registry : Registry) (declared : List Declared) :
    List.Forall₂ (fun extension finished : Extension =>
        extension.id = finished.id ∧ extension.scope = finished.scope)
      (declared.filterMap (·.extension?)) (declared.filterMap (·.finished? registry)) := by
  refine List.rel_filterMap (R := (· = ·)) (fun next same hsame => ?_) (List.forall₂_refl declared)
  subst hsame
  cases next with
  | type => exact .none
  | extension => exact .some ⟨rfl, rfl⟩

/-- The namespaces of the registry that `assemble` makes list the extensions declared in them
(`Enrolled`). -/
theorem enrolled_assemble {files : List SourceFile} (hids : (files.map (·.id)).Nodup)
    (options : Options) : (assemble files options).registry.Enrolled := by
  have hdeclared := Assembly.enrolled_declareFiles files
  refine hdeclared.congr (fun id => by rw [namespaces_assemble]) ?_
  rw [(Assembly.records_declareFiles files).registered,
    (holds_assemble hids options).extensions_eq]
  refine (forall₂_finished? _ _).imp fun extension finished h => ⟨h.1, ?_⟩
  -- Resolving the imports of a scope leaves its namespace as it is.
  have hscopes : (assemble files options).registry.scopes =
      (Assembly.declareFiles files).registry.resolveImports.scopes :=
    (Assembly.declareFiles files).scopes_complete.2
  rw [namespaceOf?, namespaceOf?, hscopes, ← h.2, ScopeTable.get?, ScopeTable.get?,
    resolveImports, List.getElem?_map, Option.map_map]
  rfl

/-! ## Names and hashes -/

/-- Where different types have different hashes, the own type of an extension gets no signature by
`Registry.signed`, since no declaration of a type has its hash. -/
theorem signed_bare (registry : Registry) {declared : List Declared}
    (hdistinct : ∀ type ∈ registeredTypes declared, ∀ other ∈ registeredTypes declared,
      type.hash = other.hash → type = other)
    {id : ExtensionId} {name : QualifiedName} {scope : ScopeId}
    {declaration : ExtensionDeclaration}
    (hin : Declared.extension id name scope declaration ∈ declared) :
    registry.signed (declared.filterMap (·.pendingType?)) (.bare name .extension declaration.span) =
      .bare name .extension declaration.span := by
  unfold signed
  split
  next last hlast =>
    obtain ⟨written, hwritten, hmem⟩ := mem_of_find?_pendingType hlast
    have hsame : written.hash = (NamedType.bare name .extension declaration.span).hash := by
      rw [← hwritten]
      simpa using List.find?_some hlast
    -- The type declared would be the own type of the extension, which is of another kind.
    have hequal := hdistinct _ (bare_mem_registeredTypes hmem) _ (bare_mem_registeredTypes hin)
      hsame
    exact absurd (congrArg (·.kind) hequal) (WrittenKind.typeKind_ne_extension _)
  next => rfl

namespace Holds

variable {registry : Registry} {scopes : List PlacedScope} {declared : List Declared}
  (h : registry.Holds scopes declared)

include h

/-- Under `Holds`, a type is one of the `registeredTypes` with its signature. -/
theorem heading_mem {hash : TypeHash} {type : NamedType}
    (htype : registry.type? hash = some type) :
    type.heading ∈ registeredTypes declared ∧ type.hash = hash := by
  have hfound := h.heading?_eq hash
  -- A finished type differs from the declared one by its signature alone.
  rw [htype, Option.map_some] at hfound
  have hhash : type.heading.hash = hash := by simpa using List.find?_some hfound.symm
  exact ⟨List.mem_reverse.1 (List.mem_of_find?_eq_some hfound.symm), hhash⟩

section Distinct

variable (hdistinct : ∀ type ∈ registeredTypes declared, ∀ other ∈ registeredTypes declared,
  type.hash = other.hash → type = other)

include hdistinct

/-- Under `Holds`, one of the `registeredTypes` is found by its hash, with its signature. -/
theorem type?_of_mem {type : NamedType} (hin : type ∈ registeredTypes declared) :
    registry.type? type.hash =
      some (registry.signed (declared.filterMap (·.pendingType?)) type) := by
  have hfound := find?_reverse_of_unique hin (decide_eq_true rfl)
    fun other hother hhash => hdistinct other hother type hin (of_decide_eq_true hhash)
  rw [h.type?_eq, hfound]
  rfl

/-- Under `Holds`, the own type of an extension is found as it was declared. -/
theorem type?_own {id : ExtensionId} {name : QualifiedName} {scope : ScopeId}
    {declaration : ExtensionDeclaration}
    (hin : Declared.extension id name scope declaration ∈ declared) :
    registry.type? name.hash = some (.bare name .extension declaration.span) :=
  (h.type?_of_mem hdistinct (bare_mem_registeredTypes hin)).trans
    (congrArg some (registry.signed_bare hdistinct hin))

/-- Under `Holds`, the simple name of a type stands for its hash in the namespace with its path
alone. -/
theorem typeIn?_eq_some_iff {hash : TypeHash} {type : NamedType}
    (htype : registry.type? hash = some type) {id : NamespaceId}
    (hid : registry.namespaces.path? id = some type.name.path) (other : NamespaceId) :
    registry.namespaces.typeIn? other type.name.name = some hash ↔ other = id := by
  obtain ⟨hin, hhash⟩ := h.heading_mem htype
  have hname : type.name ∈ (registeredTypes declared).map (·.name) :=
    List.mem_map.2 ⟨type.heading, hin, rfl⟩
  constructor
  · intro hother
    obtain ⟨path, hpath, hnamed, hsame⟩ := h.name_of_typeIn? hother
    obtain ⟨found, hfound, heq⟩ := List.mem_map.1 hnamed
    -- The name found there has the same hash, so it is the name of the type.
    have hequal : found.hash = type.heading.hash := by
      rw [NamedType.hash, heq, hsame]
      exact hhash.symm
    have htypes := hdistinct found hfound _ hin hequal
    rw [htypes] at heq
    have hpaths : type.name.path = path := congrArg (·.path) heq
    exact NamespaceTree.path?_inj h.proper.nodup (hpaths ▸ hpath) hid
  · rintro rfl
    rw [h.typeIn?_eq hid, if_pos hname]
    exact congrArg some hhash

/-- Under `Holds`, `type?` finds the `Extension.ownType` under the hash of an extension. -/
theorem type?_hash_of_mem {extension : Extension} (hin : extension ∈ registry.extensions) :
    registry.type? extension.hash = some extension.ownType := by
  rw [h.extensions_eq] at hin
  obtain ⟨next, hnext, hfinished⟩ := List.mem_filterMap.1 hin
  cases next with
  | type => cases hfinished
  | extension id name scope declaration =>
    obtain rfl := Option.some.inj hfinished
    exact h.type?_own hdistinct hnext

/-- Under `Holds`, the types of kind `TypeKind.extension` are the own types of the extensions. -/
theorem kind_eq_extension_iff {hash : TypeHash} {type : NamedType}
    (htype : registry.type? hash = some type) :
    type.kind = .extension ↔ ∃ extension ∈ registry.extensions, type = extension.ownType := by
  constructor
  · intro hkind
    obtain ⟨hin, hhash⟩ := h.heading_mem htype
    -- Neither a built-in type nor a declared one is of that kind.
    rcases List.mem_append.1 hin with hbuiltIn | hdeclared
    · obtain ⟨name, _, heq⟩ := List.mem_map.1 hbuiltIn
      cases (congrArg (·.kind) heq).trans hkind
    · obtain ⟨next, hnext, heq⟩ := List.mem_map.1 hdeclared
      cases next with
      | type =>
        exact absurd ((congrArg (·.kind) heq).trans hkind) (WrittenKind.typeKind_ne_extension _)
      | extension id name scope declaration =>
        obtain ⟨finished, hfinished⟩ : ∃ finished,
          (Declared.extension id name scope declaration).finished? registry = some finished :=
            ⟨_, rfl⟩
        have hextension : finished ∈ registry.extensions := by
          rw [h.extensions_eq]
          exact List.mem_filterMap.2 ⟨_, hnext, hfinished⟩
        -- Type and own type are found by one hash, since the type has the name that was declared.
        have hname : finished.hash = hash :=
          (Declared.hash_of_finished? hfinished).trans ((congrArg (·.name.hash) heq).trans hhash)
        have hown := h.type?_hash_of_mem hdistinct hextension
        rw [hname, htype] at hown
        exact ⟨finished, hextension, Option.some.inj hown⟩
  · rintro ⟨extension, _, rfl⟩
    rfl

/-- Under `Holds`, `extensionOfType?` finds an extension by its own type. -/
theorem extensionOfType?_hash (hnames : (declared.map (·.name)).Nodup) {extension : Extension}
    (hin : extension ∈ registry.extensions) :
    registry.extensionOfType? extension.hash = some extension := by
  rw [h.extensionOfType?_eq]
  refine find?_reverse_of_unique hin (by simp) fun found hfound hhash => ?_
  simp only [decide_eq_true_eq] at hhash
  rw [h.extensions_eq] at hin hfound
  obtain ⟨next, hnext, hfinished⟩ := List.mem_filterMap.1 hin
  obtain ⟨other, hother, hfinished'⟩ := List.mem_filterMap.1 hfound
  -- Both come from declarations with one hash, hence with one name, so that they are the same.
  rw [Declared.hash_of_finished? hfinished, Declared.hash_of_finished? hfinished'] at hhash
  have hbare := hdistinct _ (bare_mem_registeredTypes hother) _ (bare_mem_registeredTypes hnext)
    hhash
  have hsame := List.inj_on_of_nodup_map hnames hother hnext (congrArg (·.name) hbare)
  rw [hsame] at hfinished'
  exact Option.some.inj (hfinished'.symm.trans hfinished)

end Distinct

end Holds

/-! ## The whole -/

/-- The registry that `assemble` makes of some files with different numbers is `Consistent`, if
different names among the built-in and the declared ones (`declaredNames`) have different hashes. -/
theorem consistent_assemble {files : List SourceFile} (hids : (files.map (·.id)).Nodup)
    (hhashes : ∀ name ∈ declaredNames files, ∀ other ∈ declaredNames files,
      name.hash = other.hash → name = other) (options : Options) :
    (assemble files options).registry.Consistent := by
  have hholds := holds_assemble hids options
  have henrolled := enrolled_assemble hids options
  have hrecords := Assembly.records_declareFiles files
  have hnodup := nodup_name_registeredTypes files
  have hdistinct : ∀ type ∈ registeredTypes (declaredOf files),
      ∀ other ∈ registeredTypes (declaredOf files), type.hash = other.hash → type = other :=
    fun type htype other hother heq => List.inj_on_of_nodup_map hnodup htype hother
      (hhashes _ (name_mem_declaredNames htype) _ (name_mem_declaredNames hother) heq)
  refine ⟨hholds.ordered_extensions, fun extension hin => ⟨hholds.extension?_id hin,
    hholds.extensionOfType?_hash hdistinct (nodup_name_declaredOf files) hin⟩,
    fun hash type htype => ?_, fun id name hash hin => ?_,
    fun extension hin => hholds.type?_hash_of_mem hdistinct hin,
    fun hash type htype => hholds.kind_eq_extension_iff hdistinct htype, henrolled, fun id => ?_⟩
  · -- What a hash leads to has a registered heading, whose namespace was made with the name.
    obtain ⟨hin, hhash⟩ := hholds.heading_mem htype
    have hpath := hrecords.names.within _ hin
    rw [← namespaces_assemble files options] at hpath
    obtain ⟨id, hid⟩ := NamespaceTree.mem_paths_iff.1 hpath
    exact ⟨hhash, id, hid, hholds.typeIn?_eq_some_iff hdistinct htype hid⟩
  · -- The hash is that of a registered name, and only the type of that name has it.
    obtain ⟨path, hpath, hname, hhash⟩ := hholds.name_of_typeIn? hin
    obtain ⟨bare, hbare, heq⟩ := List.mem_map.1 hname
    have hfound := hholds.type?_of_mem hdistinct hbare
    rw [NamedType.hash, heq, hhash] at hfound
    refine ⟨path, _, hpath, hfound, ?_⟩
    rw [← heq]
    exact congrArg (·.name) (heading_signed _ _ bare)
  · rw [henrolled.listed, List.pairwise_map]
    exact hholds.ordered_extensions.sublist List.filter_sublist

/-- Two files with one namespace. In either, some names are taken by the other one, by the built-in
types, or by a type of the same file. -/
def shelfFiles : List SourceFile :=
  [⟨⟨5⟩, "shelves", [.block ["Shop"] [shelf, labels "Shelf", labels "ShelfLabels"],
      labels "Shop"]⟩,
    ⟨⟨2⟩, "store", [.block ["Shop"] [labels "Labels", .block ["Back"] [shelf, labels "Labels"]],
      labels "int", .block ["Shop"] [labels "Stickers", shelf]]⟩]
where
  shelf : Item := .type ⟨.plainClass, "Shelf", none, [], .unplaced⟩
  labels (name : String) : Item := .extension ⟨name, some (.parse "Shop::Shelf"), [], [], .unplaced⟩

/-- The namespace `Shop` lists the extensions of both files that are registered in it, as the
registry has them. -/
theorem consistent_assemble_shelves :
    let registry := (assemble shelfFiles .standard).registry
    registry.extensions.map (fun extension => (extension.name.text, extension.id)) =
        [("Shop::Labels", ⟨⟨2⟩, 0⟩), ("Shop::Back::Labels", ⟨⟨2⟩, 1⟩),
          ("Shop::Stickers", ⟨⟨2⟩, 3⟩), ("Shop::ShelfLabels", ⟨⟨5⟩, 1⟩), ("Shop", ⟨⟨5⟩, 2⟩)] ∧
      registry.namespaces.path? ⟨1⟩ = some ["Shop"] ∧
      registry.namespaces.extensionsIn ⟨1⟩ = [⟨⟨2⟩, 0⟩, ⟨⟨2⟩, 3⟩, ⟨⟨5⟩, 1⟩] ∧
      registry.Consistent :=
  ⟨by decide +kernel, by decide +kernel, by decide +kernel,
    consistent_assemble (by decide) (by decide +kernel) .standard⟩

end Registry

end ExtensionMembers
