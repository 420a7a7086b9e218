import ExtensionMembers.Proofs.Build.Completion

/-!
# What the declared types refer to

Signatures are resolved against the namespaces, while the types themselves are kept by hash. A type
enters both together, so whatever a name means is registered. This module carries it through the
signatures of all types and extensions: no base, no extended type and no type of a parameter or
result refers to a type that is not registered, or to the type of no value, which has a reference
of its own.

## Main definitions

* `TypeRef.hashes`, `NamedType.hashes`, `Extension.hashes`: the hashes that a signature names.
* `Registry.Refers`: a hash is that of a registered type, other than the type of no value.
* `Registry.Closed`: nothing in a registry refers to anything else.
* `Assembly.completedTypes`: the assembly in which the types are complete, but no extension.

## Main results

* `Assembly.closed_completeType`, `Assembly.closed_completeExtension`: completing keeps it so.
* `Registry.closed_finished`: the finished registry is closed.
* `Registry.closed_assemble`: it is so in the finished registry, and whenever an extension is
  judged.
-/

namespace ExtensionMembers

/-! ## What a signature names -/

/-- The hashes that occur in a `TypeRef`, below pointers and arrays too. -/
def TypeRef.hashes : TypeRef → List TypeHash
  | named hash => [hash]
  | pointer target => target.hashes
  | array element => element.hashes
  | void | parameter _ | dynamic | unresolved _ _ => []

/-- The `TypeRef.hashes` of the parameters and of the result. -/
def Member.hashes (member : Member) : List TypeHash :=
  member.params.flatMap (·.type.hashes) ++ member.result.hashes

/-- The base, and the `Member.hashes` of the members. -/
def NamedType.hashes (type : NamedType) : List TypeHash :=
  type.base.toList ++ type.members.flatMap Member.hashes

/-- The `TypeRef.hashes` of the extended type, and the `Member.hashes` of the members. -/
def Extension.hashes (extension : Extension) : List TypeHash :=
  extension.extended.toList.flatMap TypeRef.hashes ++ extension.members.flatMap Member.hashes

theorem TypeRef.mem_hashes_of_namedHash? {type : TypeRef} {hash : TypeHash}
    (h : type.namedHash? = some hash) : hash ∈ type.hashes := by
  cases type with
  | named => exact List.mem_singleton.2 (Option.some.inj h).symm
  | void | pointer | array | parameter | dynamic | unresolved => cases h

namespace NamespaceTree

variable {tree : NamespaceTree} {chain : ScopeChain} {parameters : List String}

/-- A hash that a namespace supplies (`typeIn?`), other than that of the type of no value. -/
def Supplies (tree : NamespaceTree) (hash : TypeHash) : Prop :=
  (∃ id name, tree.typeIn? id name = some hash) ∧ hash ≠ TypeHash.void

/-- Only a name with one meaning, `NameMeaning.found`, and that not the type of no value, refers to
a declared type. -/
theorem found_of_mem_hashes {meaning : NameMeaning} {pieces : List String} {hash : TypeHash}
    (h : hash ∈ (meaning.typeRef pieces).hashes) :
    meaning = .found hash ∧ hash ≠ TypeHash.void := by
  cases meaning with
  | found other =>
    rw [NameMeaning.typeRef] at h
    split at h
    next => cases h
    next hne =>
      obtain rfl := List.mem_singleton.1 h
      exact ⟨rfl, hne⟩
  | ambiguous | notFound => cases h

theorem supplies_namedRef (pieces : List String) :
    ∀ hash ∈ (tree.namedRef chain parameters pieces).hashes, tree.Supplies hash := by
  intro hash h
  have hresolved : ∀ pieces, hash ∈ ((tree.resolveType pieces chain).typeRef pieces).hashes →
      tree.Supplies hash := by
    intro pieces hin
    obtain ⟨hfound, hne⟩ := found_of_mem_hashes hin
    exact ⟨exists_typeIn?_of_resolveType hfound, hne⟩
  unfold namedRef at h
  -- A type parameter refers to nothing, and every other name is resolved.
  split at h
  · split at h
    · cases h
    · exact hresolved _ h
  · exact hresolved _ h

/-- Whatever a type refers to that `NamespaceTree.typeRef` makes is supplied by a namespace. -/
theorem supplies_typeRef (type : TypeExpr) :
    ∀ hash ∈ (tree.typeRef chain parameters type).hashes, tree.Supplies hash := by
  induction type with
  | named pieces => exact supplies_namedRef pieces
  | pointer target _ ih => exact ih
  | array element _ ih => exact ih
  | dynamic => exact nofun

/-- Whatever a member refers to that `NamespaceTree.member` makes is supplied by a namespace. -/
theorem supplies_member (written : WrittenMember) :
    ∀ hash ∈ (tree.member chain parameters written).hashes, tree.Supplies hash := by
  rw [Member.hashes]
  refine List.forall_mem_append.2 ⟨fun hash h => ?_, fun hash h => ?_⟩
  · obtain ⟨param, hparam, hin⟩ := List.mem_flatMap.1 h
    obtain ⟨writtenParam, _, rfl⟩ := List.mem_map.1 hparam
    exact supplies_typeRef writtenParam.type hash hin
  · simp only [member] at h
    cases hresult : written.result with
    | none =>
      rw [hresult] at h
      cases h
    | some type =>
      rw [hresult] at h
      exact supplies_typeRef type hash h

theorem supplies_members (written : List WrittenMember) :
    ∀ hash ∈ (written.map (tree.member chain parameters)).flatMap Member.hashes,
      tree.Supplies hash := by
  intro hash h
  obtain ⟨member, hmember, hin⟩ := List.mem_flatMap.1 h
  obtain ⟨writtenMember, _, rfl⟩ := List.mem_map.1 hmember
  exact supplies_member writtenMember hash hin

end NamespaceTree

namespace Registry

/-! ## Registries without dangling references -/

/-- What holds of all extensions, and of what `change` makes of them, holds after `modifyFirst`. -/
theorem forall_mem_modifyFirst (id : ExtensionId) {change : Extension → Extension}
    {P : Extension → Prop} {list : List Extension} (h : ∀ extension ∈ list, P extension)
    (hchange : ∀ extension ∈ list, P (change extension)) :
    ∀ extension ∈ modifyFirst id change list, P extension := by
  induction list with
  | nil => exact nofun
  | cons first rest ih =>
    obtain ⟨hfirst, hrest⟩ := List.forall_mem_cons.1 h
    obtain ⟨hchanged, hchange⟩ := List.forall_mem_cons.1 hchange
    rw [modifyFirst]
    split
    · exact List.forall_mem_cons.2 ⟨hchanged, hrest⟩
    · exact List.forall_mem_cons.2 ⟨hfirst, ih hrest hchange⟩

/-- A hash is that of a registered type (`type?`), and not that of the type of no value. -/
def Refers (registry : Registry) (hash : TypeHash) : Prop :=
  (∃ type, registry.type? hash = some type ∧ type.hash = hash) ∧ hash ≠ TypeHash.void

/-- The types that namespaces hold are registered, and the signatures of types and extensions refer
(`Refers`) to registered types alone. -/
structure Closed (registry : Registry) : Prop where
  held : ∀ {id name hash}, registry.namespaces.typeIn? id name = some hash →
    ∃ type, registry.type? hash = some type ∧ type.hash = hash
  types : ∀ {hash type}, registry.type? hash = some type →
    ∀ hash ∈ type.hashes, registry.Refers hash
  extensions : ∀ extension ∈ registry.extensions, ∀ hash ∈ extension.hashes, registry.Refers hash

namespace Closed

variable {registry : Registry} (h : registry.Closed)

include h

theorem refers {hash : TypeHash} (hsupplies : registry.namespaces.Supplies hash) :
    registry.Refers hash := by
  obtain ⟨⟨id, name, hin⟩, hne⟩ := hsupplies
  exact ⟨h.held hin, hne⟩

/-- `Closed` after a type gets another signature that refers to registered types only. -/
theorem modifyType (key : TypeHash) {change : NamedType → NamedType}
    (hname : ∀ type, (change type).name = type.name)
    (hchange : ∀ type, ∀ hash ∈ (change type).hashes, registry.Refers hash) :
    (registry.modifyType key change).Closed := by
  -- No type is added or taken away.
  have hkept : ∀ {hash}, (∃ type, registry.type? hash = some type ∧ type.hash = hash) →
      ∃ type, (registry.modifyType key change).type? hash = some type ∧ type.hash = hash := by
    rintro hash ⟨type, htype, hhash⟩
    rw [type?_modifyType, htype]
    split
    · exact ⟨change type, rfl, by rw [NamedType.hash, hname, ← NamedType.hash, hhash]⟩
    · exact ⟨type, rfl, hhash⟩
  refine ⟨fun hin => hkept (h.held hin), fun {hash type} htype other hother => ?_,
    fun extension hin hash hhash => ?_⟩
  · rw [type?_modifyType] at htype
    split at htype
    · obtain ⟨old, _, rfl⟩ := Option.map_eq_some_iff.1 htype
      exact (hchange old other hother).imp_left hkept
    · exact (h.types htype other hother).imp_left hkept
  · exact (h.extensions extension hin hash hhash).imp_left hkept

/-- `Closed` after an extension gets another signature that refers to registered types only. -/
theorem modifyExtension (id : ExtensionId) {change : Extension → Extension}
    (hchange : ∀ extension ∈ registry.extensions, ∀ hash ∈ (change extension).hashes,
      registry.Refers hash) : (registry.modifyExtension id change).Closed := by
  refine ⟨h.held, h.types, fun extension hin => ?_⟩
  refine forall_mem_modifyFirst (P := fun extension => ∀ hash ∈ extension.hashes,
    registry.Refers hash) id (fun other hother => ?_) (fun other hother => ?_) extension
    (List.mem_reverse.1 hin)
  · exact h.extensions other (List.mem_reverse.1 hother)
  · exact hchange other (List.mem_reverse.1 hother)

end Closed

end Registry

/-! ## Declarations -/

namespace Registry.Names

variable {registry : Registry} {types : List NamedType} (h : registry.Names types)

include h

/-- A type enters its namespace and the table together, so under `Closed` what a namespace holds is
registered. -/
theorem exists_type? {id : NamespaceId} {name : String} {hash : TypeHash}
    (hin : registry.namespaces.typeIn? id name = some hash) :
    ∃ type, registry.type? hash = some type ∧ type.hash = hash := by
  obtain ⟨path, hid⟩ := NamespaceTree.exists_path?_of_typeIn? (Option.isSome_of_eq_some hin)
  rw [h.typeIn?_eq hid] at hin
  obtain ⟨hname, hhash⟩ := Option.ite_none_right_eq_some.1 hin
  obtain ⟨type, hmem, heq⟩ := List.mem_map.1 hname
  have hsame : type.hash = hash := by rw [NamedType.hash, heq, Option.some.inj hhash]
  -- Another type with the hash may have come later, and taken the place of this one.
  obtain ⟨found, hfound⟩ : ∃ found, types.reverse.find? (·.hash = hash) = some found :=
    Option.isSome_iff_exists.1 (List.find?_isSome.2
      ⟨type, List.mem_reverse.2 hmem, by simpa using hsame⟩)
  rw [← h.type?_eq] at hfound
  exact ⟨found, hfound, (h.mem_of_type? hfound).2⟩

end Registry.Names

/-- `registeredTypes` have no signature as yet. -/
theorem hashes_of_mem_registeredTypes {declared : List Declared} {type : NamedType}
    (h : type ∈ registeredTypes declared) : type.hashes = [] := by
  rw [← heading_of_mem_registeredTypes h]
  rfl

theorem Declared.hashes_of_extension? {declared : Declared} {extension : Extension}
    (h : declared.extension? = some extension) : extension.hashes = [] := by
  cases declared with
  | type => cases h
  | extension =>
    rw [← Option.some.inj h]
    rfl

namespace Assembly

variable {assembly : Assembly}

/-- `Closed` once all is declared: what namespaces hold is registered, and nothing has a signature
as yet. -/
theorem closed_declareFiles (files : List SourceFile) : (declareFiles files).registry.Closed := by
  have hrecords := records_declareFiles files
  refine ⟨hrecords.names.exists_type?, fun {hash type} htype other hother => ?_,
    fun extension hin => ?_⟩
  · rw [hashes_of_mem_registeredTypes (hrecords.names.mem_of_type? htype).1] at hother
    cases hother
  · rw [hrecords.registered] at hin
    obtain ⟨declared, _, hdeclared⟩ := List.mem_filterMap.1 hin
    rw [Declared.hashes_of_extension? hdeclared]
    exact nofun

/-! ## Signatures -/

theorem closed_completeType (h : assembly.registry.Closed) (pending : PendingType) :
    (assembly.completeType pending).registry.Closed := by
  refine h.modifyType pending.hash (fun _ => rfl) fun type => ?_
  rw [NamedType.hashes]
  refine List.forall_mem_append.2 ⟨fun hash hbase => ?_, fun hash hmember => ?_⟩
  · obtain ⟨base, _, hnamed⟩ := Option.bind_eq_some_iff.1 (Option.mem_toList.1 hbase)
    exact h.refers (NamespaceTree.supplies_typeRef base hash
      (TypeRef.mem_hashes_of_namedHash? hnamed))
  · exact h.refers (NamespaceTree.supplies_members _ hash hmember)

theorem refers_signExtension {registry : Registry} (h : registry.Closed)
    (declaration : ExtensionDeclaration) (extension : Extension) :
    ∀ hash ∈ (signExtension registry declaration extension).hashes, registry.Refers hash := by
  rw [Extension.hashes]
  refine List.forall_mem_append.2 ⟨fun hash hextended => ?_, fun hash hmember => ?_⟩
  · obtain ⟨type, htype, hin⟩ := List.mem_flatMap.1 hextended
    obtain ⟨target, _, rfl⟩ := Option.map_eq_some_iff.1 (Option.mem_toList.1 htype)
    exact h.refers (NamespaceTree.supplies_typeRef target hash hin)
  · exact h.refers (NamespaceTree.supplies_members _ hash hmember)

theorem closed_completeExtension (h : assembly.registry.Closed) (pending : PendingExtension) :
    (assembly.completeExtension pending).registry.Closed := by
  unfold completeExtension
  split
  next => exact h
  next extension hfound =>
    dsimp only
    have hsigned := h.modifyExtension pending.id (fun _ _ => refers_signExtension h
      pending.declaration extension)
    generalize Registry.extensionFaults _ _ = faults
    cases faults with
    | nil => exact hsigned
    | cons fault rest =>
      -- What is noted does not matter, and the mark of an invalid extension names no type.
      simp only [judgeExtension, foldl_note]
      exact hsigned.modifyExtension pending.id hsigned.extensions

theorem closed_foldl_completeType (h : assembly.registry.Closed) (pending : List PendingType) :
    (pending.foldl completeType assembly).registry.Closed :=
  List.foldlRecOn (motive := fun assembly => assembly.registry.Closed) pending completeType h
    fun _ h next _ => closed_completeType h next

theorem closed_foldl_completeExtension (h : assembly.registry.Closed)
    (pending : List PendingExtension) :
    (pending.foldl completeExtension assembly).registry.Closed :=
  List.foldlRecOn (motive := fun assembly => assembly.registry.Closed) pending completeExtension h
    fun _ h next _ => closed_completeExtension h next

/-- Everything declared (`declareFiles`) and the types complete, but no extension as yet. -/
def completedTypes (files : List SourceFile) : Assembly :=
  let assembly := declareFiles files
  assembly.types.foldl completeType { assembly with registry := assembly.registry.resolveImports }

/-- What is left of `complete` after `completedTypes` are the extensions. -/
theorem complete_eq_foldl (files : List SourceFile) : (declareFiles files).complete =
    (completedTypes files).extensions.foldl completeExtension (completedTypes files) := rfl

theorem closed_completedTypes (files : List SourceFile) :
    (completedTypes files).registry.Closed := by
  have hdeclared := closed_declareFiles files
  let resolved : Assembly :=
    { declareFiles files with registry := (declareFiles files).registry.resolveImports }
  -- Resolved imports change scopes only, and these refer to no type.
  have hresolved : resolved.registry.Closed :=
    ⟨hdeclared.held, hdeclared.types, hdeclared.extensions⟩
  exact closed_foldl_completeType hresolved _

end Assembly

/-! ## The whole -/

namespace Registry

/-- Nothing in the registry that `assemble` makes refers to a type that is not registered
(`Closed`). -/
theorem closed_finished (files : List SourceFile) (options : Options) :
    (assemble files options).registry.Closed := by
  have hcomplete : (Assembly.declareFiles files).complete.registry.Closed :=
    Assembly.closed_foldl_completeExtension (Assembly.closed_completedTypes files) _
  -- The index names extensions only.
  exact ⟨hcomplete.held, hcomplete.types, hcomplete.extensions⟩

/-- Nothing in the registry that `assemble` makes refers to a type that is not registered, or to the
type of no value by its hash (`Closed`). And whenever an extension is judged (`completeExtension`),
the type that it extends is registered, so that `targetCause?` never passes it over as unknown. -/
theorem closed_assemble (files : List SourceFile) (options : Options) :
    (assemble files options).registry.Closed ∧
      ∀ before pending after, (Assembly.completedTypes files).extensions =
          before ++ pending :: after →
        let registry := (before.foldl Assembly.completeExtension
          (Assembly.completedTypes files)).registry
        ∀ extension, registry.extension? pending.id = some extension →
          let signed := Assembly.signExtension registry pending.declaration extension
          let judged := registry.modifyExtension pending.id fun _ => signed
          ∀ hash, signed.extended = some (.named hash) → (judged.type? hash).isSome := by
  refine ⟨closed_finished files options, ?_⟩
  intro before pending after _ registry extension _ signed judged hash hextended
  have hclosed := Assembly.closed_foldl_completeExtension
    (Assembly.closed_completedTypes files) before
  have hin : hash ∈ signed.hashes := by
    rw [Extension.hashes, hextended]
    exact List.mem_append_left _ (List.mem_singleton_self hash)
  obtain ⟨⟨type, htype, _⟩, _⟩ := Assembly.refers_signExtension hclosed _ _ hash hin
  -- The types are those from before the extension was signed.
  exact Option.isSome_of_eq_some htype

end Registry

/-- An extension of a class, with a method that takes pointers to arrays of the class and gives no
value. -/
def linkedTools : ExtensionDeclaration where
  name := "NodeTools"
  target := some (.parse "Node")
  typeParameters := []
  members :=
    [{ (default : WrittenMember) with
      name := "Link"
      params :=
        [⟨"nodes", .pointer (.array (.parse "Node") .unplaced) .unplaced, none, false, false⟩]
      result := some (.parse "void") }]
  span := .unplaced

/-- The class is declared after its extension, and again after that. -/
def linkedFile : SourceFile where
  id := ⟨0⟩
  name := "linked"
  items :=
    [.extension linkedTools, .type ⟨.plainClass, "Node", none, [], .unplaced⟩,
      .type ⟨.staticClass, "Node", some (.parse "object"), [], .unplaced⟩]

/-- The extension of `linkedFile` refers to the class twice, and when it is judged the class is
registered. -/
theorem Registry.closed_assemble_linked :
    let registry := (assemble [linkedFile] .standard).registry
    let completed := Assembly.completedTypes [linkedFile]
    let node := (QualifiedName.global "Node").hash
    let declared := Extension.declared ⟨⟨0⟩, 0⟩ (QualifiedName.global "NodeTools") ⟨0⟩ .unplaced
    let signed := Assembly.signExtension completed.registry linkedTools declared
    registry.extensions.map Extension.hashes = [[node, node]] ∧ registry.Refers node ∧
      completed.extensions = [⟨declared.id, linkedTools⟩] ∧
      completed.registry.extension? declared.id = some declared ∧
      signed.extended = some (.named node) ∧
      ((completed.registry.modifyExtension declared.id fun _ => signed).type? node).isSome := by
  intro registry completed node declared signed
  obtain ⟨hclosed, hjudged⟩ := closed_assemble [linkedFile] .standard
  have hhashes : registry.extensions.map Extension.hashes = [[node, node]] := by decide +kernel
  have hrefers : registry.Refers node := by
    have hmem : [node, node] ∈ registry.extensions.map Extension.hashes := by
      rw [hhashes]
      exact List.mem_singleton_self _
    obtain ⟨extension, hin, hextension⟩ := List.mem_map.1 hmem
    exact hclosed.extensions extension hin node (by rw [hextension]; exact List.mem_cons_self)
  have hpending : completed.extensions = [⟨declared.id, linkedTools⟩] := by decide +kernel
  have hdeclared : completed.registry.extension? declared.id = some declared := by decide +kernel
  have hextended : signed.extended = some (.named node) := by decide +kernel
  have hregistered := hjudged [] ⟨declared.id, linkedTools⟩ [] hpending
  rw [List.foldl_nil] at hregistered
  exact ⟨hhashes, hrefers, hpending, hdeclared, hextended,
    hregistered declared hdeclared node hextended⟩

end ExtensionMembers
