import ExtensionMembers.Proofs.Build.Declaration
import ExtensionMembers.Proofs.Registry.Reachable

/-!
# The finished registry

After everything is declared, signatures are resolved one declaration at a time, and extensions are
judged. No step changes what another one reads, so the finished registry can be read off what was
declared: types have the signature of the last type declared with their hash, extensions the one of
their declaration, and an extension is valid if it breaks no rule.

## Main definitions

* `NamedType.heading`, `Registry.signed`: a type without and with its signature.
* `Declared.finished?`: a declared extension with its signature and whether it is valid.
* `Assembly.judged`: what judging some extensions leaves behind.
* `Registry.Opened`, `Registry.Holds`: what a finished registry holds, its scopes and the whole.

## Main results

* `Registry.holds_assemble`: the finished registry of some files.
* `Registry.Holds.extensionsOf_eq`: the extensions listed for a type.
-/

namespace ExtensionMembers

/-! ## Signatures -/

/-- The type with its name, kind and place alone, as `Declared.bare` registers it. -/
def NamedType.heading (type : NamedType) : NamedType := .bare type.name type.kind type.span

/-- A type with the base and the members of a declaration, as `Assembly.completeType` gives them. -/
def Registry.signType (registry : Registry) (pending : PendingType) (type : NamedType) :
    NamedType :=
  let chain := registry.chain pending.scope
  let tree := registry.namespaces
  { type with
    base := pending.declaration.base.bind fun base => (tree.typeRef chain [] base).namedHash?
    members := pending.declaration.members.map (tree.member chain []) }

/-- A registered type with the signature (`signType`) of the last declaration of a type with its
hash. -/
def Registry.signed (registry : Registry) (pending : List PendingType) (type : NamedType) :
    NamedType :=
  match pending.reverse.find? (·.hash = type.hash) with
  | some last => registry.signType last type
  | none => type

/-- A declared extension with its signature (`Assembly.signExtension`), judged by
`Registry.extensionFaults`. -/
def Declared.finished? (registry : Registry) : Declared → Option Extension
  | type .. => none
  | extension id name scope declaration =>
    let signed := Assembly.signExtension registry declaration
      (.declared id name scope declaration.span)
    some { signed with isValid := (registry.extensionFaults signed).isEmpty }

/-- The notes on the `extensionFaults` of an extension. -/
def Registry.faultNotes (registry : Registry) (extension : Extension) : List Diagnostic :=
  (registry.extensionFaults extension).map (·.diagnostic)

theorem Declared.hash_of_finished? {registry : Registry} {declared : Declared}
    {extension : Extension} (h : declared.finished? registry = some extension) :
    extension.hash = declared.bare.hash := by
  cases declared with
  | type => cases h
  | extension => rw [← Option.some.inj h]; rfl

namespace Assembly

/-- `completeType` over a list changes the types, each by the last declaration with its hash. -/
theorem foldl_completeType (assembly : Assembly) (pending : List PendingType) :
    ∃ types : Table TypeHash NamedType,
      pending.foldl completeType assembly =
        { assembly with registry := { assembly.registry with types } } ∧
      ∀ hash, types.find? hash = (assembly.registry.type? hash).map fun type =>
        match pending.reverse.find? (·.hash = hash) with
        | some last => assembly.registry.signType last type
        | none => type := by
  -- From the end, since a signature replaces those before it.
  induction pending using List.reverseRecOn with
  | nil => exact ⟨assembly.registry.types, rfl, fun hash => by simp [Registry.type?]⟩
  | append_singleton before last ih =>
    obtain ⟨types, hbefore, hfind⟩ := ih
    refine ⟨types.modify last.hash fun type => assembly.registry.signType last type, ?_,
      fun hash => ?_⟩
    · rw [List.foldl_concat, hbefore]
      rfl
    · rw [Table.find?_modify, hfind, find?_reverse_concat]
      by_cases heq : last.hash = hash
      · -- The last signature leaves nothing of those before it.
        simp only [heq, decide_true, if_true, Option.map_map]
        refine Option.map_congr fun type _ => ?_
        simp only [Function.comp_apply]
        split <;> rfl
      · simp only [heq, decide_false, if_false, Bool.false_eq_true]

end Assembly

/-! ## One extension of many -/

namespace Registry

variable {registry : Registry} {before after : List Extension} {extension : Extension}
  {id : ExtensionId}

/-- `extension?` finds an extension by its identity if none after it has the same. -/
theorem extension?_of_append (h : registry.extensions = before ++ extension :: after)
    (hid : extension.id = id) (hlast : ∀ other ∈ after, other.id ≠ id) :
    registry.extension? id = some extension := by
  have hnone : after.reverse.find? (·.id = id) = none := by
    simpa [List.find?_eq_none] using hlast
  rw [extension?, h, List.reverse_append, List.reverse_cons, List.append_assoc, List.find?_append,
    hnone]
  simp [hid]

/-- `modifyFirst` changes nothing in front of the first extension with an identity. -/
theorem modifyFirst_append {list : List Extension} (hlist : ∀ other ∈ list, other.id ≠ id)
    (hid : extension.id = id) (change : Extension → Extension) (rest : List Extension) :
    modifyFirst id change (list ++ extension :: rest) = list ++ change extension :: rest := by
  induction list with
  | nil => simp [modifyFirst, hid]
  | cons first list ih =>
    obtain ⟨hfirst, hrest⟩ := List.forall_mem_cons.1 hlist
    rw [List.cons_append, modifyFirst, if_neg hfirst, ih hrest, List.cons_append]

/-- `modifyExtension` finds the place of the extension in the same way as `extension?`. -/
theorem modifyExtension_of_append (h : registry.extensions = before ++ extension :: after)
    (hid : extension.id = id) (hlast : ∀ other ∈ after, other.id ≠ id)
    (change : Extension → Extension) :
    registry.modifyExtension id change =
      { registry with extensions := before ++ change extension :: after } := by
  -- The list is read from its end, so nothing in front of the extension has its identity.
  have hbefore : ∀ other ∈ after.reverse, other.id ≠ id := by simpa using hlast
  rw [modifyExtension, h, List.reverse_append, List.reverse_cons, List.append_assoc,
    List.singleton_append, modifyFirst_append hbefore hid]
  simp

end Registry

namespace Assembly

/-- The assembly with its `extensions` replaced, after those in `judged` were: the rules that these
break (`Registry.faultNotes`) are noted, and those that break any are counted. -/
def judged (assembly : Assembly) (extensions judged : List Extension) : Assembly :=
  { assembly with
    registry := { assembly.registry with extensions }
    report := ⟨assembly.report.entries ++ judged.flatMap assembly.registry.faultNotes⟩
    invalid := assembly.invalid + judged.countP (!·.isValid) }

theorem judged_judged (assembly : Assembly) (extensions later first second : List Extension) :
    (assembly.judged extensions first).judged later second =
      assembly.judged later (first ++ second) := by
  simp only [judged, List.flatMap_append, List.countP_append, List.append_assoc, Nat.add_assoc]
  -- Faults are found by types alone, so other extensions do not change them.
  rfl

/-- `completeExtension` puts an extension, signed and judged, where it was declared. -/
theorem completeExtension_of_append {assembly : Assembly} {before after : List Extension}
    {id : ExtensionId} {name : QualifiedName} {scope : ScopeId} {declaration : ExtensionDeclaration}
    (h : assembly.registry.extensions =
      before ++ .declared id name scope declaration.span :: after)
    (hlast : ∀ other ∈ after, other.id ≠ id) {finished : Extension}
    (hfinished : (Declared.extension id name scope declaration).finished? assembly.registry =
      some finished) :
    assembly.completeExtension ⟨id, declaration⟩ =
      assembly.judged (before ++ finished :: after) [finished] := by
  have hfound : assembly.registry.extension? id =
      some (.declared id name scope declaration.span) := Registry.extension?_of_append h rfl hlast
  obtain rfl := Option.some.inj hfinished
  let signed := signExtension assembly.registry declaration
    (.declared id name scope declaration.span)
  let registry := { assembly.registry with extensions := before ++ signed :: after }
  -- First the extension is replaced by the signed one, then that is judged.
  have hsigned : assembly.registry.modifyExtension id (fun _ => signed) = registry :=
    Registry.modifyExtension_of_append h rfl hlast fun _ => signed
  have hcompleted : assembly.completeExtension ⟨id, declaration⟩ =
      { assembly with registry }.judgeExtension id (registry.extensionFaults signed) := by
    rw [completeExtension, hfound]
    dsimp only
    rw [hsigned]
  -- Judging reads the types only, which are those from before, and not the mark it sets.
  have hsame : registry.extensionFaults signed = assembly.registry.extensionFaults signed := rfl
  have hnotes : ∀ isValid, assembly.registry.faultNotes { signed with isValid } =
      (assembly.registry.extensionFaults signed).map (·.diagnostic) := fun _ => rfl
  rw [hcompleted, hsame, judged, List.flatMap_singleton, hnotes]
  cases hfaults : assembly.registry.extensionFaults signed with
  | nil =>
    rw [judgeExtension, List.map_nil, List.append_nil]
    rfl
  | cons fault rest =>
    have hid : signed.id = id := rfl
    simp only [judgeExtension, foldl_note]
    rw [Registry.modifyExtension_of_append rfl hid hlast, List.map_map]
    rfl

/-- `completeExtension` over all extensions puts each, signed and judged, where it was declared. -/
theorem foldl_completeExtension (assembly : Assembly) (before : List Extension)
    {declared : List Declared}
    (h : assembly.registry.extensions = before ++ declared.filterMap (·.extension?))
    (hids : ((declared.filterMap (·.extension?)).map (·.id)).Nodup) :
    (declared.filterMap (·.pendingExtension?)).foldl completeExtension assembly =
      assembly.judged (before ++ declared.filterMap (·.finished? assembly.registry))
        (declared.filterMap (·.finished? assembly.registry)) := by
  -- The extensions in front are finished; those behind are still as they were declared.
  induction declared generalizing assembly before with
  | nil =>
    rw [List.filterMap_nil] at h
    simp [judged, ← h]
  | cons next rest ih =>
    cases next with
    | type name scope declaration => exact ih assembly before h hids
    | extension id name scope declaration =>
      have hcons : (Declared.extension id name scope declaration :: rest).filterMap
          (·.extension?) = .declared id name scope declaration.span ::
            rest.filterMap (·.extension?) := rfl
      rw [hcons] at h hids
      obtain ⟨hfirst, hids⟩ := List.nodup_cons.1 hids
      have hlast : ∀ other ∈ rest.filterMap (·.extension?), other.id ≠ id :=
        fun other hother heq => hfirst (List.mem_map.2 ⟨other, hother, heq⟩)
      obtain ⟨finished, hfinished⟩ : ∃ finished,
        (Declared.extension id name scope declaration).finished? assembly.registry =
          some finished := ⟨_, rfl⟩
      have hnext := completeExtension_of_append h hlast hfinished
      have hbefore : (assembly.completeExtension ⟨id, declaration⟩).registry.extensions =
          (before ++ [finished]) ++ rest.filterMap (·.extension?) := by
        rw [hnext]
        simp [judged]
      -- What is finished later reads nothing of what is finished now.
      have hrest := ih _ _ hbefore hids
      rw [hnext, judged_judged, List.append_assoc] at hrest
      have hpending : (Declared.extension id name scope declaration :: rest).filterMap
          (·.pendingExtension?) = ⟨id, declaration⟩ :: rest.filterMap (·.pendingExtension?) := rfl
      rw [hpending, List.foldl_cons, hnext, List.filterMap_cons_some hfinished]
      exact hrest

/-- A loop leaves namespaces and scopes alone if each `step` does. -/
theorem scopes_foldl {α : Type} {step : Assembly → α → Assembly}
    (hstep : ∀ assembly item,
      (step assembly item).registry.namespaces = assembly.registry.namespaces ∧
        (step assembly item).registry.scopes = assembly.registry.scopes)
    (items : List α) (assembly : Assembly) :
    (items.foldl step assembly).registry.namespaces = assembly.registry.namespaces ∧
      (items.foldl step assembly).registry.scopes = assembly.registry.scopes := by
  induction items generalizing assembly with
  | nil => exact ⟨rfl, rfl⟩
  | cons item rest ih =>
    obtain ⟨hnamespaces, hscopes⟩ := ih (step assembly item)
    obtain ⟨hnamespaces', hscopes'⟩ := hstep assembly item
    exact ⟨hnamespaces.trans hnamespaces', hscopes.trans hscopes'⟩

theorem scopes_completeType (assembly : Assembly) (pending : PendingType) :
    (assembly.completeType pending).registry.namespaces = assembly.registry.namespaces ∧
      (assembly.completeType pending).registry.scopes = assembly.registry.scopes := ⟨rfl, rfl⟩

theorem scopes_completeExtension (assembly : Assembly) (pending : PendingExtension) :
    (assembly.completeExtension pending).registry.namespaces = assembly.registry.namespaces ∧
      (assembly.completeExtension pending).registry.scopes = assembly.registry.scopes := by
  unfold completeExtension
  split
  next => exact ⟨rfl, rfl⟩
  next extension hfound =>
    dsimp only
    generalize Registry.extensionFaults _ _ = faults
    cases faults with
    | nil => exact ⟨rfl, rfl⟩
    | cons fault rest =>
      simp only [judgeExtension, foldl_note]
      exact ⟨rfl, rfl⟩

/-- `Assembly.complete` leaves the namespaces alone, and changes scopes only by resolving their
imports (`Registry.resolveImports`). -/
theorem scopes_complete (assembly : Assembly) :
    assembly.complete.registry.namespaces = assembly.registry.namespaces ∧
      assembly.complete.registry.scopes = assembly.registry.resolveImports.scopes := by
  -- Last to first: extensions are completed after types, and types after the imports.
  obtain ⟨hnamespaces, hscopes⟩ := scopes_foldl scopes_completeExtension _ _
  obtain ⟨hnamespaces', hscopes'⟩ := scopes_foldl scopes_completeType _ _
  exact ⟨hnamespaces.trans hnamespaces', hscopes.trans hscopes'⟩

end Assembly

/-! ## What signatures refer to -/

namespace NamespaceTree

variable {tree : NamespaceTree}

theorem exists_typeIn?_of_meaningAt {name : String} {level : ScopeLevel} {hash : TypeHash}
    (h : tree.meaningAt name level = .found hash) : ∃ id, tree.typeIn? id name = some hash := by
  unfold meaningAt at h
  split at h
  next own hown =>
    obtain rfl := NameMeaning.found.inj h
    exact ⟨_, hown⟩
  next =>
    -- The one candidate comes from an import that supplies it.
    have hsupplied : ∀ candidate ∈ tree.imported name level,
        tree.typeIn? candidate.1 name = some candidate.2 := by
      intro candidate hin
      obtain ⟨id, _, hid⟩ := List.mem_filterMap.1 (firstPerType_subset _ hin)
      obtain ⟨found, hfound, rfl⟩ := Option.map_eq_some_iff.1 hid
      exact hfound
    generalize tree.imported name level = candidates at h hsupplied
    match candidates with
    | [candidate] =>
      obtain rfl := NameMeaning.found.inj h
      exact ⟨_, hsupplied candidate (List.mem_singleton_self _)⟩
    | [] | _ :: _ :: _ => cases h

theorem exists_typeIn?_of_resolveType {pieces : List String} {chain : ScopeChain}
    {hash : TypeHash} (h : tree.resolveType pieces chain = .found hash) :
    ∃ id name, tree.typeIn? id name = some hash := by
  unfold resolveType at h
  split at h
  · cases h
  next name _ =>
    -- A simple name is found at a level of the chain, a longer one from some namespace on.
    split at h
    · unfold resolveSimple at h
      cases hfirst : (chain.levels.map (tree.meaningAt name)).find? (· ≠ .notFound) with
      | none =>
        rw [hfirst] at h
        cases h
      | some meaning =>
        rw [hfirst] at h
        obtain ⟨level, _, hlevel⟩ := List.mem_map.1 (List.mem_of_find?_eq_some hfirst)
        obtain ⟨id, hid⟩ := exists_typeIn?_of_meaningAt (hlevel.trans h)
        exact ⟨id, name, hid⟩
    · unfold resolveWithin at h
      dsimp only at h
      split at h
      next found hfound =>
        obtain rfl := NameMeaning.found.inj h
        obtain ⟨start, _, hstart⟩ := List.exists_of_findSome?_eq_some hfound
        obtain ⟨id, _, hid⟩ := Option.bind_eq_some_iff.1 hstart
        exact ⟨id, name, hid⟩
      · cases h

/-- Only a name with one meaning, `NameMeaning.found`, gives a reference to a declared type. -/
theorem eq_found_of_typeRef {meaning : NameMeaning} {pieces : List String} {hash : TypeHash}
    (h : (meaning.typeRef pieces).namedHash? = some hash) : meaning = .found hash := by
  cases meaning with
  | found other =>
    rw [NameMeaning.typeRef] at h
    split at h
    · cases h
    · rw [TypeRef.namedHash?] at h
      rw [Option.some.inj h]
  | ambiguous | notFound => cases h

/-- A reference that `NamespaceTree.typeRef` makes to a declared type names one that a namespace
holds. -/
theorem exists_typeIn?_of_typeRef {chain : ScopeChain} {parameters : List String}
    {type : TypeExpr} {hash : TypeHash}
    (h : (tree.typeRef chain parameters type).namedHash? = some hash) :
    ∃ id name, tree.typeIn? id name = some hash := by
  cases type with
  | named pieces span =>
    unfold typeRef namedRef at h
    split at h
    · split at h
      · cases h
      · exact exists_typeIn?_of_resolveType (eq_found_of_typeRef h)
    · exact exists_typeIn?_of_resolveType (eq_found_of_typeRef h)
  | pointer | array | dynamic => cases h

end NamespaceTree

/-! ## The whole -/

theorem heading_of_mem_registeredTypes {declared : List Declared} {type : NamedType}
    (h : type ∈ registeredTypes declared) : type.heading = type := by
  rcases List.mem_append.1 h with h | h
  · obtain ⟨name, _, rfl⟩ := List.mem_map.1 h
    rfl
  · obtain ⟨next, _, rfl⟩ := List.mem_map.1 h
    cases next <;> rfl

theorem Registry.heading_signed (registry : Registry) (pending : List PendingType)
    (type : NamedType) : (registry.signed pending type).heading = type.heading := by
  unfold signed
  split <;> rfl

theorem map_id_extension? (declared : List Declared) :
    (declared.filterMap (·.extension?)).map (·.id) = declared.filterMap (·.id?) := by
  rw [List.map_filterMap]
  refine List.filterMap_congr fun next _ => ?_
  cases next <;> rfl

theorem map_id_finished? (registry : Registry) (declared : List Declared) :
    (declared.filterMap (·.finished? registry)).map (·.id) = declared.filterMap (·.id?) := by
  rw [List.map_filterMap]
  refine List.filterMap_congr fun next _ => ?_
  cases next <;> rfl

namespace Registry

/-- The namespaces and the scopes of a finished registry, given the `scopes` that were opened. -/
structure Opened (registry : Registry) (scopes : List PlacedScope) : Prop where
  paths_eq : registry.namespaces.paths = (NamespaceTree.ofPaths (scopes.map (·.path))).paths
  scopes_eq : registry.scopes.scopes = scopes.map fun placed =>
    (placed.scope registry.namespaces).resolveImports registry.namespaces

namespace Opened

variable {registry : Registry} {scopes : List PlacedScope} (h : registry.Opened scopes)

include h

theorem proper : registry.namespaces.Proper :=
  (NamespaceTree.ofPaths_spec _).1.of_paths_eq h.paths_eq

theorem get?_scopes (id : ScopeId) :
    registry.scopes.get? id = (scopes[id.index]?).map fun placed =>
      (placed.scope registry.namespaces).resolveImports registry.namespaces := by
  rw [ScopeTable.get?, h.scopes_eq, List.getElem?_map]

/-- Under `Opened`, the namespace of a scope has the path that the scope opens. -/
theorem path?_scope {placed : PlacedScope} (hplaced : placed ∈ scopes) :
    registry.namespaces.path? (placed.scope registry.namespaces).namespaceId =
      some placed.path := by
  have hmem : placed.path ∈ registry.namespaces.paths := by
    rw [h.paths_eq, (NamespaceTree.ofPaths_spec _).2]
    exact .inr ⟨placed.path, List.mem_map_of_mem hplaced, List.prefix_rfl⟩
  obtain ⟨space, hspace⟩ := NamespaceTree.mem_paths_iff.1 hmem
  rw [PlacedScope.scope, (NamespaceTree.idOf?_eq_some_iff h.proper.nodup).2 hspace]
  exact hspace

/-- Under `Opened`, a scope that was opened is in the table, with its file, its parent and its
path. -/
theorem exists_scope {id : ScopeId} {placed : PlacedScope}
    (hplaced : scopes[id.index]? = some placed) :
    ∃ scope, registry.scopes.get? id = some scope ∧ scope.file = placed.file ∧
      scope.parent = placed.parent ∧
      registry.namespaces.path? scope.namespaceId = some placed.path := by
  refine ⟨(placed.scope registry.namespaces).resolveImports registry.namespaces, ?_, rfl, rfl,
    h.path?_scope (List.mem_of_getElem? hplaced)⟩
  rw [h.get?_scopes, hplaced]
  rfl

/-- Under `Opened`, a scope of the table was opened. -/
theorem exists_placed {id : ScopeId} {scope : Scope}
    (hscope : registry.scopes.get? id = some scope) :
    ∃ placed, scopes[id.index]? = some placed ∧ scope.parent = placed.parent ∧
      scope.file = placed.file ∧
      registry.namespaces.path? scope.namespaceId = some placed.path := by
  have hplaced := hscope
  rw [h.get?_scopes] at hplaced
  obtain ⟨placed, hplaced, _⟩ := Option.map_eq_some_iff.1 hplaced
  obtain ⟨same, hsame, hfile, hparent, hpath⟩ := h.exists_scope hplaced
  obtain rfl := Option.some.inj (hscope.symm.trans hsame)
  exact ⟨placed, hplaced, hparent, hfile, hpath⟩

end Opened

/-- What a finished registry holds, given the `scopes` that were opened and the `declared` that were
registered. -/
structure Holds (registry : Registry) (scopes : List PlacedScope) (declared : List Declared) :
    Prop extends registry.Opened scopes where
  typeIn?_eq : ∀ {id path}, registry.namespaces.path? id = some path → ∀ name,
    registry.namespaces.typeIn? id name =
      if (⟨path, name⟩ : QualifiedName) ∈ (registeredTypes declared).map (·.name)
        then some (QualifiedName.mk path name).hash else none
  type?_eq : ∀ hash, registry.type? hash =
    ((registeredTypes declared).reverse.find? (·.hash = hash)).map
      (registry.signed (declared.filterMap (·.pendingType?)))
  extensions_eq : registry.extensions = declared.filterMap (·.finished? registry)
  index_eq : registry.index =
    (stableSort (·.id.key) registry.extensions).filterMap indexEntry?
  ordered : (declared.filterMap (·.id?)).Pairwise ExtensionId.Before

/-- The registry that `assemble` makes has `Opened` the scopes of the files, be the numbers of the
files distinct or not. -/
theorem opened_assemble (files : List SourceFile) (options : Options) :
    (assemble files options).registry.Opened (scopesOf files) := by
  have hrecords := Assembly.records_declareFiles files
  obtain ⟨hnamespaces, hscopes⟩ := (Assembly.declareFiles files).scopes_complete
  have hfinished : (assemble files options).registry =
      (Assembly.declareFiles files).complete.registry.reindex := rfl
  rw [hfinished]
  constructor
  -- Completing adds no namespace, so the paths are those of the declared scopes.
  · rw [← hrecords.paths_eq, ← hnamespaces]
    rfl
  · show (Assembly.declareFiles files).complete.registry.scopes.scopes = _
    rw [hscopes, resolveImports, hrecords.scopes_eq, List.map_map]
    simp only [reindex, hnamespaces]
    rfl

/-- `Assembly.complete` resolves the imports, then the signatures of types, then those of
extensions, which it judges. -/
theorem complete_eq {assembly : Assembly} {scopes : List PlacedScope}
    {declared repeated : List Declared} (h : assembly.Records scopes declared repeated)
    (hids : ((declared.filterMap (·.extension?)).map (·.id)).Nodup) :
    ∃ types : Table TypeHash NamedType,
      (∀ hash, types.find? hash = (assembly.registry.type? hash).map fun type =>
        match (declared.filterMap (·.pendingType?)).reverse.find? (·.hash = hash) with
        | some last => assembly.registry.resolveImports.signType last type
        | none => type) ∧
      let registry : Registry := { assembly.registry.resolveImports with types }
      let extensions := declared.filterMap (Declared.finished? registry)
      assembly.complete = { assembly with registry }.judged extensions extensions := by
  obtain ⟨types, htypes, hfind⟩ := Assembly.foldl_completeType
    { assembly with registry := assembly.registry.resolveImports } assembly.types
  rw [h.types_eq] at hfind
  refine ⟨types, hfind, ?_⟩
  rw [Assembly.complete, htypes]
  dsimp only
  rw [h.extensions_eq]
  exact Assembly.foldl_completeExtension _ [] h.registered hids

/-- No two extensions of `declaredOf` have the same identity. -/
theorem nodup_id_declaredOf {files : List SourceFile} (hids : (files.map (·.id)).Nodup) :
    (((declaredOf files).filterMap (·.extension?)).map (·.id)).Nodup := by
  rw [map_id_extension?]
  exact (ordered_declaredOf hids).imp ExtensionId.Before.ne

/-- The registry that `assemble` makes holds what the outlines of the files say. -/
theorem holds_assemble {files : List SourceFile} (hids : (files.map (·.id)).Nodup)
    (options : Options) :
    (assemble files options).registry.Holds (scopesOf files) (declaredOf files) := by
  have hrecords := Assembly.records_declareFiles files
  -- No two extensions have the same identity, so each is completed in its own place.
  obtain ⟨types, hfind, hcomplete⟩ := complete_eq hrecords (nodup_id_declaredOf hids)
  have hregistry : (assemble files options).registry =
      (Assembly.declareFiles files).complete.registry.reindex := rfl
  have hopened := opened_assemble files options
  rw [hregistry, hcomplete] at hopened ⊢
  refine ⟨hopened, hrecords.names.typeIn?_eq, fun hash => ?_, rfl, rfl, ordered_declaredOf hids⟩
  refine (hfind hash).trans ?_
  rw [hrecords.names.type?_eq]
  refine Option.map_congr fun type htype => ?_
  have hhash : type.hash = hash := by simpa using List.find?_some htype
  rw [← hhash]
  rfl

namespace Holds

variable {registry : Registry} {scopes : List PlacedScope} {declared : List Declared}
  (h : registry.Holds scopes declared)

include h

/-- Under `Holds`, `namespaceOf?` gives the namespace with the path of the scope of the
extension. -/
theorem namespaceOf?_eq (extension : Extension) :
    registry.namespaceOf? extension = ((scopes.map (·.path))[extension.scope.index]?).map
      fun path => (registry.namespaces.idOf? path).getD NamespaceTree.root := by
  rw [namespaceOf?, h.get?_scopes, List.getElem?_map, Option.map_map, Option.map_map]
  rfl

/-- Under `Holds`, a hash is registered if it is the hash of one of the `registeredTypes`. -/
theorem containsType_iff {hash : TypeHash} :
    registry.containsType hash = true ↔ ∃ type ∈ registeredTypes declared, type.hash = hash := by
  rw [show registry.containsType hash = (registry.type? hash).isSome from rfl, h.type?_eq,
    Option.isSome_map, List.find?_isSome]
  simp

/-- Under `Holds`, what a namespace holds under a simple name is the hash of the name they make. -/
theorem name_of_typeIn? {id : NamespaceId} {name : String} {hash : TypeHash}
    (hin : registry.namespaces.typeIn? id name = some hash) :
    ∃ path, registry.namespaces.path? id = some path ∧
      (⟨path, name⟩ : QualifiedName) ∈ (registeredTypes declared).map (·.name) ∧
      (QualifiedName.mk path name).hash = hash := by
  obtain ⟨path, hid⟩ := NamespaceTree.exists_path?_of_typeIn? (Option.isSome_of_eq_some hin)
  rw [h.typeIn?_eq hid] at hin
  obtain ⟨hname, hhash⟩ := Option.ite_none_right_eq_some.1 hin
  exact ⟨path, hid, hname, Option.some.inj hhash⟩

/-- Under `Holds`, a type that a namespace holds is registered. -/
theorem containsType_of_typeIn? {id : NamespaceId} {name : String} {hash : TypeHash}
    (hin : registry.namespaces.typeIn? id name = some hash) :
    registry.containsType hash = true := by
  obtain ⟨path, _, hname, hhash⟩ := h.name_of_typeIn? hin
  obtain ⟨type, htype, heq⟩ := List.mem_map.1 hname
  refine h.containsType_iff.2 ⟨type, htype, ?_⟩
  rw [NamedType.hash, heq, hhash]

theorem ordered_extensions :
    registry.extensions.Pairwise fun extension later => extension.id.Before later.id := by
  have hordered := h.ordered
  rw [← map_id_finished? registry, ← h.extensions_eq] at hordered
  exact List.pairwise_map.1 hordered

theorem nodup_extensions : (registry.extensions.map (·.id)).Nodup :=
  List.pairwise_map.2 (h.ordered_extensions.imp ExtensionId.Before.ne)

/-- Under `Holds`, `extension?` finds an extension that is registered by its identity. -/
theorem extension?_id {extension : Extension} (hin : extension ∈ registry.extensions) :
    registry.extension? extension.id = some extension := extension?_of_mem h.nodup_extensions hin

/-- Under `Holds`, `extensionsOf` lists the valid extensions that extend the type, as registered. -/
theorem extensionsOf_eq (hash : TypeHash) :
    registry.extensionsOf hash = registry.extensions.filter fun extension =>
      extension.isValid && decide (extension.extendedHash? = some hash) := by
  -- Extensions are registered in declaration order, so sorting leaves them as they are.
  have hsorted : stableSort (·.id.key) registry.extensions = registry.extensions :=
    stableSort_eq_self (h.ordered_extensions.imp ExtensionId.Before.keyLe)
  have hindexed : registry.reindex = registry := by
    rw [reindex, ← h.index_eq]
  rw [← hindexed, extensionsOf_reindex h.nodup_extensions, hsorted, hindexed]

/-- Under `Holds`, `extensionOfType?` gives the last extension registered whose own type has the
hash. -/
theorem extensionOfType?_eq (hash : TypeHash) :
    registry.extensionOfType? hash = registry.extensions.reverse.find? (·.hash = hash) := by
  unfold extensionOfType?
  cases hfound : registry.extensions.reverse.find? (·.hash = hash) with
  | none => rfl
  | some extension =>
    exact h.extension?_id (List.mem_reverse.1 (List.mem_of_find?_eq_some hfound))

/-- Under `Holds`, signatures leave the headings (`NamedType.heading`) of types as registered. -/
theorem heading?_eq (hash : TypeHash) :
    (registry.type? hash).map (·.heading) =
      (registeredTypes declared).reverse.find? (·.hash = hash) := by
  rw [h.type?_eq, Option.map_map]
  refine (Option.map_congr fun type htype => ?_).trans Option.map_id'
  have hin := List.mem_reverse.1 (List.mem_of_find?_eq_some htype)
  rw [Function.comp_apply, heading_signed, heading_of_mem_registeredTypes hin]

/-- Under `Holds`, the base of a type is registered. -/
theorem containsType_of_base {hash base : TypeHash} {type : NamedType}
    (htype : registry.type? hash = some type) (hbase : type.base = some base) :
    registry.containsType base = true := by
  rw [h.type?_eq] at htype
  obtain ⟨bare, hbare, rfl⟩ := Option.map_eq_some_iff.1 htype
  have hin := List.mem_reverse.1 (List.mem_of_find?_eq_some hbare)
  unfold signed at hbase
  split at hbase
  · obtain ⟨written, _, hwritten⟩ := Option.bind_eq_some_iff.1 hbase
    obtain ⟨id, name, hin⟩ := NamespaceTree.exists_typeIn?_of_typeRef hwritten
    exact h.containsType_of_typeIn? hin
  · -- A type without a signature has no base.
    rw [← heading_of_mem_registeredTypes hin] at hbase
    cases hbase

end Holds

end Registry

end ExtensionMembers
