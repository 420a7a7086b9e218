import ExtensionMembers.Build.Assembly
import ExtensionMembers.Proofs.Collection.Correspondence
import ExtensionMembers.Proofs.Namespace.Paths
import ExtensionMembers.Proofs.Program.Outline

/-!
# What files declare

The outlines of files say what is declared: the scopes, and the types and extensions whose names
are still free when their turn comes. This module reads it off the outlines, and shows that
declaring the files records this and nothing else.

## Main definitions

* `PlacedScope`, `Declared`: a scope, and a type or extension, with their places in the program.
* `scopesFrom`, `declaredFrom`: those of some outlines, one file after the other.
* `enlist`: a declaration is passed over if its name is taken.
* `Registry.Names`, `Assembly.Records`: what a registry and an assembly hold in the end.

## Main results

* `Assembly.records_declareFiles`: declaring some files records what their outlines say.
-/

namespace ExtensionMembers

/-! ## Declarations of a program -/

/-- A scope of a file (`OutlineScope`), its parent known by the place among the scopes of all
files. -/
structure PlacedScope where
  /-- The file. -/
  file : FileId
  /-- The scope directly around it. -/
  parent : Option ScopeId
  /-- The absolute path of the namespace it opens. -/
  path : NamespacePath
  /-- The paths of its using directives, as written. -/
  usings : List NamespacePath
deriving DecidableEq

/-- A type or an extension (`OutlineType`, `OutlineExtension`), with the scope it is declared in. -/
inductive Declared where
  /-- A type. -/
  | type (name : QualifiedName) (scope : ScopeId) (declaration : TypeDeclaration)
  /-- An extension. -/
  | extension (id : ExtensionId) (name : QualifiedName) (scope : ScopeId)
      (declaration : ExtensionDeclaration)
deriving DecidableEq

/-- The `Scope` that `declareScope` adds for it in a tree, without imports as yet. -/
def PlacedScope.scope (tree : NamespaceTree) (placed : PlacedScope) : Scope where
  file := placed.file
  parent := placed.parent
  namespaceId := (tree.idOf? placed.path).getD NamespaceTree.root
  usings := placed.usings
  imports := []

namespace Declared

/-- The type that `Registry.registerType` is given, which for an extension is its own type. -/
def bare : Declared → NamedType
  | type name _ declaration => .bare name declaration.kind.typeKind declaration.span
  | extension _ name _ declaration => .bare name .extension declaration.span

/-- The qualified name of a `Declared`. -/
def name (declared : Declared) : QualifiedName := declared.bare.name

/-- The scope of a `Declared`. -/
def scope : Declared → ScopeId
  | type _ scope _ | extension _ _ scope _ => scope

/-- The type that is left to complete, a `PendingType`. -/
def pendingType? : Declared → Option PendingType
  | type name scope declaration => some ⟨name.hash, scope, declaration⟩
  | extension .. => none

/-- The extension that is left to complete, a `PendingExtension`. -/
def pendingExtension? : Declared → Option PendingExtension
  | type .. => none
  | extension id _ _ declaration => some ⟨id, declaration⟩

theorem hash_of_pendingType? {declared : Declared} {pending : PendingType}
    (h : declared.pendingType? = some pending) : pending.hash = declared.bare.hash := by
  cases declared with
  | type => rw [← Option.some.inj h]; rfl
  | extension => cases h

/-- The extension that is registered, `Extension.declared`. -/
def extension? : Declared → Option Extension
  | type .. => none
  | extension id name scope declaration => some (.declared id name scope declaration.span)

/-- The note made if the name is taken, that of `DeclarationFault.duplicate`. -/
def duplicateNote (declared : Declared) : Diagnostic :=
  (DeclarationFault.duplicate declared.name declared.bare.span).diagnostic

end Declared

/-- The declaration of an `OutlineType` in a file whose scopes start at position `first`. -/
def OutlineType.declared (first : Nat) (type : OutlineType) : Declared :=
  .type type.name ⟨first + type.scope⟩ type.declaration

/-- The declaration of an `OutlineExtension` in a file whose scopes start at position `first`. -/
def OutlineExtension.declared (first : Nat) (extension : OutlineExtension) : Declared :=
  .extension extension.id extension.name ⟨first + extension.scope⟩ extension.declaration

namespace Outline

/-- The scopes of a file whose scopes start at position `first`. -/
def placedScopes (first : Nat) (outline : Outline) : List PlacedScope :=
  outline.scopes.map fun scope =>
    ⟨outline.file, scope.parent.map fun index => ⟨first + index⟩, scope.path, scope.usings⟩

/-- The types and then the extensions of a file whose scopes start at position `first`. -/
def declared (first : Nat) (outline : Outline) : List Declared :=
  outline.types.map (·.declared first) ++ outline.extensions.map (·.declared first)

/-- The names that `Outline.types` and `Outline.extensions` of a file declare. -/
def names (outline : Outline) : List QualifiedName :=
  outline.types.map (·.name) ++ outline.extensions.map (·.name)

theorem map_name_declared (first : Nat) (outline : Outline) :
    (outline.declared first).map (·.name) = outline.names := by
  rw [declared, List.map_append, List.map_map, List.map_map]
  rfl

end Outline

/-- The `placedScopes` of some files, the first of them at position `first`. -/
def scopesFrom (first : Nat) : List Outline → List PlacedScope
  | [] => []
  | outline :: rest =>
    outline.placedScopes first ++ scopesFrom (first + outline.scopes.length) rest

/-- The types and extensions (`declared`) of some files whose scopes start at position `first`. -/
def declaredFrom (first : Nat) : List Outline → List Declared
  | [] => []
  | outline :: rest => outline.declared first ++ declaredFrom (first + outline.scopes.length) rest

theorem map_path_scopesFrom (first : Nat) (outlines : List Outline) :
    (scopesFrom first outlines).map (·.path) =
      outlines.flatMap fun outline => outline.scopes.map (·.path) := by
  induction outlines generalizing first with
  | nil => rfl
  | cons outline rest ih =>
    rw [scopesFrom, List.map_append, ih, List.flatMap_cons, Outline.placedScopes, List.map_map]
    rfl

theorem map_name_declaredFrom (first : Nat) (outlines : List Outline) :
    (declaredFrom first outlines).map (·.name) = outlines.flatMap (·.names) := by
  induction outlines generalizing first with
  | nil => rfl
  | cons outline rest ih =>
    rw [declaredFrom, List.map_append, Outline.map_name_declared, ih, List.flatMap_cons]

/-- The built-in types, those of `BuiltIn.names`. -/
def BuiltIn.types : List NamedType := names.map fun name => .bare (.global name) .builtIn .unplaced

/-- The types registered after some declarations, in order: `BuiltIn.types`, then those declared. -/
def registeredTypes (declared : List Declared) : List NamedType :=
  BuiltIn.types ++ declared.map (·.bare)

/-- The declarations with one more, unless its name is taken (`registeredTypes`). -/
def enlist (declared : List Declared) (next : Declared) : List Declared :=
  if next.name ∈ (registeredTypes declared).map (·.name) then declared else declared ++ [next]

/-- The declaration `next` if `enlist` passes it over. -/
def passOver (declared : List Declared) (next : Declared) : List Declared :=
  if next.name ∈ (registeredTypes declared).map (·.name) then [next] else []

/-- The declarations that `enlist` passes over, after some that are registered. -/
def repeatedFrom (declared : List Declared) : List Declared → List Declared
  | [] => []
  | next :: rest => passOver declared next ++ repeatedFrom (enlist declared next) rest

theorem repeatedFrom_append (declared all later : List Declared) :
    repeatedFrom declared (all ++ later) =
      repeatedFrom declared all ++ repeatedFrom (all.foldl enlist declared) later := by
  induction all generalizing declared with
  | nil => rfl
  | cons next rest ih =>
    rw [List.cons_append, repeatedFrom, ih, ← List.append_assoc]
    rfl

/-- The outlines of some files in the order in which `declareFiles` declares them. -/
def outlinesOf (files : List SourceFile) : List Outline :=
  stableSort (fun outline => [outline.file.index]) (files.map Outline.ofFile)

/-- `outlinesOf` are the outlines of the files. -/
theorem mem_outlinesOf_iff {files : List SourceFile} {outline : Outline} :
    outline ∈ outlinesOf files ↔ ∃ file ∈ files, Outline.ofFile file = outline := by
  rw [outlinesOf, (stableSort_perm _ _).mem_iff, List.mem_map]

/-- The scopes of some files: `scopesFrom` of their outlines. -/
def scopesOf (files : List SourceFile) : List PlacedScope := scopesFrom 0 (outlinesOf files)

/-- The declarations of some files, in the order in which they are declared: `declaredFrom` of their
outlines. -/
def declarationsOf (files : List SourceFile) : List Declared := declaredFrom 0 (outlinesOf files)

/-- The declarations of some files that `enlist` registers. -/
def declaredOf (files : List SourceFile) : List Declared :=
  (declaredFrom 0 (outlinesOf files)).foldl enlist []

/-- The declarations of some files that `enlist` passes over. -/
def repeatedOf (files : List SourceFile) : List Declared := repeatedFrom [] (declarationsOf files)

theorem registeredTypes_concat (declared : List Declared) (next : Declared) :
    registeredTypes (declared ++ [next]) = registeredTypes declared ++ [next.bare] := by
  simp [registeredTypes]

theorem sound_of_mem_outlinesOf {files : List SourceFile} {outline : Outline}
    (h : outline ∈ outlinesOf files) : outline.Sound := by
  obtain ⟨file, _, rfl⟩ := mem_outlinesOf_iff.1 h
  exact Outline.sound_ofFile file

/-! ## The order of declaration -/

/-- An extension is declared before another one: in a file with a smaller number, or further up in
the same file. This is the order of `ExtensionId.key`. -/
def ExtensionId.Before (id other : ExtensionId) : Prop :=
  id.file.index < other.file.index ∨ id.file = other.file ∧ id.index < other.index

theorem ExtensionId.Before.ne {id other : ExtensionId} (h : id.Before other) : id ≠ other := by
  rintro rfl
  rcases h with h | ⟨_, h⟩ <;> exact Nat.lt_irrefl _ h

theorem ExtensionId.Before.keyLe {id other : ExtensionId} (h : id.Before other) :
    ExtensionMembers.keyLe id.key other.key = true := by
  rcases h with h | ⟨heq, h⟩
  · simp [key, ExtensionMembers.keyLe, h]
  · simp [key, ExtensionMembers.keyLe, heq, h]

theorem ExtensionId.Before.asymm {id other : ExtensionId} (h : id.Before other) :
    ¬ other.Before id := by
  unfold Before at h ⊢
  rcases h with h | ⟨heq, h⟩
  · rintro (habove | ⟨heq, _⟩)
    · exact Nat.lt_asymm h habove
    · exact Nat.ne_of_lt h (congrArg FileId.index heq.symm)
  · rw [heq]
    omega

/-- Of two extensions, the one whose `ExtensionId.key` is not above the other one is declared before
it. -/
theorem ExtensionId.Before.of_keyLe {id other : ExtensionId}
    (h : ExtensionMembers.keyLe id.key other.key = true) (hne : id ≠ other) : id.Before other := by
  obtain ⟨⟨file⟩, index⟩ := id
  obtain ⟨⟨otherFile⟩, otherIndex⟩ := other
  simp only [key, ExtensionMembers.keyLe, Bool.and_true, Bool.or_eq_true, Bool.and_eq_true,
    decide_eq_true_eq, beq_iff_eq] at h
  simp only [ne_eq, mk.injEq, FileId.mk.injEq, not_and, Before] at hne ⊢
  omega

/-- The identity of a declared `extension`. -/
def Declared.id? : Declared → Option ExtensionId
  | type .. => none
  | extension id .. => some id

theorem enlist_sublist (declared : List Declared) (next : Declared) :
    (enlist declared next).Sublist (declared ++ [next]) := by
  unfold enlist
  split
  · exact List.sublist_append_left _ _
  · exact .refl _

/-- What `enlist` registers comes in the order in which it is declared. -/
theorem foldl_enlist_sublist (declared all : List Declared) :
    (all.foldl enlist declared).Sublist (declared ++ all) := by
  induction all generalizing declared with
  | nil => simp
  | cons next rest ih =>
    have hnext := (enlist_sublist declared next).append_right rest
    simpa using (ih (enlist declared next)).trans hnext

/-- `enlist` registers everything if no two declarations have the same name. -/
theorem foldl_enlist_eq_append {declared all : List Declared}
    (h : ((registeredTypes (declared ++ all)).map (·.name)).Nodup) :
    all.foldl enlist declared = declared ++ all := by
  induction all generalizing declared with
  | nil => simp
  | cons next rest ih =>
    have hnames : (registeredTypes (declared ++ next :: rest)).map (·.name) =
        (registeredTypes declared).map (·.name) ++ next.name :: rest.map (·.name) := by
      simp [registeredTypes, Declared.name, Function.comp_def]
    have hfree : next.name ∉ (registeredTypes declared).map (·.name) := by
      rw [hnames, List.nodup_append] at h
      exact fun hin => h.2.2 _ hin _ List.mem_cons_self rfl
    rw [List.foldl_cons, enlist, if_neg hfree, ih (by simpa using h)]
    simp

/-- No two of the `registeredTypes` have the same name. -/
theorem nodup_name_foldl_enlist {declared : List Declared}
    (h : ((registeredTypes declared).map (·.name)).Nodup) (all : List Declared) :
    ((registeredTypes (all.foldl enlist declared)).map (·.name)).Nodup := by
  refine List.foldlRecOn (motive := fun declared =>
    ((registeredTypes declared).map (·.name)).Nodup) all enlist h fun declared h next _ => ?_
  unfold enlist
  split
  next => exact h
  next hfree =>
    rw [registeredTypes_concat, List.map_append, List.map_singleton, ← List.concat_eq_append]
    exact h.concat hfree

theorem nodup_name_registeredTypes (files : List SourceFile) :
    ((registeredTypes (declaredOf files)).map (·.name)).Nodup := by
  have hbuiltIns : ((registeredTypes []).map (·.name)).Nodup := by decide
  exact nodup_name_foldl_enlist hbuiltIns (declaredFrom 0 (outlinesOf files))

theorem nodup_name_declaredOf (files : List SourceFile) :
    ((declaredOf files).map (·.name)).Nodup := by
  have hnodup := nodup_name_registeredTypes files
  rw [registeredTypes, List.map_append, List.map_map] at hnodup
  exact hnodup.of_append_right

theorem filterMap_id?_declared (first : Nat) (outline : Outline) :
    (outline.declared first).filterMap (·.id?) = outline.extensions.map (·.id) := by
  rw [Outline.declared, List.filterMap_append, List.filterMap_map, List.filterMap_map]
  simp [Function.comp_def, OutlineType.declared, OutlineExtension.declared, Declared.id?]

theorem filterMap_id?_declaredFrom (first : Nat) (outlines : List Outline) :
    (declaredFrom first outlines).filterMap (·.id?) =
      outlines.flatMap fun outline => outline.extensions.map (·.id) := by
  induction outlines generalizing first with
  | nil => rfl
  | cons outline rest ih =>
    rw [declaredFrom, List.filterMap_append, filterMap_id?_declared, ih, List.flatMap_cons]

theorem nodup_file_outlinesOf {files : List SourceFile} (hids : (files.map (·.id)).Nodup) :
    ((outlinesOf files).map (·.file)).Nodup := by
  have hperm := (stableSort_perm (fun outline : Outline => [outline.file.index])
    (files.map Outline.ofFile)).map (·.file)
  refine hperm.nodup_iff.2 ?_
  simpa [Function.comp_def, Outline.file_ofFile] using hids

/-- The files of `outlinesOf` ascend, if no two are the same. -/
theorem pairwise_outlinesOf {files : List SourceFile} (hids : (files.map (·.id)).Nodup) :
    (outlinesOf files).Pairwise fun outline later => outline.file.index < later.file.index := by
  have hsorted := stableSort_sorted (fun outline : Outline => [outline.file.index])
    (files.map Outline.ofFile)
  -- Sorted files are in weak order, and distinct numbers make it strict.
  refine (hsorted.and (List.pairwise_map.1 (nodup_file_outlinesOf hids))).imp
    fun {outline later} h => ?_
  obtain ⟨hle, hne⟩ := h
  have hindex : outline.file.index ≠ later.file.index :=
    fun heq => hne (congrArg FileId.mk heq)
  simpa [keyLe, hindex] using hle

/-- Extensions stand among `declarationsOf` in the order of their files and of the text. -/
theorem ordered_declarationsOf {files : List SourceFile} (hids : (files.map (·.id)).Nodup) :
    ((declarationsOf files).filterMap (·.id?)).Pairwise ExtensionId.Before := by
  rw [declarationsOf, filterMap_id?_declaredFrom]
  -- Within a file the identities ascend with the text, and across files with their numbers.
  refine List.pairwise_flatMap.2 ⟨fun outline houtline => ?_, ?_⟩
  · rw [(sound_of_mem_outlinesOf houtline).ids, List.pairwise_map]
    exact List.pairwise_lt_range.imp fun hlt => .inr ⟨rfl, hlt⟩
  · have hfile : ∀ outline ∈ outlinesOf files, ∀ id ∈ outline.extensions.map (·.id),
        id.file = outline.file := by
      intro outline houtline id hid
      rw [(sound_of_mem_outlinesOf houtline).ids] at hid
      obtain ⟨index, _, rfl⟩ := List.mem_map.1 hid
      rfl
    refine List.Pairwise.imp_of_mem (fun {outline later} houtline hlater hlt => ?_)
      (pairwise_outlinesOf hids)
    intro id hid other hother
    refine .inl ?_
    rwa [hfile outline houtline id hid, hfile later hlater other hother]

/-- Extensions stand among `declaredOf` in the order in which they are declared. -/
theorem ordered_declaredOf {files : List SourceFile} (hids : (files.map (·.id)).Nodup) :
    ((declaredOf files).filterMap (·.id?)).Pairwise ExtensionId.Before :=
  (ordered_declarationsOf hids).sublist
    ((foldl_enlist_sublist [] (declarationsOf files)).filterMap (·.id?))

/-! ## Registered types -/

/-- The last of some elements that passes a test, with one more element at the end. -/
theorem find?_reverse_concat {α : Type} (test : α → Bool) (list : List α) (last : α) :
    (list ++ [last]).reverse.find? test =
      if test last = true then some last else list.reverse.find? test := by
  cases htest : test last <;> simp [htest]

namespace Registry

/-- The `types` of a registry, registered in this order: each by its name in its namespace, and by
its hash unless a later one has the same. -/
structure Names (registry : Registry) (types : List NamedType) : Prop where
  within : ∀ type ∈ types, type.name.path ∈ registry.namespaces.paths
  typeIn?_eq : ∀ {id path}, registry.namespaces.path? id = some path → ∀ name,
    registry.namespaces.typeIn? id name =
      if (⟨path, name⟩ : QualifiedName) ∈ types.map (·.name)
        then some (QualifiedName.mk path name).hash else none
  type?_eq : ∀ hash, registry.type? hash = types.reverse.find? (·.hash = hash)

variable {registry : Registry} {types : List NamedType} {type : NamedType}

theorem Names.mem_of_type? (hnames : registry.Names types) {hash : TypeHash}
    (htype : registry.type? hash = some type) : type ∈ types ∧ type.hash = hash := by
  rw [hnames.type?_eq] at htype
  exact ⟨List.mem_reverse.1 (List.mem_of_find?_eq_some htype), by
    simpa using List.find?_some htype⟩

/-- `registerType` refuses a type whose name is taken, as a duplicate, and changes nothing. -/
theorem registerType_taken (hproper : registry.namespaces.Proper) (hnames : registry.Names types)
    (htaken : type.name ∈ types.map (·.name)) :
    registry.registerType type = (.error (.duplicate type.name type.span), registry) := by
  obtain ⟨same, hsame, hname⟩ := List.mem_map.1 htaken
  obtain ⟨id, hid⟩ := NamespaceTree.mem_paths_iff.1 (hname ▸ hnames.within same hsame)
  have hin : (registry.namespaces.typeIn? id type.name.name).isSome := by
    rw [hnames.typeIn?_eq hid, if_pos htaken]
    rfl
  have hmade := NamespaceTree.makePath_eq_of_path? hproper hproper.root hid
  have hfault := NamespaceTree.declareType_taken hid hin type.hash
  simp only [registerType, hmade, hfault, DeclarationFault.placedAt]

/-- `Names` with one more type, with its name put into its namespace and its entry under its
hash. -/
theorem Names.concat (hproper : registry.namespaces.Proper) (hnames : registry.Names types)
    {id : NamespaceId} (hid : registry.namespaces.path? id = some type.name.path)
    {tree : NamespaceTree} (hpaths : tree.paths = registry.namespaces.paths)
    (htypeIn : ∀ other name, tree.typeIn? other name =
      if id = other ∧ type.name.name = name then some type.hash
        else registry.namespaces.typeIn? other name) :
    Names { registry with namespaces := tree, types := registry.types.insert type.hash type }
      (types ++ [type]) := by
  refine ⟨fun other hother => ?_, fun {other path} hother name => ?_, fun hash => ?_⟩
  · rw [hpaths]
    rcases List.mem_append.1 hother with hother | hother
    · exact hnames.within other hother
    · rw [List.mem_singleton.1 hother]
      exact NamespaceTree.mem_paths_iff.2 ⟨id, hid⟩
  · rw [NamespaceTree.path?_congr hpaths] at hother
    rw [htypeIn, hnames.typeIn?_eq hother]
    have hsame : id = other ∧ type.name.name = name ↔
        (⟨path, name⟩ : QualifiedName) = type.name := by
      constructor
      · rintro ⟨rfl, rfl⟩
        rw [Option.some.inj (hother.symm.trans hid)]
      · rintro heq
        rw [← heq] at hid ⊢
        exact ⟨NamespaceTree.path?_inj hproper.nodup hid hother, rfl⟩
    -- The new name is in one namespace only, the one with its path.
    by_cases heq : (⟨path, name⟩ : QualifiedName) = type.name
    · have hin : type.name ∈ (types ++ [type]).map (·.name) := by simp
      rw [if_pos (hsame.2 heq), heq, if_pos hin, NamedType.hash]
    · rw [if_neg fun h => heq (hsame.1 h)]
      simp [heq]
  · have hinsert : (registry.types.insert type.hash type).find? hash =
        if type.hash = hash then some type else registry.type? hash :=
      registry.types.find?_insert type.hash hash type
    rw [Registry.type?, hinsert, hnames.type?_eq, find?_reverse_concat]
    simp only [decide_eq_true_eq]

/-- `registerType` registers a type whose name is free in a namespace that is there. -/
theorem registerType_free (hproper : registry.namespaces.Proper) (hnames : registry.Names types)
    (hpath : type.name.path ∈ registry.namespaces.paths)
    (hfree : type.name ∉ types.map (·.name)) :
    ∃ tree, tree.paths = registry.namespaces.paths ∧
      registry.registerType type = (.ok (), { registry with
        namespaces := tree, types := registry.types.insert type.hash type }) ∧
      Names { registry with namespaces := tree, types := registry.types.insert type.hash type }
        (types ++ [type]) := by
  obtain ⟨id, hid⟩ := NamespaceTree.mem_paths_iff.1 hpath
  have hnone : registry.namespaces.typeIn? id type.name.name = none := by
    rw [hnames.typeIn?_eq hid, if_neg hfree]
  obtain ⟨tree, hdeclared, hpaths, htypeIn⟩ :=
    NamespaceTree.declareType_free hid hnone type.hash
  have hmade := NamespaceTree.makePath_eq_of_path? hproper hproper.root hid
  exact ⟨tree, hpaths, by simp only [registerType, hmade, hdeclared],
    hnames.concat hproper hid hpaths htypeIn⟩

/-- More namespaces do not change `Names`, since nothing is declared in a namespace that is new. -/
theorem Names.of_extends (hnames : registry.Names types) {tree : NamespaceTree}
    (hproper : tree.Proper) (hextends : tree.Extends registry.namespaces) (scopes : ScopeTable) :
    Names { registry with namespaces := tree, scopes } types := by
  refine ⟨fun type htype => ?_, fun {id path} hid name => ?_, hnames.type?_eq⟩
  · obtain ⟨id, hid⟩ := NamespaceTree.mem_paths_iff.1 (hnames.within type htype)
    exact NamespaceTree.mem_paths_iff.2 ⟨id, hextends.path?_eq hid⟩
  · refine (hextends.typeIn?_eq id name).trans ?_
    -- A namespace was there before, with the same path, or it is new.
    cases hold : registry.namespaces.path? id with
    | some old =>
      obtain rfl := Option.some.inj ((hextends.path?_eq hold).symm.trans hid)
      exact hnames.typeIn?_eq hold name
    | none =>
      have hspace : registry.namespaces.space? id = none := Option.map_eq_none_iff.1 hold
      rw [NamespaceTree.typeIn?, hspace, if_neg]
      · rfl
      · -- A type with this path would have put the namespace into the tree before.
        intro hin
        obtain ⟨type, htype, hname⟩ := List.mem_map.1 hin
        have hpath := hnames.within type htype
        rw [hname] at hpath
        obtain ⟨other, hother⟩ := NamespaceTree.mem_paths_iff.1 hpath
        obtain rfl := NamespaceTree.path?_inj hproper.nodup (hextends.path?_eq hother) hid
        rw [hold] at hother
        cases hother

theorem Names.of_tree (hnames : registry.Names types) {tree : NamespaceTree}
    (hpaths : tree.paths = registry.namespaces.paths)
    (htypes : ∀ id name, tree.typeIn? id name = registry.namespaces.typeIn? id name)
    (extensions : List Extension) :
    Names { registry with namespaces := tree, extensions } types := by
  refine ⟨fun type htype => hpaths ▸ hnames.within type htype, fun {id path} hid name => ?_,
    hnames.type?_eq⟩
  rw [NamespaceTree.path?_congr hpaths] at hid
  exact (htypes id name).trans (hnames.typeIn?_eq hid name)

end Registry

/-! ## The built-in types -/

theorem findIn?_map (name : String) (names : List String) :
    Table.findIn? name (names.map fun name => (name, TypeHash.ofName name)) =
      if name ∈ names then some (TypeHash.ofName name) else none := by
  induction names with
  | nil => rfl
  | cons first rest ih =>
    rw [List.map_cons, Table.findIn?, ih]
    by_cases heq : first = name
    · simp [heq]
    · simp [heq, Ne.symm heq]

/-- A table written type by type (`Table.insert`) has the last type of each hash. -/
theorem find?_foldl_insert (types : List NamedType) (hash : TypeHash) :
    (types.foldl (fun table type => table.insert type.hash type) Table.empty).find? hash =
      types.reverse.find? (·.hash = hash) := by
  induction types using List.reverseRecOn with
  | nil => rfl
  | append_singleton before last ih =>
    rw [List.foldl_concat, Table.find?_insert, ih, find?_reverse_concat]
    simp only [decide_eq_true_eq]

/-- `withBuiltIns` holds the `BuiltIn.types`. -/
theorem Registry.names_withBuiltIns : withBuiltIns.Names BuiltIn.types ∧
    withBuiltIns.namespaces.paths = [[]] := by
  have hspaces : withBuiltIns.namespaces.spaces.map
      (fun space => (space.path, space.types.entries)) =
        [([], BuiltIn.names.map fun name => (name, TypeHash.ofName name))] := by
    decide +kernel
  have htypes : withBuiltIns.types.entries = (BuiltIn.types.foldl
      (fun table type => table.insert type.hash type) Table.empty).entries := by
    decide +kernel
  obtain ⟨space, hspace, hcontents⟩ := List.map_eq_singleton_iff.1 hspaces
  obtain ⟨hpath, hentries⟩ := Prod.mk.inj hcontents
  have hpaths : withBuiltIns.namespaces.paths = [[]] := by
    rw [NamespaceTree.paths, hspace, List.map_singleton, hpath]
  -- The start has one namespace and the built-in types in it; the rest is read off these lists.
  refine ⟨⟨fun type htype => ?_, fun {id path} hid name => ?_, fun hash => ?_⟩, hpaths⟩
  · obtain ⟨name, _, rfl⟩ := List.mem_map.1 htype
    rw [hpaths]
    exact List.mem_singleton_self _
  · have hin : (⟨[], name⟩ : QualifiedName) ∈ BuiltIn.types.map (·.name) ↔
        name ∈ BuiltIn.names := by
      simp [BuiltIn.types, NamedType.bare, QualifiedName.global]
    rw [NamespaceTree.path?_eq_getElem?, hpaths, List.getElem?_singleton] at hid
    obtain ⟨hindex, hnil⟩ := Option.ite_none_right_eq_some.1 hid
    obtain rfl := Option.some.inj hnil
    rw [NamespaceTree.typeIn?, NamespaceTree.space?, hspace, hindex]
    refine Eq.trans ?_ ((findIn?_map name BuiltIn.names).trans (if_congr hin.symm ?_ rfl))
    · rw [← hentries]
      rfl
    · simp [QualifiedName.hash, QualifiedName.text, QualifiedName.textWithin]
  · rw [type?, Table.find?, htypes]
    exact find?_foldl_insert BuiltIn.types hash

/-! ## Recording -/

/-- The identities of the scopes of a file, the first of them at position `first`; what
`declareScope` hands on. -/
def scopeIdsFrom (first count : Nat) : List ScopeId := (List.range' first count).map .mk

theorem getElem?_scopeIdsFrom (first : Nat) {count position : Nat} (h : position < count) :
    (scopeIdsFrom first count)[position]? = some ⟨first + position⟩ := by
  simp [scopeIdsFrom, List.getElem?_range' h]

theorem scopeIdsFrom_succ (first count : Nat) :
    scopeIdsFrom first (count + 1) = scopeIdsFrom first count ++ [⟨first + count⟩] := by
  simp [scopeIdsFrom, List.range'_concat]

namespace Assembly

/-- What an assembly holds after `scopes` were opened, `declared` registered, and `repeated` passed
over. -/
structure Records (assembly : Assembly) (scopes : List PlacedScope)
    (declared repeated : List Declared) : Prop where
  paths_eq : assembly.registry.namespaces.paths =
    (NamespaceTree.ofPaths (scopes.map (·.path))).paths
  names : assembly.registry.Names (registeredTypes declared)
  scopes_eq : assembly.registry.scopes.scopes =
    scopes.map (·.scope assembly.registry.namespaces)
  registered : assembly.registry.extensions = declared.filterMap (·.extension?)
  types_eq : assembly.types = declared.filterMap (·.pendingType?)
  extensions_eq : assembly.extensions = declared.filterMap (·.pendingExtension?)
  report_eq : assembly.report.entries = repeated.map (·.duplicateNote)
  invalid_eq : assembly.invalid = 0

namespace Records

variable {assembly : Assembly} {scopes : List PlacedScope} {declared repeated : List Declared}

theorem proper (h : assembly.Records scopes declared repeated) :
    assembly.registry.namespaces.Proper :=
  (NamespaceTree.ofPaths_spec _).1.of_paths_eq h.paths_eq

theorem path_mem (h : assembly.Records scopes declared repeated) {placed : PlacedScope}
    (hplaced : placed ∈ scopes) : placed.path ∈ assembly.registry.namespaces.paths := by
  rw [h.paths_eq, (NamespaceTree.ofPaths_spec _).2]
  exact .inr ⟨placed.path, List.mem_map_of_mem hplaced, List.prefix_rfl⟩

theorem path_mem_of_getElem? (h : assembly.Records scopes declared repeated) {index : Nat}
    {path : NamespacePath} (hpath : (scopes[index]?).map (·.path) = some path) :
    path ∈ assembly.registry.namespaces.paths := by
  obtain ⟨placed, hplaced, rfl⟩ := Option.map_eq_some_iff.1 hpath
  exact h.path_mem (List.mem_of_getElem? hplaced)

theorem size_eq (h : assembly.Records scopes declared repeated) :
    assembly.registry.scopes.size = scopes.length := by
  rw [ScopeTable.size, h.scopes_eq, List.length_map]

theorem declareScope (h : assembly.Records scopes declared repeated) (file : FileId)
    (ids : List ScopeId) (scope : OutlineScope) :
    (Assembly.declareScope file (assembly, ids) scope).1.Records
      (scopes ++ [⟨file, scope.parent.bind fun index => ids[index]?, scope.path,
        scope.usings⟩]) declared repeated := by
  obtain ⟨hproper, hextends, hmade, _⟩ :=
    NamespaceTree.makePath_spec h.proper h.proper.root scope.path
  have hpaths := (NamespaceTree.makePath_congr h.paths_eq NamespaceTree.root scope.path).1
  rw [← NamespaceTree.ofPaths_concat] at hpaths
  unfold Assembly.declareScope
  dsimp only
  generalize assembly.registry.namespaces.makePath NamespaceTree.root scope.path = made at *
  refine ⟨by simpa using hpaths, h.names.of_extends hproper hextends _, ?_, h.registered,
    h.types_eq, h.extensions_eq, h.report_eq, h.invalid_eq⟩
  -- The scopes before keep their namespaces, and the new one gets the namespace just made.
  have hkept : scopes.map (·.scope assembly.registry.namespaces) =
      scopes.map (·.scope made.1) := by
    refine List.map_congr_left fun placed hplaced => ?_
    simp only [PlacedScope.scope, hextends.idOf?_eq h.proper hproper (h.path_mem hplaced)]
  have hnew := (NamespaceTree.idOf?_eq_some_iff hproper.nodup).2 hmade
  rw [List.nil_append] at hnew
  simp only [ScopeTable.add, h.scopes_eq, hkept, List.map_append, List.map_singleton]
  rw [PlacedScope.scope, hnew]
  rfl

/-- `Records` after a declaration that is passed over: it is noted, and nothing else happens. -/
theorem note (h : assembly.Records scopes declared repeated) (next : Declared) :
    (assembly.note (.declaration (.duplicate next.name next.bare.span))).Records scopes declared
      (repeated ++ [next]) := by
  refine ⟨h.paths_eq, h.names, h.scopes_eq, h.registered, h.types_eq, h.extensions_eq, ?_,
    h.invalid_eq⟩
  rw [Assembly.note, Report.push, h.report_eq, List.map_append]
  rfl

theorem scopes_congr (h : assembly.Records scopes declared repeated) {tree : NamespaceTree}
    (hpaths : tree.paths = assembly.registry.namespaces.paths) :
    assembly.registry.scopes.scopes = scopes.map (·.scope tree) := by
  rw [h.scopes_eq]
  refine List.map_congr_left fun placed _ => ?_
  rw [PlacedScope.scope, PlacedScope.scope, NamespaceTree.idOf?_congr hpaths]

theorem declareType (h : assembly.Records scopes declared repeated) {first : Nat}
    {ids : List ScopeId} {type : OutlineType}
    (hscope : ids[type.scope]? = some ⟨first + type.scope⟩)
    (hpath : (scopes[first + type.scope]?).map (·.path) = some type.name.path) :
    (Assembly.declareType ids assembly type).Records scopes
      (enlist declared (type.declared first))
      (repeated ++ passOver declared (type.declared first)) := by
  have hin := h.path_mem_of_getElem? hpath
  unfold enlist passOver
  split
  next htaken =>
    -- The name is taken, so all that happens is that the declaration is noted.
    have hdone := Registry.registerType_taken h.proper h.names htaken
    simp only [Declared.bare, OutlineType.declared] at hdone
    simp only [Assembly.declareType, hscope, hdone]
    exact h.note (type.declared first)
  next hfree =>
    -- The scopes have made the namespace already, so registering the type adds no path.
    obtain ⟨tree, hpaths, hdone, hnames⟩ := Registry.registerType_free h.proper h.names hin hfree
    simp only [Declared.bare, OutlineType.declared] at hdone
    simp only [Assembly.declareType, hscope, hdone, List.append_nil]
    refine ⟨hpaths.trans h.paths_eq, ?_, h.scopes_congr hpaths, ?_, ?_, ?_, h.report_eq,
      h.invalid_eq⟩
    · rw [registeredTypes_concat]
      exact hnames
    · simp [h.registered, Declared.extension?, OutlineType.declared]
    · simp [h.types_eq, Declared.pendingType?, OutlineType.declared, NamedType.hash, NamedType.bare]
    · simp [h.extensions_eq, Declared.pendingExtension?, OutlineType.declared]

theorem declareExtension (h : assembly.Records scopes declared repeated) {first : Nat}
    {ids : List ScopeId} {extension : OutlineExtension}
    (hfound : ids[extension.scope]? = some ⟨first + extension.scope⟩)
    (hpath : (scopes[first + extension.scope]?).map (·.path) = some extension.name.path) :
    (Assembly.declareExtension ids assembly extension).Records scopes
      (enlist declared (extension.declared first))
      (repeated ++ passOver declared (extension.declared first)) := by
  have hin := h.path_mem_of_getElem? hpath
  obtain ⟨placed, hplaced, hpath⟩ := Option.map_eq_some_iff.1 hpath
  unfold enlist passOver
  split
  next htaken =>
    have hdone := Registry.registerType_taken h.proper h.names htaken
    simp only [Declared.bare, OutlineExtension.declared] at hdone
    simp only [Assembly.declareExtension, hfound, Registry.registerExtension, Extension.ownType,
      Extension.declared, hdone]
    exact h.note (extension.declared first)
  next hfree =>
    obtain ⟨tree, hpaths, hdone, hnames⟩ := Registry.registerType_free h.proper h.names hin hfree
    simp only [Declared.bare, OutlineExtension.declared] at hdone
    -- The scope of the declaration was opened before, so the extension finds its namespace.
    obtain ⟨id, hid⟩ := NamespaceTree.mem_paths_iff.1 hin
    have hscope : assembly.registry.scopes.get? ⟨first + extension.scope⟩ =
        some (placed.scope assembly.registry.namespaces) := by
      rw [ScopeTable.get?, h.scopes_eq, List.getElem?_map, hplaced]
      rfl
    have hnamespace : (placed.scope assembly.registry.namespaces).namespaceId = id := by
      rw [PlacedScope.scope, hpath, (NamespaceTree.idOf?_eq_some_iff h.proper.nodup).2 hid]
      rfl
    rw [← NamespaceTree.path?_congr hpaths] at hid
    obtain ⟨later, hadded, hlater, hkept⟩ := NamespaceTree.declareExtension_spec hid extension.id
    simp only [Assembly.declareExtension, hfound, Registry.registerExtension, Extension.ownType,
      Extension.declared, hdone, Registry.namespaceOf?, hscope, Option.map_some, hnamespace,
      hadded, List.append_nil]
    refine ⟨(hlater.trans hpaths).trans h.paths_eq, ?_, h.scopes_congr (hlater.trans hpaths),
      ?_, ?_, ?_, h.report_eq, h.invalid_eq⟩
    · rw [registeredTypes_concat]
      exact hnames.of_tree hlater hkept _
    · simp [h.registered, Declared.extension?, OutlineExtension.declared, Extension.declared]
    · simp [h.types_eq, Declared.pendingType?, OutlineExtension.declared]
    · simp [h.extensions_eq, Declared.pendingExtension?, OutlineExtension.declared]

/-- `declareScope` over the scopes of a file whose first `count` scopes are declared already: each
further one finds its parent among those before it. -/
theorem foldl_declareScope (h : assembly.Records scopes declared repeated) (file : FileId)
    {first count : Nat} (hcount : scopes.length = first + count) {opened : List OutlineScope}
    (hparents : ∀ (index : Nat) (scope : OutlineScope) (parent : Nat),
      opened[index]? = some scope → scope.parent = some parent → parent < count + index) :
    ∃ later, opened.foldl (Assembly.declareScope file) (assembly, scopeIdsFrom first count) =
        (later, scopeIdsFrom first (count + opened.length)) ∧
      later.Records (scopes ++ opened.map fun scope => ⟨file, scope.parent.map fun index =>
        ⟨first + index⟩, scope.path, scope.usings⟩) declared repeated := by
  induction opened generalizing assembly scopes count with
  | nil => exact ⟨assembly, rfl, by simpa using h⟩
  | cons scope rest ih =>
    have hparent : (scope.parent.bind fun index => (scopeIdsFrom first count)[index]?) =
        scope.parent.map fun index => ⟨first + index⟩ := by
      cases hparent : scope.parent with
      | none => rfl
      | some parent => exact getElem?_scopeIdsFrom first (hparents 0 scope parent rfl hparent)
    have hscope := h.declareScope file (scopeIdsFrom first count) scope
    rw [hparent] at hscope
    -- The new scope takes the place after those before it, in the table and in the file.
    have hids : (Assembly.declareScope file (assembly, scopeIdsFrom first count) scope).2 =
        scopeIdsFrom first (count + 1) := by
      rw [scopeIdsFrom_succ, ← hcount, ← h.size_eq]
      rfl
    have hlength : ∀ placed : PlacedScope, (scopes ++ [placed]).length = first + (count + 1) := by
      simp [hcount, Nat.add_assoc]
    obtain ⟨later, hlater, hrecords⟩ := ih hscope (hlength _) fun index other parent hget hparent =>
      Nat.succ_add_eq_add_succ count index ▸
        hparents (index + 1) other parent (by simpa using hget) hparent
    refine ⟨later, ?_, by simpa using hrecords⟩
    rw [List.foldl_cons, List.length_cons, Nat.add_comm rest.length 1, ← Nat.add_assoc, ← hlater,
      ← hids]

theorem foldl_declareType (h : assembly.Records scopes declared repeated) {first : Nat}
    {ids : List ScopeId} {types : List OutlineType}
    (hfound : ∀ type ∈ types, ids[type.scope]? = some ⟨first + type.scope⟩)
    (hwithin : ∀ type ∈ types,
      (scopes[first + type.scope]?).map (·.path) = some type.name.path) :
    (types.foldl (Assembly.declareType ids) assembly).Records scopes
      ((types.map (·.declared first)).foldl enlist declared)
      (repeated ++ repeatedFrom declared (types.map (·.declared first))) := by
  induction types generalizing assembly declared repeated with
  | nil => simpa [repeatedFrom] using h
  | cons type rest ih =>
    obtain ⟨htype, hrest⟩ := List.forall_mem_cons.1 hwithin
    obtain ⟨hscope, hscopes⟩ := List.forall_mem_cons.1 hfound
    rw [List.map_cons, repeatedFrom, ← List.append_assoc]
    exact ih (h.declareType hscope htype) hscopes hrest

theorem foldl_declareExtension (h : assembly.Records scopes declared repeated) {first : Nat}
    {ids : List ScopeId} {extensions : List OutlineExtension}
    (hfound : ∀ extension ∈ extensions,
      ids[extension.scope]? = some ⟨first + extension.scope⟩)
    (hwithin : ∀ extension ∈ extensions,
      (scopes[first + extension.scope]?).map (·.path) = some extension.name.path) :
    (extensions.foldl (Assembly.declareExtension ids) assembly).Records scopes
      ((extensions.map (·.declared first)).foldl enlist declared)
      (repeated ++ repeatedFrom declared (extensions.map (·.declared first))) := by
  induction extensions generalizing assembly declared repeated with
  | nil => simpa [repeatedFrom] using h
  | cons extension rest ih =>
    obtain ⟨hextension, hrest⟩ := List.forall_mem_cons.1 hwithin
    obtain ⟨hscope, hscopes⟩ := List.forall_mem_cons.1 hfound
    rw [List.map_cons, repeatedFrom, ← List.append_assoc]
    exact ih (h.declareExtension hscope hextension) hscopes hrest

/-- `Assembly.declareOutline` records what the outline says. -/
theorem declareOutline (h : assembly.Records scopes declared repeated) {outline : Outline}
    (hsound : outline.Sound) :
    (assembly.declareOutline outline).Records (scopes ++ outline.placedScopes scopes.length)
      ((outline.declared scopes.length).foldl enlist declared)
      (repeated ++ repeatedFrom declared (outline.declared scopes.length)) := by
  obtain ⟨later, hfold, hscopes⟩ := h.foldl_declareScope outline.file (Nat.add_zero _).symm
    fun _ _ _ hget hparent => (hsound.parent_lt hget hparent).trans_eq (Nat.zero_add _).symm
  rw [Nat.zero_add] at hfold
  -- The scopes of the outline are the last ones, so its positions count from where they start.
  have hlater : ∀ index : Nat, ((scopes ++ outline.placedScopes scopes.length)[
      scopes.length + index]?).map (·.path) = (outline.scopes[index]?).map (·.path) := by
    intro index
    rw [List.getElem?_append_right (Nat.le_add_right _ _), Nat.add_sub_cancel_left,
      Outline.placedScopes, List.getElem?_map, Option.map_map]
    rfl
  -- Every declaration stands in a scope of its outline, so that none is skipped.
  have hfound : ∀ {position : Nat} {path : NamespacePath},
      (outline.scopes[position]?).map (·.path) = some path →
        (scopeIdsFrom scopes.length outline.scopes.length)[position]? =
          some ⟨scopes.length + position⟩ := by
    intro position path hpath
    obtain ⟨_, hscope, _⟩ := Option.map_eq_some_iff.1 hpath
    exact getElem?_scopeIdsFrom _ (List.getElem?_eq_some_iff.1 hscope).1
  have htypes := hscopes.foldl_declareType
    (fun type htype => hfound (hsound.types_within type htype))
    fun type htype => (hlater type.scope).trans (hsound.types_within type htype)
  have hextensions := htypes.foldl_declareExtension
    (fun extension hextension => hfound (hsound.extensions_within extension hextension))
    fun extension hextension =>
      (hlater extension.scope).trans (hsound.extensions_within extension hextension)
  rw [Assembly.declareOutline, Outline.declared, List.foldl_append, repeatedFrom_append,
    ← List.append_assoc]
  rw [show ([] : List ScopeId) = scopeIdsFrom scopes.length 0 from rfl, hfold]
  exact hextensions

theorem foldl_declareOutline (h : assembly.Records scopes declared repeated)
    {outlines : List Outline} (hsound : ∀ outline ∈ outlines, outline.Sound) :
    (outlines.foldl Assembly.declareOutline assembly).Records
      (scopes ++ scopesFrom scopes.length outlines)
      ((declaredFrom scopes.length outlines).foldl enlist declared)
      (repeated ++ repeatedFrom declared (declaredFrom scopes.length outlines)) := by
  induction outlines generalizing assembly scopes declared repeated with
  | nil => simpa [scopesFrom, declaredFrom, repeatedFrom] using h
  | cons outline rest ih =>
    obtain ⟨houtline, hrest⟩ := List.forall_mem_cons.1 hsound
    have hlater := ih (h.declareOutline houtline) hrest
    rw [scopesFrom, declaredFrom, List.foldl_append, repeatedFrom_append, ← List.append_assoc,
      ← List.append_assoc]
    simpa [Outline.placedScopes] using hlater

end Records

theorem records_start : start.Records [] [] [] := by
  have hregistry : start.registry = .withBuiltIns := by rw [start]
  obtain ⟨hnames, hpaths⟩ := Registry.names_withBuiltIns
  constructor
  case paths_eq =>
    rw [hregistry, hpaths]
    rfl
  case names =>
    rw [hregistry, registeredTypes, List.map_nil, List.append_nil]
    exact hnames
  case scopes_eq =>
    rw [hregistry, List.map_nil]
    decide +kernel
  case registered =>
    rw [hregistry, List.filterMap_nil]
    decide +kernel
  case types_eq => rw [start, List.filterMap_nil]
  case extensions_eq => rw [start, List.filterMap_nil]
  case report_eq => rfl
  case invalid_eq => rfl

/-- `declareFiles` records what the outlines of the files say. -/
theorem records_declareFiles (files : List SourceFile) :
    (declareFiles files).Records (scopesOf files) (declaredOf files) (repeatedOf files) := by
  have hsound : ∀ outline ∈ outlinesOf files, outline.Sound := fun _ => sound_of_mem_outlinesOf
  have hrecords := records_start.foldl_declareOutline hsound
  rw [List.nil_append, List.nil_append] at hrecords
  exact hrecords

end Assembly

end ExtensionMembers
