import ExtensionMembers.Proofs.Build.Agreement
import ExtensionMembers.Proofs.Build.Positions

/-!
# Files with other numbers

The number of a file is part of the identities of its extensions, and files are declared in the
order of their numbers. So the same trees with other numbers have their scopes, namespaces and
extensions in other places of the registry. If no two declarations have the same hash, this decides
nothing: everything is declared once, and what is seen from a scope depends on its place in its tree
alone.

## Main definitions

* `Renumbered`: the same trees with other numbers.
* `Registry.SamePlace`, `Registry.SameExtension`: scopes with the same position in the same tree,
  and extensions declared there.

## Main results

* `Registry.Renumbering.type?_eq`, `Registry.Renumbering.rearranged_extensions`: what is registered.
* `Registry.resolve_renumbered`: what uses resolve to.
-/

namespace ExtensionMembers

/-- The same trees with other numbers: two lists of files made of the same `items`, where the files
of one list have other numbers in the other one, and no two declarations (`declaredNames`) have the
same hash. -/
structure Renumbered (renumber : FileId → FileId) (files others : List SourceFile) : Prop where
  ids : (files.map (·.id)).Nodup
  other_ids : (others.map (·.id)).Nodup
  same : (others.map fun file => (file.id, file.items)).Perm
    (files.map fun file => (renumber file.id, file.items))
  hashes : (BuiltIn.types.map (·.hash) ++
    files.flatMap fun file => (Outline.ofFile file).names.map (·.hash)).Nodup

/-- The outline of the file with its other number, `renumber` of its number. -/
def Outline.renumbered (renumber : FileId → FileId) (outline : Outline) : Outline :=
  outline.withFile (renumber outline.file)

/-- Two scopes with the same position in the same tree (`ScopeTable.place?`), whose file has another
number. -/
def Registry.SamePlace (renumber : FileId → FileId) (registry other : Registry)
    (id id' : ScopeId) : Prop :=
  ∃ file position, registry.scopes.place? id = some (file, position) ∧
    other.scopes.place? id' = some (renumber file, position)

/-- The identities of an extension whose file has another number, by `renumber`. -/
def SameIndex (renumber : FileId → FileId) (id id' : ExtensionId) : Prop :=
  id' = ⟨renumber id.file, id.index⟩

/-- The same extension in the same place of the same tree, whose file has another number: an
`Extension.Counterpart`. -/
abbrev Registry.SameExtension (renumber : FileId → FileId) (registry other : Registry) :
    Extension → Extension → Prop :=
  Extension.Counterpart (Registry.SamePlace renumber registry other) (SameIndex renumber)

/-! ## What the outlines say -/

namespace Renumbered

variable {renumber : FileId → FileId} {files others : List SourceFile}
  (h : Renumbered renumber files others)

include h

theorem outlines_perm :
    (outlinesOf others).Perm ((outlinesOf files).map (·.renumbered renumber)) := by
  have hfiles := h.same.map fun file : FileId × List Item => Outline.ofFile ⟨file.1, "", file.2⟩
  rw [List.map_map, List.map_map] at hfiles
  have hsorted := (stableSort_perm (fun outline : Outline => [outline.file.index])
    (files.map Outline.ofFile)).map (·.renumbered renumber)
  refine (stableSort_perm _ _).trans (hfiles.trans (List.Perm.trans ?_ hsorted.symm))
  rw [List.map_map]
  refine List.Perm.of_eq (List.map_congr_left fun file _ => ?_)
  simp only [Function.comp_apply, Outline.renumbered, Outline.file_ofFile]
  exact Outline.ofFile_withFile file (renumber file.id)

theorem renumbered_mem {outline : Outline} (houtline : outline ∈ outlinesOf files) :
    outline.renumbered renumber ∈ outlinesOf others :=
  h.outlines_perm.mem_iff.2 (List.mem_map_of_mem houtline)

theorem map_path_perm :
    ((scopesOf files).map (·.path)).Perm ((scopesOf others).map (·.path)) := by
  have hperm := h.outlines_perm.flatMap_right fun outline => outline.scopes.map (·.path)
  rw [List.flatMap_map] at hperm
  rw [scopesOf, scopesOf, map_path_scopesFrom, map_path_scopesFrom]
  exact hperm.symm

/-- Under `Renumbered`, files with the same other number are the same. -/
theorem renumber_inj {file another : FileId} (hfile : file ∈ files.map (·.id))
    (hanother : another ∈ files.map (·.id)) (heq : renumber file = renumber another) :
    file = another := by
  have hids := (h.same.map Prod.fst).nodup_iff.1 (by simpa [Function.comp_def] using h.other_ids)
  rw [List.map_map] at hids
  obtain ⟨source, hsource, rfl⟩ := List.mem_map.1 hfile
  obtain ⟨source', hsource', rfl⟩ := List.mem_map.1 hanother
  exact congrArg SourceFile.id (List.inj_on_of_nodup_map hids hsource hsource' heq)

/-- Under `Renumbered`, the hashes of all types, the built-in ones included, are distinct in either
list. -/
theorem nodup_hashes : (BuiltIn.types.map (·.hash) ++
      ((outlinesOf files).flatMap (·.names)).map (·.hash)).Nodup ∧
    (BuiltIn.types.map (·.hash) ++
      ((outlinesOf others).flatMap (·.names)).map (·.hash)).Nodup := by
  -- Sorting the files and giving them other numbers leaves the names that they declare.
  have hnames : ((outlinesOf files).flatMap (·.names)).Perm
      ((files.map Outline.ofFile).flatMap (·.names)) :=
    (stableSort_perm _ _).flatMap_right _
  have hothers := h.outlines_perm.flatMap_right (·.names)
  have hsame : ∀ outline : Outline, (outline.renumbered renumber).names = outline.names := by
    intro outline
    simp [Outline.renumbered, Outline.withFile, Outline.names, Function.comp_def]
  simp only [List.flatMap_map, hsame] at hothers
  have hhashes := h.hashes
  rw [← List.map_flatMap, ← List.flatMap_map] at hhashes
  have hfirst := ((hnames.map (·.hash)).append_left _).nodup_iff.2 hhashes
  exact ⟨hfirst, ((hothers.map (·.hash)).append_left _).nodup_iff.2 hfirst⟩

end Renumbered

theorem map_hash_registeredTypes (first : Nat) (outlines : List Outline) :
    (registeredTypes (declaredFrom first outlines)).map (·.hash) =
      BuiltIn.types.map (·.hash) ++ (outlines.flatMap (·.names)).map (·.hash) := by
  rw [registeredTypes, List.map_append, ← map_name_declaredFrom first, List.map_map, List.map_map]
  rfl

/-- If no two declarations have the same hash, `declaredOf` has all of them. -/
theorem declaredOf_eq_of_nodup {files : List SourceFile} (hhashes :
      ((registeredTypes (declaredFrom 0 (outlinesOf files))).map (·.hash)).Nodup) :
    declaredOf files = declaredFrom 0 (outlinesOf files) := by
  refine foldl_enlist_eq_append (List.Nodup.of_map (·.hash) ?_)
  rw [List.map_map]
  exact hhashes

namespace Registry

/-- Files with other numbers (`Renumbered`) and the finished registries of both. -/
structure Renumbering (renumber : FileId → FileId) (files others : List SourceFile)
    (registry other : Registry) : Prop extends Renumbered renumber files others where
  holds : registry.Holds (scopesOf files) (declaredFrom 0 (outlinesOf files))
  other_holds : other.Holds (scopesOf others) (declaredFrom 0 (outlinesOf others))

theorem Renumbering.of_renumbered {renumber : FileId → FileId} {files others : List SourceFile}
    (h : Renumbered renumber files others) (options options' : Options) :
    Renumbering renumber files others (assemble files options).registry
      (assemble others options').registry := by
  obtain ⟨hhashes, hhashes'⟩ := h.nodup_hashes
  rw [← map_hash_registeredTypes 0] at hhashes hhashes'
  refine { h with holds := ?_, other_holds := ?_ }
  · rw [← declaredOf_eq_of_nodup hhashes]
    exact Registry.holds_assemble h.ids options
  · rw [← declaredOf_eq_of_nodup hhashes']
    exact Registry.holds_assemble h.other_ids options'

namespace Renumbering

variable {renumber : FileId → FileId} {files others : List SourceFile}
  {registry other : Registry} (h : Renumbering renumber files others registry other)

include h

/-! ## Places -/

theorem samePaths : registry.namespaces.SamePaths other.namespaces := by
  refine ⟨h.holds.proper, h.other_holds.proper, fun path => ?_⟩
  rw [h.holds.paths_eq, h.other_holds.paths_eq, (NamespaceTree.ofPaths_spec _).2,
    (NamespaceTree.ofPaths_spec _).2]
  simp only [h.map_path_perm.mem_iff]

theorem place?_start {outline : Outline} (houtline : outline ∈ outlinesOf files) {position : Nat}
    (hlt : position < outline.scopes.length) :
    registry.scopes.place? ⟨outline.start (outlinesOf files) + position⟩ =
        some (outline.file, position) ∧
      other.scopes.place? ⟨(outline.renumbered renumber).start (outlinesOf others) + position⟩ =
        some (renumber outline.file, position) := by
  have hfiles := nodup_file_outlinesOf h.ids
  have hfiles' := nodup_file_outlinesOf h.other_ids
  exact ⟨h.holds.place?_of_startsAt hfiles (Outline.startsAt_start hfiles houtline) hlt,
    h.other_holds.place?_of_startsAt hfiles'
      (Outline.startsAt_start hfiles' (h.renumbered_mem houtline)) hlt⟩

theorem samePlace_start {outline : Outline} (houtline : outline ∈ outlinesOf files)
    {position : Nat} (hlt : position < outline.scopes.length) :
    SamePlace renumber registry other ⟨outline.start (outlinesOf files) + position⟩
      ⟨(outline.renumbered renumber).start (outlinesOf others) + position⟩ := by
  obtain ⟨hplace, hplace'⟩ := h.place?_start houtline hlt
  exact ⟨outline.file, position, hplace, hplace'⟩

theorem exists_outline {id : ScopeId} {file : FileId} {position : Nat}
    (hplace : registry.scopes.place? id = some (file, position)) :
    ∃ outline ∈ outlinesOf files, outline.file = file ∧ position < outline.scopes.length ∧
      id = ⟨outline.start (outlinesOf files) + position⟩ := by
  have hfiles := nodup_file_outlinesOf h.ids
  obtain ⟨outline, first, hstarts, hfile, hlt, hid⟩ :=
    h.holds.exists_startsAt_of_place? hfiles hplace
  exact ⟨outline, hstarts.mem, hfile, hlt, hstarts.eq_start hfiles ▸ hid⟩

/-- Every scope has a counterpart by `SamePlace`. -/
theorem exists_samePlace {id : ScopeId} (hid : (registry.scopes.get? id).isSome) :
    ∃ id', SamePlace renumber registry other id id' := by
  rw [← ScopeTable.isSome_place?] at hid
  obtain ⟨place, hplace⟩ := Option.isSome_iff_exists.1 hid
  obtain ⟨outline, houtline, _, hlt, rfl⟩ := h.exists_outline hplace
  exact ⟨_, h.samePlace_start houtline hlt⟩

/-- Every scope is a counterpart by `SamePlace`. -/
theorem exists_samePlace_other {id' : ScopeId} (hid : (other.scopes.get? id').isSome) :
    ∃ id, SamePlace renumber registry other id id' := by
  rw [← ScopeTable.isSome_place?] at hid
  obtain ⟨place, hplace⟩ := Option.isSome_iff_exists.1 hid
  have hfiles' := nodup_file_outlinesOf h.other_ids
  obtain ⟨outline', first, hstarts, _, hlt, rfl⟩ :=
    h.other_holds.exists_startsAt_of_place? hfiles' hplace
  obtain ⟨outline, houtline, rfl⟩ := List.mem_map.1 (h.outlines_perm.mem_iff.1 hstarts.mem)
  obtain rfl := hstarts.eq_start hfiles'
  exact ⟨_, h.samePlace_start houtline hlt⟩

theorem samePlace_unique {id id' another another' : ScopeId}
    (hid : SamePlace renumber registry other id id')
    (hanother : SamePlace renumber registry other another another') :
    id = another ↔ id' = another' := by
  obtain ⟨file, position, hplace, hplace'⟩ := hid
  obtain ⟨file₂, position₂, hplace₂, hplace₂'⟩ := hanother
  -- A place names a file of the program, and no two of these get the same number.
  have hmem : ∀ {id file position}, registry.scopes.place? id = some (file, position) →
      file ∈ files.map (·.id) := by
    intro id file position hplace
    obtain ⟨outline, houtline, rfl, _⟩ := h.exists_outline hplace
    obtain ⟨source, hsource, rfl⟩ := mem_outlinesOf_iff.1 houtline
    rw [Outline.file_ofFile]
    exact List.mem_map_of_mem hsource
  constructor
  · rintro rfl
    obtain ⟨rfl, rfl⟩ := Prod.mk.inj (Option.some.inj (hplace.symm.trans hplace₂))
    exact ScopeTable.place?_inj hplace' hplace₂'
  · rintro rfl
    obtain ⟨heq, rfl⟩ := Prod.mk.inj (Option.some.inj (hplace'.symm.trans hplace₂'))
    obtain rfl := h.renumber_inj (hmem hplace) (hmem hplace₂) heq
    exact ScopeTable.place?_inj hplace hplace₂

/-- Scopes of the `SamePlace` open namespaces of the same path, import the same ones, and lie in
scopes of the same place. -/
theorem linked : ScopeTable.Linked registry.namespaces other.namespaces registry.scopes
    other.scopes (SamePlace renumber registry other) := by
  refine ⟨fun _ _ _ _ hid hanother => h.samePlace_unique hid hanother, ?_⟩
  rintro id id' ⟨file, position, hplace, hplace'⟩
  obtain ⟨outline, houtline, rfl, hlt, rfl⟩ := h.exists_outline hplace
  obtain rfl := ScopeTable.place?_inj hplace' (h.place?_start houtline hlt).2
  have hstarts := Outline.startsAt_start (nodup_file_outlinesOf h.ids) houtline
  have hstarts' := Outline.startsAt_start (nodup_file_outlinesOf h.other_ids)
    (h.renumbered_mem houtline)
  -- Only the number of the file and the place of the scope around it are other ones.
  have hscope := List.getElem?_eq_getElem hlt
  have hget := h.holds.get?_scopes ⟨outline.start (outlinesOf files) + position⟩
  have hget' := h.other_holds.get?_scopes
    ⟨(outline.renumbered renumber).start (outlinesOf others) + position⟩
  rw [scopesOf, getElem?_scopesFrom hstarts (Outline.getElem?_placedScopes _ hscope)] at hget
  rw [scopesOf, getElem?_scopesFrom hstarts' (@Outline.getElem?_placedScopes
    (outline.renumbered renumber) _ _ _ hscope)] at hget'
  have hnamespace := h.samePaths.matches_idOf? outline.scopes[position].path
  refine ⟨_, _, hget, hget', hnamespace,
    Scope.forall₂_resolveImports h.samePaths hnamespace rfl, ?_⟩
  show Option.Rel _ (outline.scopes[position].parent.map _) (outline.scopes[position].parent.map _)
  cases hparent : outline.scopes[position].parent with
  | none => exact .none
  | some parent =>
    have hbefore := (sound_of_mem_outlinesOf houtline).parent_lt hscope hparent
    exact .some (h.samePlace_start houtline (hbefore.trans hlt))

/-! ## Declarations -/

theorem forall₂_declared {outline : Outline} (houtline : outline ∈ outlinesOf files) :
    List.Forall₂
      (Declared.Counterpart (SamePlace renumber registry other) (SameIndex renumber))
      (outline.declared (outline.start (outlinesOf files)))
      ((outline.renumbered renumber).declared
        ((outline.renumbered renumber).start (outlinesOf others))) := by
  have hsound := sound_of_mem_outlinesOf houtline
  have hplace : ∀ {position : Nat} {path : NamespacePath},
      (outline.scopes[position]?).map (·.path) = some path →
      SamePlace renumber registry other ⟨outline.start (outlinesOf files) + position⟩
        ⟨(outline.renumbered renumber).start (outlinesOf others) + position⟩ := by
    intro position path hpath
    obtain ⟨scope, hscope, _⟩ := Option.map_eq_some_iff.1 hpath
    exact h.samePlace_start houtline (List.getElem?_eq_some_iff.1 hscope).1
  refine List.rel_append ?_ ?_
  · rw [List.forall₂_map_left_iff, List.forall₂_map_right_iff]
    refine List.forall₂_same.2 fun type htype => ?_
    exact .type type.name type.declaration (hplace (hsound.types_within type htype))
  · have hmap : (outline.renumbered renumber).extensions = outline.extensions.map
      fun extension => { extension with id := ⟨renumber outline.file, extension.id.index⟩ } := rfl
    rw [hmap, List.forall₂_map_left_iff, List.forall₂_map_right_iff, List.forall₂_map_right_iff]
    refine List.forall₂_same.2 fun extension hextension => ?_
    refine .extension extension.name extension.declaration ?_
      (hplace (hsound.extensions_within extension hextension))
    -- The number of the file is part of the identities of its extensions.
    have hid : extension.id ∈ outline.extensions.map (·.id) := List.mem_map_of_mem hextension
    rw [hsound.ids] at hid
    obtain ⟨index, _, hindex⟩ := List.mem_map.1 hid
    rw [SameIndex, ← hindex]

/-- The same is declared in both lists (`Declared.Counterpart`), in another order. -/
theorem rearranged_declared : Rearranged
    (Declared.Counterpart (SamePlace renumber registry other) (SameIndex renumber))
    (declaredFrom 0 (outlinesOf files)) (declaredFrom 0 (outlinesOf others)) := by
  have hperm := h.outlines_perm.flatMap_right fun outline =>
    outline.declared (outline.start (outlinesOf others))
  rw [declaredFrom_eq_flatMap (nodup_file_outlinesOf h.ids),
    declaredFrom_eq_flatMap (nodup_file_outlinesOf h.other_ids)]
  refine ⟨_, ?_, hperm.symm⟩
  rw [List.flatMap_map]
  -- File by file the same is declared, and the files come in another order.
  have hsame : List.Forall₂ (fun outline outline' => outline = outline' ∧
      outline ∈ outlinesOf files) (outlinesOf files) (outlinesOf files) :=
    List.forall₂_same.2 fun outline houtline => ⟨rfl, houtline⟩
  refine List.rel_flatMap hsame ?_
  rintro outline _ ⟨rfl, houtline⟩
  exact h.forall₂_declared houtline

theorem rearranged_registeredTypes :
    Rearranged (· = ·) (registeredTypes (declaredFrom 0 (outlinesOf files)))
      (registeredTypes (declaredFrom 0 (outlinesOf others))) :=
  ⟨_, List.forall₂_same.2 fun _ _ => rfl,
    (h.rearranged_declared.map_perm fun _ _ hnext => hnext.bare_eq).append_left _⟩

theorem other_nodup_hash :
    ((registeredTypes (declaredFrom 0 (outlinesOf others))).map (·.hash)).Nodup := by
  rw [map_hash_registeredTypes]
  exact h.nodup_hashes.2

/-- Under `Renumbering`, no two declarations have the same hash. -/
theorem declared_inj {next another : Declared} (hnext : next ∈ declaredFrom 0 (outlinesOf others))
    (hanother : another ∈ declaredFrom 0 (outlinesOf others))
    (heq : next.bare.hash = another.bare.hash) : next = another := by
  have hhashes := h.other_nodup_hash
  rw [registeredTypes, List.map_append, List.map_map] at hhashes
  exact List.inj_on_of_nodup_map (List.nodup_append.1 hhashes).2.1 hnext hanother heq

/-! ## Types -/

theorem find?_registeredTypes_eq (hash : TypeHash) :
    (registeredTypes (declaredFrom 0 (outlinesOf files))).reverse.find? (·.hash = hash) =
      (registeredTypes (declaredFrom 0 (outlinesOf others))).reverse.find? (·.hash = hash) := by
  refine option_rel_eq_iff.1
    (h.rearranged_registeredTypes.reverse.find? (fun _ _ heq => by rw [heq]) ?_)
  intro type htype type' htype' heq heq'
  exact List.inj_on_of_nodup_map h.other_nodup_hash (List.mem_reverse.1 htype)
    (List.mem_reverse.1 htype') ((of_decide_eq_true heq).trans (of_decide_eq_true heq').symm)

theorem agrees :
    registry.Agrees other (fun _ => True) (SamePlace renumber registry other) where
  trees :=
    { h.samePaths with
      typeIn?_eq := by
        rintro id id' ⟨path, hpath, hpath'⟩ name _
        rw [h.holds.typeIn?_eq hpath, h.other_holds.typeIn?_eq hpath']
        have hnames := h.rearranged_registeredTypes.map_perm (f := (·.name)) (g := (·.name))
          fun _ _ heq => by rw [heq]
        exact if_congr hnames.mem_iff rfl rfl }
  scopes := h.linked
  registered := h.holds.containsType_of_typeIn?
  heading?_eq := by
    intro hash _
    rw [h.holds.heading?_eq, h.other_holds.heading?_eq, h.find?_registeredTypes_eq]

/-- Under `Renumbering`, all types are the same, with their bases and members. -/
theorem type?_eq (hash : TypeHash) : registry.type? hash = other.type? hash := by
  rw [h.holds.type?_eq, h.other_holds.type?_eq, h.find?_registeredTypes_eq]
  refine Option.map_congr fun type _ => h.agrees.signed_eq ?_
  -- The last declaration with a hash is the only one, wherever it stands.
  have hpending : Rearranged (fun last last' : PendingType => last.hash = last'.hash ∧
        SamePlace renumber registry other last.scope last'.scope ∧
          last.declaration = last'.declaration)
      ((declaredFrom 0 (outlinesOf files)).filterMap (·.pendingType?))
      ((declaredFrom 0 (outlinesOf others)).filterMap (·.pendingType?)) := by
    refine h.rearranged_declared.filterMap fun next next' hnext => ?_
    cases hnext with
    | type name declaration hscope => exact .some ⟨rfl, hscope, rfl⟩
    | extension => exact .none
  refine rel_imp (fun last last' hlast => ⟨hlast.2.1, hlast.2.2, fun _ _ => trivial⟩)
    (hpending.reverse.find? (fun last last' hlast => by rw [hlast.1]) ?_)
  intro last hlast last' hlast' heq heq'
  obtain ⟨next, hnext, hfirst⟩ := List.mem_filterMap.1 (List.mem_reverse.1 hlast)
  obtain ⟨next', hnext', hsecond⟩ := List.mem_filterMap.1 (List.mem_reverse.1 hlast')
  have hhash : last.hash = last'.hash :=
    (of_decide_eq_true heq).trans (of_decide_eq_true heq').symm
  rw [Declared.hash_of_pendingType? hfirst, Declared.hash_of_pendingType? hsecond] at hhash
  obtain rfl := h.declared_inj hnext hnext' hhash
  exact Option.some.inj (hfirst.symm.trans hsecond)

/-! ## Extensions -/

/-- Under `Renumbering`, all extensions are the same (`SameExtension`), each in its place and judged
alike. -/
theorem rearranged_extensions :
    Rearranged (SameExtension renumber registry other) registry.extensions other.extensions := by
  rw [h.holds.extensions_eq, h.other_holds.extensions_eq]
  exact h.rearranged_declared.filterMap fun _ _ hnext =>
    h.agrees.counterpart_finished? hnext fun _ _ => trivial

/-- Under `Renumbering`, no two extensions have the same hash. -/
theorem extension_inj {extension another : Extension} (hextension : extension ∈ other.extensions)
    (hanother : another ∈ other.extensions) (heq : extension.hash = another.hash) :
    extension = another := by
  rw [h.other_holds.extensions_eq] at hextension hanother
  obtain ⟨next, hnext, hfirst⟩ := List.mem_filterMap.1 hextension
  obtain ⟨next', hnext', hsecond⟩ := List.mem_filterMap.1 hanother
  rw [Declared.hash_of_finished? hfirst, Declared.hash_of_finished? hsecond] at heq
  obtain rfl := h.declared_inj hnext hnext' heq
  exact Option.some.inj (hfirst.symm.trans hsecond)

theorem extensionOfType? (hash : TypeHash) :
    Option.Rel (SameExtension renumber registry other)
      (registry.extensionOfType? hash) (other.extensionOfType? hash) := by
  rw [h.holds.extensionOfType?_eq, h.other_holds.extensionOfType?_eq]
  refine h.rearranged_extensions.reverse.find?
    (fun _ _ hextension => by rw [hextension.hash_eq]) ?_
  intro extension hextension another hanother heq heq'
  exact h.extension_inj (List.mem_reverse.1 hextension) (List.mem_reverse.1 hanother)
    ((of_decide_eq_true heq).trans (of_decide_eq_true heq').symm)

theorem rearranged_extensionsOf (hash : TypeHash) :
    Rearranged (SameExtension renumber registry other)
      (registry.extensionsOf hash) (other.extensionsOf hash) := by
  rw [h.holds.extensionsOf_eq, h.other_holds.extensionsOf_eq]
  exact h.rearranged_extensions.filter fun _ _ hextension => hextension.isListed_eq hash

/-! ## Answers -/

/-- `resolve` gives the same answers from scopes of the `SamePlace`. -/
theorem alike_resolve (query : MemberQuery) {id id' : ScopeId}
    (hid : SamePlace renumber registry other id id') :
    (registry.resolve query (registry.chain id)).Alike
      (Rearranged (SameOffer (SameExtension renumber registry other)))
      (other.resolve query (other.chain id')) := by
  have hchain := h.agrees.chain hid
  have htwin : ∀ extension extension', SameExtension renumber registry other extension extension' →
      extension.Twin extension' := fun _ _ hextension => hextension.toTwin
  refine Registry.resolve_alike (fun _ _ => Rearranged.length_eq) htwin
    (fun _ _ _ hextension => .of_forall₂ (.cons ⟨hextension, rfl⟩ .nil)) ?_ ?_
    hchain.length_eq fun depth => ?_
  · -- An own type belongs to the same extension in both.
    unfold Registry.qualifyingExtension?
    split
    · exact h.extensionOfType? query.receiver
    · exact .none
  · -- The types are all the same, so the bases are.
    exact @Registry.bases_congr _ _ (fun _ => True) (fun hash _ => h.type?_eq hash)
      (fun _ _ _ _ _ _ => trivial) _ trivial
  · -- Each tier holds the same extensions, in the order of the other numbers.
    refine Registry.rearranged_offers htwin query (Registry.rearranged_tierAt htwin ?_
      (h.rearranged_extensionsOf query.receiver) depth)
    exact fun _ _ hextension => h.agrees.depthOf?_eq hchain hextension.scopes

end Renumbering

/-- The numbers of files decide nothing. With other numbers (`Renumbered`), scopes and extensions
correspond one to one (`SamePlace`, `SameExtension`); an extension has the same name, extended type
and members, and is judged alike; and `resolve` answers every use with the same member of the same
type, with the same member of the same extension, with nothing, or as ambiguous among the same
members of the same extensions in another order. -/
theorem resolve_renumbered {renumber : FileId → FileId} {files others : List SourceFile}
    (h : Renumbered renumber files others) (options options' : Options) :
    let registry := (assemble files options).registry
    let other := (assemble others options').registry
    (∀ id, (registry.scopes.get? id).isSome → ∃ id', SamePlace renumber registry other id id') ∧
      (∀ id', (other.scopes.get? id').isSome → ∃ id, SamePlace renumber registry other id id') ∧
      Rearranged (SameExtension renumber registry other) registry.extensions other.extensions ∧
      ∀ (site : AccessSite) (scope : ScopeId),
        SamePlace renumber registry other site.scope scope →
        (registry.resolve (.ofSite site) (registry.chain site.scope)).Alike
          (Rearranged (SameOffer (SameExtension renumber registry other)))
          (other.resolve (.ofSite { site with scope }) (other.chain scope)) := by
  intro registry other
  have hrenumbering := Renumbering.of_renumbered h options options'
  exact ⟨fun _ => hrenumbering.exists_samePlace, fun _ => hrenumbering.exists_samePlace_other,
    hrenumbering.rearranged_extensions,
    fun site _ hscope => hrenumbering.alike_resolve (.ofSite site) hscope⟩

/-- An extension of the shelves of the shop, with one method. -/
def shelfExtension (name : String) : Item :=
  .extension ⟨name, some (.parse "Shelf"), [], [{ (default : WrittenMember) with name := "Push" }],
    .unplaced⟩

/-- A class and an extension of it. -/
def shelfFile (id : FileId) : SourceFile where
  id
  name := "shelf"
  items :=
    [.block ["Shop"]
      [.type ⟨.plainClass, "Shelf", none, [], .unplaced⟩, shelfExtension "ShelfTools"]]

/-- Another extension of the class, with a method of the same name. -/
def toolFile (id : FileId) : SourceFile where
  id
  name := "tools"
  items := [.block ["Shop"] [shelfExtension "MoreTools"]]

/-- The call of the method on a value of the class, in the block of `toolFile`. -/
def shelfCall : AccessSite where
  id := ⟨0⟩
  span := .unplaced
  scope := ⟨3⟩
  access := .onValue ⟨1⟩ (QualifiedName.mk ["Shop"] "Shelf").hash
  member := "Push"
  shape := .invoke []

/-- With the numbers of `shelfFile` and `toolFile` exchanged the call is ambiguous as before,
between the same extensions in the other order. -/
theorem resolve_renumbered_exchanged :
    let exchange : FileId → FileId := fun file => ⟨1 - file.index⟩
    let registry := (assemble [shelfFile ⟨0⟩, toolFile ⟨1⟩] .standard).registry
    let other := (assemble [shelfFile ⟨1⟩, toolFile ⟨0⟩] .standard).registry
    Renumbered exchange [shelfFile ⟨0⟩, toolFile ⟨1⟩] [shelfFile ⟨1⟩, toolFile ⟨0⟩] ∧
      SamePlace exchange registry other ⟨3⟩ ⟨1⟩ ∧
      ((registry.resolve (.ofSite shelfCall) (registry.chain ⟨3⟩)).Alike
        (Rearranged (SameOffer (SameExtension exchange registry other)))
        (other.resolve (.ofSite shelfCall) (other.chain ⟨1⟩))) ∧
      registry.lookupFault? (.ofSite shelfCall) .unplaced
          (registry.resolve (.ofSite shelfCall) (registry.chain ⟨3⟩)) =
        some ⟨.unplaced,
          .ambiguous "Push" [⟨["Shop"], "ShelfTools"⟩, ⟨["Shop"], "MoreTools"⟩]⟩ ∧
      other.lookupFault? (.ofSite shelfCall) .unplaced
          (other.resolve (.ofSite shelfCall) (other.chain ⟨1⟩)) =
        some ⟨.unplaced,
          .ambiguous "Push" [⟨["Shop"], "MoreTools"⟩, ⟨["Shop"], "ShelfTools"⟩]⟩ := by
  intro exchange registry other
  have hrenumbered :
      Renumbered exchange [shelfFile ⟨0⟩, toolFile ⟨1⟩] [shelfFile ⟨1⟩, toolFile ⟨0⟩] :=
    ⟨by decide, by decide, .refl _, by decide +kernel⟩
  have hplace : SamePlace exchange registry other ⟨3⟩ ⟨1⟩ :=
    ⟨⟨1⟩, 1, by decide +kernel, by decide +kernel⟩
  obtain ⟨_, _, _, hanswers⟩ := resolve_renumbered hrenumbered .standard .standard
  exact ⟨hrenumbered, hplace, hanswers shelfCall ⟨1⟩ hplace, by decide +kernel, by decide +kernel⟩

end Registry

end ExtensionMembers
