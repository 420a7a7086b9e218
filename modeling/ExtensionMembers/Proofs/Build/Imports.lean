import ExtensionMembers.Proofs.Build.Versions
import ExtensionMembers.Proofs.Lookup.Contents

/-!
# Using directives are private

Using directives are read in the scopes they stand in and the scopes within these, all of one file.
So two versions of a program that differ in the using directives of one file have the same
namespaces, types and extensions, and agree on whatever is declared in other files or seen from
there. The one exception is a type that shares its hash with the own type of an extension: then the
registry has one entry for both, with the name of the last and the members of the type.

## Main definitions

* `declaringFile?`: the file whose declaration of a name is registered.
* `Outline.SameButUsings`: the outline of a file in two versions of a program.

## Main results

* `Registry.usings_private`: what the using directives of a file leave as it is.
-/

namespace ExtensionMembers

/-- The file whose declaration of a name is registered: the first of `outlinesOf` that has the
name. -/
def declaringFile? (files : List SourceFile) (name : QualifiedName) : Option FileId :=
  ((outlinesOf files).find? fun outline => name ∈ outline.names).map (·.file)

/-! ## The declaration that is registered -/

/-- The first of `declaredFrom` with a name is one of the first file that has the name. -/
theorem find?_names_of_declaredFrom {outlines : List Outline} {name : QualifiedName}
    {declared : Declared}
    (h : (declaredFrom 0 outlines).find? (·.name = name) = some declared) :
    ∃ (outline : Outline) (first : Nat), outline.StartsAt outlines first ∧
      declared ∈ outline.declared first ∧
      outlines.find? (fun outline => name ∈ outline.names) = some outline := by
  induction outlines using List.reverseRecOn with
  | nil => cases h
  | append_singleton before last ih =>
    rw [declaredFrom_append, List.find?_append] at h
    -- The first declaration is in the files before the last one, if any of them has the name.
    cases hbefore : (declaredFrom 0 before).find? (·.name = name) with
    | some found =>
      rw [hbefore, Option.some_or] at h
      obtain ⟨outline, first, ⟨earlier, later, rfl, rfl⟩, hin, hfind⟩ := ih (hbefore.trans h)
      exact ⟨outline, _, ⟨earlier, later ++ [last], by simp, rfl⟩, hin,
        by rw [List.find?_append, hfind, Option.some_or]⟩
    | none =>
      rw [hbefore, Option.none_or, declaredFrom, declaredFrom, List.append_nil] at h
      refine ⟨last, _, ⟨before, [], rfl, rfl⟩, by simpa using List.mem_of_find?_eq_some h, ?_⟩
      have hlast : name ∈ last.names := by
        rw [← Outline.map_name_declared, List.mem_map]
        exact ⟨declared, List.mem_of_find?_eq_some h, by simpa using List.find?_some h⟩
      have hnone : before.find? (fun outline => name ∈ outline.names) = none := by
        refine List.find?_eq_none.2 fun outline houtline hin => ?_
        obtain ⟨first, hstarts⟩ := Outline.exists_startsAt houtline
        rw [decide_eq_true_eq, ← Outline.map_name_declared first, List.mem_map] at hin
        obtain ⟨next, hnext, hname⟩ := hin
        exact List.find?_eq_none.1 hbefore next (mem_declaredFrom hstarts hnext)
          (by simpa using hname)
      simp [hnone, hlast]

/-- A declaration of `declaredOf` lies in a scope of the `declaringFile?` of its name. -/
theorem declaringFile?_of_mem {files : List SourceFile} {declared : Declared}
    (h : declared ∈ declaredOf files) :
    ∃ placed, (scopesOf files)[declared.scope.index]? = some placed ∧
      declaringFile? files declared.name = some placed.file := by
  obtain ⟨outline, first, hstarts, hin, hfind⟩ :=
    find?_names_of_declaredFrom (find?_name_of_enlisted h)
  obtain ⟨placed, hplaced, hfile, _⟩ := exists_scope_of_startsAt hstarts hin
  exact ⟨placed, hplaced, by rw [declaringFile?, hfind, hfile]; rfl⟩

/-- An outline of `outlinesOf` is known by the number of its file. -/
theorem eq_ofFile_of_file_eq {files : List SourceFile} (hids : (files.map (·.id)).Nodup)
    {file : SourceFile} (hfile : file ∈ files) {outline : Outline}
    (houtline : outline ∈ outlinesOf files) (heq : outline.file = file.id) :
    outline = .ofFile file := by
  obtain ⟨other, hother, rfl⟩ := mem_outlinesOf_iff.1 houtline
  rw [Outline.file_ofFile] at heq
  rw [List.inj_on_of_nodup_map hids hother hfile heq]

/-- A declaration of `declaredOf` lies in a scope of another file if it is none of `file`. -/
theorem outside_of_mem_declaredOf {files : List SourceFile} (hids : (files.map (·.id)).Nodup)
    {file : SourceFile} (hfile : file ∈ files) {declared : Declared}
    (h : declared ∈ declaredOf files)
    (hnone : ∀ first, declared ∉ (Outline.ofFile file).declared first) :
    ∃ placed, (scopesOf files)[declared.scope.index]? = some placed ∧ placed.file ≠ file.id := by
  obtain ⟨outline, first, hstarts, hin⟩ := exists_startsAt_of_declared (mem_of_mem_foldl_enlist h)
  obtain ⟨placed, hplaced, heq, _⟩ := exists_scope_of_startsAt hstarts hin
  refine ⟨placed, hplaced, fun hsame => hnone first ?_⟩
  rwa [← eq_ofFile_of_file_eq hids hfile hstarts.mem (heq ▸ hsame)]

/-! ## Other using directives -/

/-- The outline of a file in two versions of a program that differ in the using directives of
`file`. -/
structure Outline.SameButUsings (file : FileId) (outline other : Outline) : Prop where
  without_eq : outline.withoutUsings = other.withoutUsings
  eq_outside : outline.file ≠ file → outline = other

namespace Outline.SameButUsings

variable {file : FileId} {outline other : Outline} (h : outline.SameButUsings file other)

include h

theorem declared_eq (first : Nat) : outline.declared first = other.declared first := by
  obtain ⟨_, _, htypes, hextensions⟩ := Outline.mk.inj h.without_eq
  rw [declared, declared, htypes, hextensions]

theorem length_scopes : outline.scopes.length = other.scopes.length := by
  obtain ⟨_, hscopes, _, _⟩ := Outline.mk.inj h.without_eq
  simpa using congrArg List.length hscopes

theorem forall₂_placedScopes (first : Nat) :
    List.Forall₂ (PlacedScope.SameOutside (· ≠ file)) (outline.placedScopes first)
      (other.placedScopes first) := by
  by_cases houtside : outline.file ≠ file
  · rw [← h.eq_outside houtside]
    exact List.forall₂_same.2 fun _ _ => ⟨rfl, rfl, rfl, fun _ => rfl⟩
  · obtain ⟨hfile, hscopes, _, _⟩ := Outline.mk.inj h.without_eq
    rw [← List.forall₂_eq_eq_eq, List.forall₂_map_left_iff, List.forall₂_map_right_iff] at hscopes
    rw [placedScopes, placedScopes, List.forall₂_map_left_iff, List.forall₂_map_right_iff]
    refine hscopes.imp fun scope scope' hscope => ?_
    obtain ⟨hparent, hpath, _⟩ := OutlineScope.mk.inj hscope
    exact ⟨hfile, by rw [hparent], hpath, fun hout => absurd hout houtside⟩

end Outline.SameButUsings

section Versions

variable {file : FileId} {outlines others : List Outline}
  (h : List.Forall₂ (Outline.SameButUsings file) outlines others)

include h

theorem forall₂_scopesFrom (first : Nat) :
    List.Forall₂ (PlacedScope.SameOutside (· ≠ file)) (scopesFrom first outlines)
      (scopesFrom first others) := by
  induction h generalizing first with
  | nil => exact .nil
  | cons hfirst _ ih =>
    rw [scopesFrom, scopesFrom, hfirst.length_scopes]
    exact List.rel_append (hfirst.forall₂_placedScopes first) (ih _)

theorem declaredFrom_eq (first : Nat) :
    declaredFrom first outlines = declaredFrom first others := by
  induction h generalizing first with
  | nil => rfl
  | cons hfirst _ ih =>
    rw [declaredFrom, declaredFrom, hfirst.length_scopes, hfirst.declared_eq, ih]

end Versions

/-- `outlinesOf` a program and of a version with other using directives in one file. -/
theorem forall₂_outlinesOf (before after : List SourceFile) {file : SourceFile} {items : List Item}
    (hitems : Item.allWithoutUsings items = Item.allWithoutUsings file.items) :
    List.Forall₂ (Outline.SameButUsings file.id) (outlinesOf (before ++ file :: after))
      (outlinesOf (before ++ { file with items } :: after)) := by
  obtain ⟨earlier, later, houtlines, houtlines'⟩ := outlinesOf_replace before after file items
  have hsame : ∀ outlines, List.Forall₂ (Outline.SameButUsings file.id) outlines outlines :=
    fun outlines => List.forall₂_same.2 fun _ _ => ⟨rfl, fun _ => rfl⟩
  have hfile : (Outline.ofFile file).SameButUsings file.id (.ofFile { file with items }) := by
    refine ⟨?_, fun hne => absurd (Outline.file_ofFile file) hne⟩
    rw [Outline.withoutUsings_ofFile, Outline.withoutUsings_ofFile, hitems]
  -- Only one file differs, and it has the same place among the others.
  rw [houtlines, houtlines']
  exact List.rel_append (hsame earlier) (.cons hfile (hsame later))

namespace Registry

/-- The registries of a program and of a version with other using directives in one file are
`Versions`. -/
theorem versions_of_usings {before after : List SourceFile} {file : SourceFile}
    {items : List Item} (hids : ((before ++ file :: after).map (·.id)).Nodup)
    (hitems : Item.allWithoutUsings items = Item.allWithoutUsings file.items)
    (options : Options) :
    Versions (· ≠ file.id) (fun _ => True) (assemble (before ++ file :: after) options).registry
      (assemble (before ++ { file with items } :: after) options).registry
      (scopesOf (before ++ file :: after)) (scopesOf (before ++ { file with items } :: after))
      (declaredOf (before ++ file :: after)) (declaredOf (before ++ file :: after)) := by
  have houtlines := forall₂_outlinesOf before after hitems
  have hids' : ((before ++ { file with items } :: after).map (·.id)).Nodup := by
    simpa using hids
  -- Using directives declare nothing, so what is registered is the same.
  have hdeclared : declaredOf (before ++ { file with items } :: after) =
      declaredOf (before ++ file :: after) := by
    rw [declaredOf, ← declaredFrom_eq houtlines, declaredOf]
  have hholds := holds_assemble hids options
  have hholds' := holds_assemble hids' options
  rw [hdeclared] at hholds'
  refine ⟨hholds, hholds', wellPlaced_declaredOf _, forall₂_scopesFrom houtlines 0,
    fun _ _ _ => Iff.rfl, fun _ => ?_⟩
  rw [hholds.heading?_eq, hholds'.heading?_eq]

end Registry

/-- An extension in two versions of a program, the same if its file is `outside` of those that
differ. -/
structure Extension.SameOutside (outside : FileId → Prop) (extension other : Extension) : Prop where
  id_eq : extension.id = other.id
  name_eq : extension.name = other.name
  scope_eq : extension.scope = other.scope
  span_eq : extension.span = other.span
  eq_outside : outside extension.id.file → extension = other

/-- An `Extension.Counterpart` with the same identity in the same scope is the same extension. -/
theorem Extension.Counterpart.eq {link : ScopeId → ScopeId → Prop}
    (hlink : ∀ id id', link id id' → id = id') {extension other : Extension}
    (h : extension.Counterpart link (· = ·) other) : extension = other := by
  obtain ⟨⟨hname, hextended, hmembers, hstatic, hvalid, hspan⟩, hid, hscope⟩ := h
  cases extension
  cases other
  have hscope := hlink _ _ hscope
  simp_all only

namespace Registry.Versions

variable {outside : FileId → Prop} {registry other : Registry}
  {scopes scopes' : List PlacedScope} {declared : List Declared}

variable
  (h : Versions outside (fun _ => True) registry other scopes scopes' declared declared)

include h

/-- `Declared.finished?` is the same in both versions for an extension that lies outside of the
files that differ. -/
theorem finished?_eq {next : Declared} (hscope : SameScope outside scopes next.scope next.scope) :
    next.finished? registry = next.finished? other := by
  have hnext := (next.counterpart_refl fun id => Eq.refl id).of_eq hscope
  have hrel := h.agrees.counterpart_finished? hnext fun _ _ => trivial
  exact option_rel_eq_iff.1
    (rel_imp (fun _ _ hcounterpart => hcounterpart.eq fun _ _ hlink => hlink.1) hrel)

/-- `Versions` with the same declarations have the same extensions, up to the signatures of those in
the files that differ (`Extension.SameOutside`). -/
theorem forall₂_extensions :
    List.Forall₂ (Extension.SameOutside outside) registry.extensions other.extensions := by
  rw [h.holds.extensions_eq, h.other_holds.extensions_eq]
  refine List.rel_filterMap (R := fun next next' => next = next' ∧ next ∈ declared) ?_
    (List.forall₂_same.2 fun next hnext => ⟨rfl, hnext⟩)
  rintro next _ ⟨rfl, hnext⟩
  cases next with
  | type => exact .none
  | extension id name scope declaration =>
    -- Whatever comes from the declaration alone is the same even in the file that differs.
    refine .some ⟨rfl, rfl, rfl, rfl, fun houtside => ?_⟩
    obtain ⟨placed, hplaced, _, hfile⟩ := h.placed.within _ hnext
    exact Option.some.inj (h.finished?_eq ⟨rfl, placed, hplaced, hfile id rfl ▸ houtside⟩)

theorem extension?_eq {id : ExtensionId} (houtside : outside id.file) :
    registry.extension? id = other.extension? id := by
  have hfound : Option.Rel (Extension.SameOutside outside) (registry.extension? id)
      (other.extension? id) :=
    rel_find? (fun _ _ hsame => by rw [hsame.id_eq]) (List.rel_reverse h.forall₂_extensions)
  have hid : ∀ extension, registry.extension? id = some extension → extension.id = id :=
    fun extension hextension => by simpa using List.find?_some hextension
  generalize registry.extension? id = extension at hfound hid
  generalize other.extension? id = extension' at hfound
  cases hfound with
  | none => rfl
  | some hsame => rw [hsame.eq_outside (hid _ rfl ▸ houtside)]

/-- Where no declaration lies in the files that differ, two versions have the same contents
(`SameContents`). -/
theorem sameContents
    (houtside : ∀ next ∈ declared, SameScope outside scopes next.scope next.scope) :
    registry.SameContents other := by
  have hextensions : registry.extensions = other.extensions := by
    rw [h.holds.extensions_eq, h.other_holds.extensions_eq]
    exact List.filterMap_congr fun next hnext => h.finished?_eq (houtside next hnext)
  refine ⟨fun hash => h.type?_eq rfl rfl fun last hlast => ⟨?_, fun _ _ => trivial⟩, hextensions,
    by rw [h.holds.index_eq, h.other_holds.index_eq, hextensions], h.namespaceOf?_eq⟩
  obtain ⟨_, _, hwritten⟩ := mem_of_find?_pendingType hlast
  exact houtside _ hwritten

end Registry.Versions

/-- The last of `registeredTypes` with a hash, if it is declared in a file, is the last
declaration. -/
theorem find?_registeredTypes {declared : List Declared} {hash : TypeHash} {next : Declared}
    (h : declared.reverse.find? (·.bare.hash = hash) = some next) :
    (registeredTypes declared).reverse.find? (·.hash = hash) = some next.bare := by
  rw [registeredTypes, List.reverse_append, List.find?_append, ← List.map_reverse, List.find?_map,
    Function.comp_def, h]
  rfl

/-- If the last declaration with a hash is that of a type, it is the last `PendingType` with it. -/
theorem find?_pendingType {declared : List Declared} {hash : TypeHash} {name : QualifiedName}
    {scope : ScopeId} {declaration : TypeDeclaration}
    (h : declared.reverse.find? (·.bare.hash = hash) = some (.type name scope declaration)) :
    (declared.filterMap (·.pendingType?)).reverse.find? (·.hash = hash) =
      some ⟨name.hash, scope, declaration⟩ := by
  -- From the end: a declaration with another hash is passed over on both sides.
  induction declared using List.reverseRecOn with
  | nil => cases h
  | append_singleton before last ih =>
    rw [find?_reverse_concat] at h
    rw [List.filterMap_append]
    split at h
    next hhash =>
      obtain rfl := Option.some.inj h
      exact (find?_reverse_concat _ _ _).trans (if_pos hhash)
    next hne =>
      cases last with
      | type => exact (find?_reverse_concat _ _ _).trans ((if_neg hne).trans (ih h))
      | extension => exact (congrArg _ (congrArg _ (List.append_nil _))).trans (ih h)

/-- The last declaration of a type with some hash lies in another file than a given one
(`declaringFile?`), if the entry of this hash is one of another file; if the entry is that of an
extension, then because none of the types of the given file has the hash. -/
theorem outside_of_last {files : List SourceFile} (hids : (files.map (·.id)).Nodup)
    {file : SourceFile} (hin : file ∈ files) {hash : TypeHash} {entry : NamedType}
    (hentry : (registeredTypes (declaredOf files)).reverse.find? (·.hash = hash) = some entry)
    (hfile : declaringFile? files entry.name ≠ some file.id)
    (hshared : (∃ next ∈ declaredOf files, next.id?.isSome ∧ next.name = entry.name) →
      ∀ written ∈ (Outline.ofFile file).types, written.name.hash ≠ hash)
    {last : PendingType}
    (hlast : ((declaredOf files).filterMap (·.pendingType?)).reverse.find? (·.hash = hash) =
      some last) : SameScope (· ≠ file.id) (scopesOf files) last.scope last.scope := by
  obtain ⟨name, hname, hwritten⟩ := mem_of_find?_pendingType hlast
  have hhash : name.hash = hash := by
    rw [← hname]
    simpa using List.find?_some hlast
  obtain ⟨latest, hlatest⟩ : ∃ latest,
      (declaredOf files).reverse.find? (·.bare.hash = hash) = some latest :=
    Option.isSome_iff_exists.1 (List.find?_isSome.2
      ⟨_, List.mem_reverse.2 hwritten, decide_eq_true hhash⟩)
  obtain rfl := Option.some.inj ((find?_registeredTypes hlatest).symm.trans hentry)
  have hmem := List.mem_reverse.1 (List.mem_of_find?_eq_some hlatest)
  cases latest with
  | type other scope declaration =>
    -- The entry is that of a type, which is the one declared last.
    obtain rfl := Option.some.inj ((find?_pendingType hlatest).symm.trans hlast)
    obtain ⟨placed, hplaced, hdeclaring⟩ := declaringFile?_of_mem hmem
    exact ⟨rfl, placed, hplaced, fun heq => hfile (heq ▸ hdeclaring)⟩
  | extension id other scope declaration =>
    -- The entry is that of an extension, so the type declared last is none of the file.
    have hnone : ∀ first,
        .type name last.scope last.declaration ∉ (Outline.ofFile file).declared first := by
      intro first hin
      rcases List.mem_append.1 hin with hin | hin
      · obtain ⟨type, htype, heq⟩ := List.mem_map.1 hin
        obtain ⟨rfl, _, _⟩ := Declared.type.inj heq
        exact hshared ⟨_, hmem, rfl, rfl⟩ type htype hhash
      · obtain ⟨_, _, heq⟩ := List.mem_map.1 hin
        cases heq
    obtain ⟨placed, hplaced, hne⟩ := outside_of_mem_declaredOf hids hin hwritten hnone
    exact ⟨rfl, placed, hplaced, hne⟩

namespace Registry.Versions

variable {files : List SourceFile} {file : SourceFile} {registry other : Registry}
  {scopes' : List PlacedScope}
  (h : Versions (· ≠ file.id) (fun _ => True) registry other (scopesOf files) scopes'
    (declaredOf files) (declaredOf files))

include h

/-- A scope of another file stands for itself (`SameScope`) in a version where one file differs. -/
theorem sameScope_of_file_ne {id : ScopeId} {scope : Scope}
    (hscope : registry.scopes.get? id = some scope) (hne : scope.file ≠ file.id) :
    SameScope (· ≠ file.id) (scopesOf files) id id := by
  rw [h.holds.get?_scopes] at hscope
  obtain ⟨placed, hplaced, rfl⟩ := Option.map_eq_some_iff.1 hscope
  exact ⟨rfl, placed, hplaced, hne⟩

variable (hids : (files.map (·.id)).Nodup) (hin : file ∈ files)

include hids hin

/-- A version where one file differs has the entries (`type?`) of types that other files declare
(`declaringFile?`), unless the entry is that of an extension and a type of the file has the same
hash. -/
theorem type?_of_declaringFile? {hash : TypeHash} {type : NamedType}
    (htype : registry.type? hash = some type)
    (hfile : declaringFile? files type.name ≠ some file.id)
    (hshared : (∃ extension ∈ registry.extensions, extension.name = type.name) →
      ∀ written ∈ (Outline.ofFile file).types, written.name.hash ≠ hash) :
    other.type? hash = some type := by
  rw [← h.type?_eq rfl rfl fun last hlast => ⟨?_, fun _ _ => trivial⟩, htype]
  rw [h.holds.type?_eq] at htype
  obtain ⟨entry, hentry, rfl⟩ := Option.map_eq_some_iff.1 htype
  -- Signatures leave names alone.
  have hname : (registry.signed ((declaredOf files).filterMap (·.pendingType?)) entry).name =
      entry.name := by
    show (registry.signed _ entry).heading.name = entry.heading.name
    rw [heading_signed]
  rw [hname] at hfile hshared
  refine outside_of_last hids hin hentry hfile (fun hextension => hshared ?_) hlast
  obtain ⟨next, hnext, hid, hname⟩ := hextension
  cases next with
  | type => cases hid
  | extension id name scope declaration =>
    rw [h.holds.extensions_eq]
    exact ⟨_, List.mem_filterMap.2 ⟨_, hnext, rfl⟩, hname⟩

/-- A version where a file differs that declares nothing has the same contents (`SameContents`). -/
theorem sameContents_of_names_eq_nil (hnames : (Outline.ofFile file).names = []) :
    registry.SameContents other := by
  refine h.sameContents fun next hnext => ?_
  obtain ⟨placed, hplaced, hne⟩ := outside_of_mem_declaredOf hids hin hnext fun first => by
    have hnone : (Outline.ofFile file).declared first = [] := by
      rw [← List.map_eq_nil_iff, Outline.map_name_declared, hnames]
    rw [hnone]
    exact List.not_mem_nil
  exact ⟨rfl, placed, hplaced, hne⟩

end Registry.Versions

namespace Registry

/-- Other using directives in one file leave as they are: the entries (`type?`) of types that other
files declare, unless the entry is that of an extension and a type of the file has the same hash;
the extensions that other files declare; what types and extensions there are; what the scopes of
other files see (`chain`); and, if the file declares nothing, what `lowerSite` makes of uses in
other files. -/
theorem usings_private {before after : List SourceFile} {file : SourceFile} {items : List Item}
    (hids : ((before ++ file :: after).map (·.id)).Nodup)
    (hitems : Item.allWithoutUsings items = Item.allWithoutUsings file.items)
    (options : Options) :
    let files := before ++ file :: after
    let registry := (assemble files options).registry
    let other := (assemble (before ++ { file with items } :: after) options).registry
    (∀ hash type, registry.type? hash = some type → declaringFile? files type.name ≠ some file.id →
      ((∃ extension ∈ registry.extensions, extension.name = type.name) →
        ∀ written ∈ (Outline.ofFile file).types, written.name.hash ≠ hash) →
      other.type? hash = some type) ∧
    (∀ id, id.file ≠ file.id → other.extension? id = registry.extension? id) ∧
    (∀ hash, (other.type? hash).map (·.heading) = (registry.type? hash).map (·.heading)) ∧
    other.extensions.map (fun extension => (extension.id, extension.name, extension.scope)) =
      registry.extensions.map (fun extension => (extension.id, extension.name, extension.scope)) ∧
    (∀ id scope, registry.scopes.get? id = some scope → scope.file ≠ file.id →
      other.chain id = registry.chain id) ∧
    ((Outline.ofFile file).names = [] →
      (∀ site scope, registry.scopes.get? site.scope = some scope → scope.file ≠ file.id →
        other.lowerSite site = registry.lowerSite site) ∧
      ∀ (site : ProtocolSite) (scope : Scope), registry.scopes.get? site.scope = some scope →
        scope.file ≠ file.id → other.lowerProtocol site = registry.lowerProtocol site) := by
  intro files registry other
  have hin : file ∈ files := by simp [files]
  have h : Versions (· ≠ file.id) (fun _ => True) registry other (scopesOf files) _
    (declaredOf files) (declaredOf files) := versions_of_usings hids hitems options
  -- The chain of a scope is made of scopes of its own file.
  have hchain : ∀ id scope, registry.scopes.get? id = some scope → scope.file ≠ file.id →
      other.chain id = registry.chain id :=
    fun id scope hscope hne => (h.chain_eq (h.sameScope_of_file_ne hscope hne)).symm
  refine ⟨fun _ _ => h.type?_of_declaringFile? hids hin,
    fun id hid => (h.extension?_eq hid).symm, fun hash => ?_, ?_, hchain, fun hnames => ?_⟩
  · rw [h.holds.heading?_eq, h.other_holds.heading?_eq]
  · exact (map_eq_of_forall₂ (fun _ _ hsame => by
      rw [hsame.id_eq, hsame.name_eq, hsame.scope_eq]) h.forall₂_extensions).symm
  · have hsame := h.sameContents_of_names_eq_nil hids hin hnames
    exact ⟨fun site scope hscope hne =>
        (hsame.lowerSite_eq (hchain _ scope hscope hne).symm).symm,
      fun site scope hscope hne => (hsame.lowerProtocol_eq (hchain _ scope hscope hne).symm).symm⟩

/-- A class whose name has the text of `B` within the namespace `A`, with a base that a using
directive supplies. -/
def mixedFile (imported : String) : SourceFile where
  id := ⟨0⟩
  name := "mixed"
  items :=
    [.importing [imported],
      .type ⟨.plainClass, "A::B", some (.parse "P"), [], .unplaced⟩]

/-- Two classes of one name in namespaces of their own, and an extension `B` within the namespace
`A`. -/
def nestedFile : SourceFile where
  id := ⟨1⟩
  name := "nested"
  items :=
    [.block ["X"] [.type ⟨.plainClass, "P", none, [], .unplaced⟩],
      .block ["Y"] [.type ⟨.plainClass, "P", none, [], .unplaced⟩],
      .block ["A"] [.extension ⟨"B", some (.parse "int"), [], [], .unplaced⟩]]

/-- The own type of the extension in `nestedFile` has the hash of the class in `mixedFile`, so its
entry gets the base of the class and follows the using directives of a file that does not declare
it. -/
theorem usings_not_private_of_shared_hash :
    let files := [mixedFile "X", nestedFile]
    let registry := (assemble files .standard).registry
    let other := (assemble [{ mixedFile "X" with items := (mixedFile "Y").items }, nestedFile]
      .standard).registry
    let hash := (QualifiedName.mk ["A"] "B").hash
    (files.map (·.id)).Nodup ∧
      Item.allWithoutUsings (mixedFile "Y").items = Item.allWithoutUsings (mixedFile "X").items ∧
      ∃ type, registry.type? hash = some type ∧ declaringFile? files type.name = some ⟨1⟩ ∧
        other.type? hash ≠ some type := by
  refine ⟨by decide, rfl, ⟨⟨["A"], "B"⟩, .extension, some (QualifiedName.mk ["X"] "P").hash, [],
    .unplaced⟩, by decide +kernel, by decide +kernel, by decide +kernel⟩

/-- The classes that `nestedFile` declares keep their entries, whichever of them `mixedFile`
imports. -/
theorem usings_private_nested :
    let files := [mixedFile "X", nestedFile]
    let registry := (assemble files .standard).registry
    let other := (assemble [{ mixedFile "X" with items := (mixedFile "Y").items }, nestedFile]
      .standard).registry
    let type := NamedType.bare ⟨["X"], "P"⟩ .plainClass .unplaced
    (files.map (·.id)).Nodup ∧
      Item.allWithoutUsings (mixedFile "Y").items = Item.allWithoutUsings (mixedFile "X").items ∧
      registry.type? type.hash = some type ∧ declaringFile? files type.name ≠ some ⟨0⟩ ∧
      other.type? type.hash = some type := by
  intro files registry other type
  have hids : (files.map (·.id)).Nodup := by decide
  have hitems : Item.allWithoutUsings (mixedFile "Y").items =
    Item.allWithoutUsings (mixedFile "X").items := rfl
  have htype : registry.type? type.hash = some type := by decide +kernel
  have hfile : declaringFile? files type.name ≠ some ⟨0⟩ := by decide +kernel
  have hnone : ∀ extension ∈ registry.extensions, extension.name ≠ type.name := by decide +kernel
  refine ⟨hids, hitems, htype, hfile, ?_⟩
  obtain ⟨htypes, _⟩ := @usings_private [] [nestedFile] (mixedFile "X")
    (mixedFile "Y").items hids hitems .standard
  exact htypes type.hash type htype hfile fun ⟨extension, hin, hname⟩ =>
    absurd hname (hnone extension hin)

end Registry

end ExtensionMembers
