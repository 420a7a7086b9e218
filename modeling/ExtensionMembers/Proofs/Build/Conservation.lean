import ExtensionMembers.Proofs.Build.Versions
import ExtensionMembers.Proofs.Call.Evaluation

/-!
# Extensions are conservative

A program with one more extension has the same scopes and the same declarations otherwise, only
that extensions after it in its file are one place further back. If the name of the extension is
new and nothing refers to it, all signatures stay as they are. So uses of declared members are
lowered as before, and so are all uses on types that the extension does not extend.

## Main definitions

* `Outline.typeNames`: the simple names that the declarations of a file refer to.
* `Declared.Same`, `Extension.Same`: the same declaration and extension, in the same scope.
* `Registry.Gains`: a registry has one more extension than another one.

## Main results

* `declaredOf_insert`: what is registered of a program with one more extension.
* `Registry.lowerSite_conservative`: what uses are lowered to.
-/

namespace ExtensionMembers

/-- The simple names that the declarations of a file refer to (`TypeDeclaration.typeNames`,
`ExtensionDeclaration.typeNames`). -/
def Outline.typeNames (outline : Outline) : List String :=
  outline.types.flatMap (·.declaration.typeNames) ++
    outline.extensions.flatMap (·.declaration.typeNames)

theorem Outline.mem_typeNames {outline : Outline} {first : Nat} {next : Declared}
    (h : next ∈ outline.declared first) {name : String} (hname : name ∈ next.typeNames) :
    name ∈ outline.typeNames := by
  rcases List.mem_append.1 h with h | h
  · obtain ⟨type, htype, rfl⟩ := List.mem_map.1 h
    exact List.mem_append_left _ (List.mem_flatMap.2 ⟨type, htype, hname⟩)
  · obtain ⟨extension, hextension, rfl⟩ := List.mem_map.1 h
    exact List.mem_append_right _ (List.mem_flatMap.2 ⟨extension, hextension, hname⟩)

/-- If no file refers to a name (`Outline.typeNames`), no registered declaration does. -/
theorem ne_of_mem_typeNames {files : List SourceFile} {name : String}
    (h : ∀ file ∈ files, name ∉ (Outline.ofFile file).typeNames) :
    ∀ next ∈ declaredOf files, ∀ other ∈ next.typeNames, other ≠ name := by
  rintro next hnext other hother rfl
  obtain ⟨outline, first, hstarts, hin⟩ :=
    exists_startsAt_of_declared (mem_of_mem_foldl_enlist hnext)
  obtain ⟨file, hfile, rfl⟩ := mem_outlinesOf_iff.1 hstarts.mem
  exact h file hfile (Outline.mem_typeNames hin hother)

theorem Registry.Holds.name_ne_of_new {registry : Registry} {scopes : List PlacedScope}
    {declared : List Declared} (h : registry.Holds scopes declared) {name : QualifiedName}
    (hnew : registry.containsType name.hash = false) :
    ∀ type ∈ registeredTypes declared, type.name ≠ name := by
  rintro type htype rfl
  have hcontains : registry.containsType type.name.hash = true :=
    h.containsType_iff.2 ⟨type, htype, rfl⟩
  rw [hnew] at hcontains
  cases hcontains

/-! ## One more declaration -/

/-- The same declaration in the same scope, of an extension perhaps with another identity: a
`Declared.Counterpart` in place. -/
abbrev Declared.Same : Declared → Declared → Prop :=
  Declared.Counterpart (· = ·) fun _ _ => True

namespace Declared.Same

variable {next other : Declared} (h : next.Same other)

include h

theorem name_eq : next.name = other.name :=
  congrArg NamedType.name (Declared.Counterpart.bare_eq h)

theorem pendingType?_eq : next.pendingType? = other.pendingType? := by
  cases h with
  | type name declaration hscope => rw [pendingType?, pendingType?, hscope]
  | extension => rfl

end Declared.Same

theorem Declared.same_refl (next : Declared) : next.Same next :=
  next.counterpart_refl fun _ => trivial

theorem mem_names_insert_iff {added : Declared} (before : List Declared)
    {after after' : List Declared} (hafter : List.Forall₂ Declared.Same after after')
    {name : QualifiedName} (hname : name ≠ added.name) :
    name ∈ (registeredTypes (before ++ added :: after')).map (·.name) ↔
      name ∈ (registeredTypes (before ++ after)).map (·.name) := by
  have hbare : after.map (·.bare) = after'.map (·.bare) :=
    map_eq_of_forall₂ (fun _ _ hsame => hsame.bare_eq) hafter
  have hother : added.bare.name = added.name := rfl
  simp only [registeredTypes, List.map_append, List.map_cons, ← hbare, List.mem_append,
    List.mem_cons, hother, hname, false_or]

/-- A declaration `added` with a name of its own is registered by `enlist` in its place, and changes
nothing of what is registered before and after it. -/
theorem foldl_enlist_insert (added : Declared) (before : List Declared)
    {after after' rest rest' : List Declared} (hafter : List.Forall₂ Declared.Same after after')
    (hrest : List.Forall₂ Declared.Same rest rest')
    (hnames : ∀ next ∈ rest, next.name ≠ added.name) :
    ∃ last last', rest.foldl enlist (before ++ after) = before ++ last ∧
      rest'.foldl enlist (before ++ added :: after') = before ++ added :: last' ∧
      List.Forall₂ Declared.Same last last' := by
  induction hrest generalizing after after' with
  | nil => exact ⟨after, after', rfl, rfl, hafter⟩
  | @cons next next' rest rest' hnext hrest ih =>
    obtain ⟨hname, hnames⟩ := List.forall_mem_cons.1 hnames
    have htaken := mem_names_insert_iff before hafter hname
    -- Whether the name of the next declaration is taken does not depend on the new one.
    rw [List.foldl_cons, List.foldl_cons, enlist, enlist, ← hnext.name_eq]
    by_cases hin : next.name ∈ (registeredTypes (before ++ after)).map (·.name)
    · rw [if_pos hin, if_pos (htaken.2 hin)]
      exact ih hafter hnames
    · rw [if_neg hin, if_neg (mt htaken.1 hin), List.append_assoc, List.append_assoc]
      exact ih (List.rel_append hafter (.cons hnext .nil)) hnames

section Insertion

variable (before after : List SourceFile) {file : SourceFile} {items : List Item}
  {declaration : ExtensionDeclaration} {path : NamespacePath}
  (hinserted : Item.Inserted declaration [] path file.items items)

include hinserted

/-- `declaredFrom` of a program and of the same program with one more extension. -/
theorem declaredFrom_insert :
    ∃ front rest rest' id scope,
      declaredFrom 0 (outlinesOf (before ++ file :: after)) = front ++ rest ∧
      declaredFrom 0 (outlinesOf (before ++ { file with items } :: after)) =
        front ++ .extension id ⟨path, declaration.name⟩ scope declaration :: rest' ∧
      List.Forall₂ Declared.Same rest rest' ∧
      scopesOf (before ++ { file with items } :: after) = scopesOf (before ++ file :: after) := by
  obtain ⟨outlines, outlines', houtlines, houtlines'⟩ := outlinesOf_replace before after file items
  obtain ⟨extensions, extensions', scope, hextensions, hgains⟩ := Outline.gains_ofFile hinserted
  -- In the file everything up to the new extension stays, and what follows only moves on.
  let first := (scopesFrom 0 outlines).length
  let others := declaredFrom (first + (Outline.ofFile file).scopes.length) outlines'
  refine ⟨declaredFrom 0 outlines ++ ((Outline.ofFile file).types.map (·.declared first) ++
      extensions.map (·.declared first)), extensions'.map (·.declared first) ++ others,
    extensions'.map (·.movedOn.declared first) ++ others,
    ⟨(Outline.ofFile file).file, extensions.length⟩, ⟨first + scope⟩, ?_, ?_, ?_, ?_⟩
  · rw [houtlines, declaredFrom_append, declaredFrom, Outline.declared, hextensions]
    simp [first, others]
  · rw [houtlines', hgains, declaredFrom_append, declaredFrom, Outline.declared]
    simp [first, others, OutlineExtension.declared]
  · refine List.rel_append ?_ (List.forall₂_same.2 fun next _ => next.same_refl)
    rw [List.forall₂_map_left_iff, List.forall₂_map_right_iff, List.forall₂_same]
    exact fun extension _ => .extension extension.name extension.declaration trivial rfl
  · rw [scopesOf, scopesOf, houtlines, houtlines', hgains, scopesFrom_append, scopesFrom_append]
    rfl

/-- `declaredOf` of a program and of the same program with one more extension, whose name is new. -/
theorem declaredOf_insert (hnew : ∀ type ∈ registeredTypes (declaredOf (before ++ file :: after)),
      type.name ≠ ⟨path, declaration.name⟩) :
    ∃ front rest rest' id scope,
      declaredOf (before ++ file :: after) = front ++ rest ∧
      declaredOf (before ++ { file with items } :: after) =
        front ++ .extension id ⟨path, declaration.name⟩ scope declaration :: rest' ∧
      List.Forall₂ Declared.Same rest rest' ∧
      scopesOf (before ++ { file with items } :: after) = scopesOf (before ++ file :: after) := by
  obtain ⟨front, rest, rest', id, scope, hall, hall', hrest, hscopes⟩ :=
    declaredFrom_insert before after hinserted
  have hnames : ∀ next ∈ rest, next.name ≠ ⟨path, declaration.name⟩ := by
    intro next hnext heq
    have hin : next ∈ declaredFrom 0 (outlinesOf (before ++ file :: after)) := by
      rw [hall]
      exact List.mem_append_right _ hnext
    obtain ⟨type, htype, hname⟩ := List.mem_map.1 (name_taken_of_mem hin)
    exact hnew type htype (hname.trans heq)
  let added := Declared.extension id ⟨path, declaration.name⟩ scope declaration
  obtain ⟨last, last', hlast, hlast', hsame⟩ :=
    foldl_enlist_insert added (front.foldl enlist []) .nil hrest hnames
  have hbefore : declaredOf (before ++ file :: after) = front.foldl enlist [] ++ last := by
    rw [declaredOf, hall, List.foldl_append, ← hlast, List.append_nil]
  -- The name is new to the whole program, so it is free when its turn comes.
  have hfree : added.name ∉ (registeredTypes (front.foldl enlist [])).map (·.name) := by
    intro hin
    obtain ⟨type, htype, hname⟩ := List.mem_map.1 hin
    refine hnew type ?_ hname
    rw [hbefore, registeredTypes, List.map_append, ← List.append_assoc]
    exact List.mem_append_left _ htype
  refine ⟨front.foldl enlist [], last, last', id, scope, hbefore, ?_, hsame, hscopes⟩
  rw [declaredOf, hall', List.foldl_append, List.foldl_cons, enlist, if_neg hfree]
  exact hlast'

end Insertion

/-! ## Look-ups -/

/-- The same extension in the same scope, perhaps with another identity: an `Extension.Counterpart`
in place. -/
abbrev Extension.Same : Extension → Extension → Prop :=
  Extension.Counterpart (· = ·) fun _ _ => True

namespace Registry

theorem resolve_eq_declared_iff_declared? {registry : Registry} {query : MemberQuery}
    {chain : ScopeChain} {owner : NamedType} {member : Member} :
    registry.resolve query chain = .declared owner member ↔
      registry.qualifyingExtension? query = none ∧
        registry.declared? query = some (owner, member) := by
  unfold resolve
  cases registry.qualifyingExtension? query with
  | some extension =>
    -- An extension asked for static members answers with its own members only.
    refine iff_of_false (fun h => ?_) (by simp)
    unfold resolveWithin at h
    dsimp only at h
    split at h
    · split at h <;> cases h
    · cases h
  | none =>
    cases registry.declared? query with
    | none => simpa using resolveInTiers_ne_declared query _ owner member
    | some found => simp [Prod.ext_iff]

/-- A use whose form is `CallForm.declared` has resolved to a declared member
(`Resolution.declared`). -/
theorem exists_declared_of_form {registry : Registry} {site : AccessSite} {owner : TypeHash}
    {member : String} {kind : AccessKind} {receiver : Option Operand} {args : List Operand}
    (hform : (registry.lowerSite site).1.form = .declared owner member kind receiver args) :
    ∃ type found, registry.resolve (.ofSite site) (registry.chain site.scope) =
      .declared type found := by
  have hok : (registry.lowerSite site).1.form ≠ .error := by simp [hform]
  obtain ⟨found, operands, hfound, _, _, heq⟩ := formOf_eq_ok_iff.1 (formOf_of_lowerAccess hok)
  have heq := hform.symm.trans heq
  rcases Resolution.cases_of_member? hfound with ⟨type, hanswer⟩ | ⟨extension, hanswer⟩
  · exact ⟨type, found, hanswer⟩
  · -- What an extension supplies is never lowered to the use of a declared member.
    rw [hanswer] at heq
    unfold CallForm.ofResolution CallForm.ofSupplied at heq
    dsimp only at heq
    split at heq
    · cases heq
    · split at heq <;> cases heq

/-- A use that `lowerAccess` does not lower to `CallForm.error` has no diagnostics. -/
theorem report_of_form_ne_error {registry : Registry} {site : AccessSite}
    {resolution : Resolution} (h : (registry.lowerAccess site resolution).1.form ≠ .error) :
    (registry.lowerAccess site resolution).2 = .empty := by
  unfold lowerAccess at h ⊢
  cases hform : registry.formOf site resolution with
  | error fault => simp [hform] at h
  | ok form => rfl

/-- The registry `later` holds one more extension, `added`, than `registry`: all other types are the
same, none of them has the own type of the extension as its base, and scopes see the same. -/
structure Gains (registry later : Registry) (added : Extension) : Prop where
  new : registry.containsType added.hash = false
  type?_eq : ∀ {hash}, hash ≠ added.hash → registry.type? hash = later.type? hash
  base_ne : ∀ {hash type}, registry.type? hash = some type → type.base ≠ some added.hash
  chain_eq : ∀ id, registry.chain id = later.chain id
  namespaceOf?_eq : ∀ {extension extension'}, Extension.Same extension extension' →
    registry.namespaceOf? extension = later.namespaceOf? extension'
  extensionsOf : ∀ {hash}, added.extendedHash? ≠ some hash →
    List.Forall₂ Extension.Same (registry.extensionsOf hash) (later.extensionsOf hash)
  extensionOfType? : ∀ {hash}, hash ≠ added.hash →
    Option.Rel Extension.Same (registry.extensionOfType? hash) (later.extensionOfType? hash)

namespace Gains

variable {registry later : Registry} {added : Extension} (h : registry.Gains later added)

include h

theorem bases_eq {hash : TypeHash} (hhash : hash ≠ added.hash) :
    registry.bases hash = later.bases hash := by
  refine bases_congr (fun other hother => h.type?_eq hother) ?_ hhash
  rintro other type base _ htype hbase rfl
  exact h.base_ne htype hbase

theorem qualifyingExtension? {query : MemberQuery} (hreceiver : query.receiver ≠ added.hash) :
    Option.Rel Extension.Same (registry.qualifyingExtension? query)
      (later.qualifyingExtension? query) := by
  unfold Registry.qualifyingExtension?
  split
  · exact h.extensionOfType? hreceiver
  · exact .none

/-- Under `Gains`, and away from the type that the new extension extends, the answers of `resolve`
are alike. -/
theorem resolve_alike {query : MemberQuery} (hreceiver : query.receiver ≠ added.hash)
    (hextended : added.extendedHash? ≠ some query.receiver) (chain : ScopeChain) :
    (registry.resolve query chain).Alike (List.Forall₂ (SameOffer Extension.Same))
      (later.resolve query chain) := by
  have htwin : ∀ extension extension', Extension.Same extension extension' →
      extension.Twin extension' := fun _ _ hsame => hsame.toTwin
  refine Registry.resolve_alike (fun _ _ => List.Forall₂.length_eq) htwin
    (fun _ _ _ hsame => .cons ⟨hsame, rfl⟩ .nil) (h.qualifyingExtension? hreceiver)
    (h.bases_eq hreceiver) rfl fun depth => ?_
  refine forall₂_offers htwin query (forall₂_tierAt htwin ?_ (h.extensionsOf hextended) depth)
  intro extension extension' hsame
  rw [depthOf?, depthOf?, h.namespaceOf?_eq hsame]

/-- Under `Gains`, and away from the type that the new extension extends, `lowerSite` gives what it
gave before. -/
theorem lowerSite_eq {site : AccessSite} (htarget : site.access.target ≠ added.hash)
    (hextended : added.extendedHash? ≠ some site.access.target) :
    later.lowerSite site = registry.lowerSite site := by
  have halike : (registry.resolve (.ofSite site) (registry.chain site.scope)).Alike
      (List.Forall₂ (SameOffer Extension.Same))
      (later.resolve (.ofSite site) (registry.chain site.scope)) :=
    h.resolve_alike htarget hextended _
  rw [lowerSite, lowerSite, ← h.chain_eq]
  refine (lowerAccess_eq_of_alike (halike.imp fun offers others hoffers => ?_) fun _ => ?_).symm
  · exact hoffers.imp fun _ _ hoffer => ⟨hoffer.1.toTwin, hoffer.2⟩
  rw [typeName?, typeName?, h.type?_eq htarget]

/-- Under `Gains`, a use of a declared member is lowered as before. -/
theorem lowerSite_eq_of_declared {site : AccessSite} {owner : TypeHash} {member : String}
    {kind : AccessKind} {receiver : Option Operand} {args : List Operand}
    (hform : (registry.lowerSite site).1.form = .declared owner member kind receiver args) :
    later.lowerSite site = ((registry.lowerSite site).1, .empty) := by
  have hok : (registry.lowerSite site).1.form ≠ .error := by simp [hform]
  obtain ⟨type, found, hanswer⟩ := exists_declared_of_form hform
  obtain ⟨hqualifying, hdeclared⟩ := resolve_eq_declared_iff_declared?.1 hanswer
  -- The type asked declares a member, so it is not the own type of the new extension.
  have hreceiver : site.access.target ≠ added.hash := by
    intro heq
    have hreceiver : (MemberQuery.ofSite site).receiver = added.hash := heq
    rw [declared?, hreceiver, bases_eq_nil h.new] at hdeclared
    cases hdeclared
  -- So the same declared member is found, before any extension is looked at.
  have hlater : later.resolve (.ofSite site) (later.chain site.scope) = .declared type found := by
    refine resolve_eq_declared_iff_declared?.2 ⟨?_, ?_⟩
    · have hrel : Option.Rel Extension.Same (registry.qualifyingExtension? (.ofSite site))
        (later.qualifyingExtension? (.ofSite site)) := h.qualifyingExtension? hreceiver
      rw [hqualifying] at hrel
      generalize later.qualifyingExtension? (.ofSite site) = qualifying at hrel
      cases hrel
      rfl
    · have hbases : registry.bases (MemberQuery.ofSite site).receiver =
        later.bases (MemberQuery.ofSite site).receiver := h.bases_eq hreceiver
      rw [declared?, ← hbases]
      exact hdeclared
  have hreport : (registry.lowerSite site).2 = .empty := report_of_form_ne_error hok
  rw [← hreport, lowerSite, lowerSite, hlater, hanswer]
  rfl

end Gains

end Registry

/-! ## The registry of a program with one more extension -/

section Insertion

variable {α : Type} (test : α → Bool) {added : α} (h : test added = false) (before after : List α)

include h

theorem find?_reverse_insert :
    (before ++ added :: after).reverse.find? test = (before ++ after).reverse.find? test := by
  simp [h]

theorem filter_insert : (before ++ added :: after).filter test = (before ++ after).filter test := by
  simp [h]

end Insertion

/-- A declaration with another hash does not change the last of `registeredTypes` with some hash. -/
theorem find?_registeredTypes_insert {added : Declared} {rest rest' : List Declared}
    (hrest : List.Forall₂ Declared.Same rest rest') (front : List Declared) {hash : TypeHash}
    (hne : added.bare.hash ≠ hash) :
    (registeredTypes (front ++ added :: rest')).reverse.find? (·.hash = hash) =
      (registeredTypes (front ++ rest)).reverse.find? (·.hash = hash) := by
  have hbare : rest.map (·.bare) = rest'.map (·.bare) :=
    map_eq_of_forall₂ (fun _ _ hsame => hsame.bare_eq) hrest
  rw [registeredTypes, registeredTypes, List.map_append, List.map_append, List.map_cons, ← hbare,
    ← List.append_assoc, ← List.append_assoc]
  exact find?_reverse_insert (fun type : NamedType => type.hash = hash) (decide_eq_false hne) _ _

namespace Registry

section

variable {registry later : Registry} {scopes : List PlacedScope} {front rest rest' : List Declared}
  {id : ExtensionId} {name : QualifiedName} {scope : ScopeId} {declaration : ExtensionDeclaration}
  (h : Versions (fun _ => True) (· ≠ name.name) registry later scopes scopes (front ++ rest)
    (front ++ .extension id name scope declaration :: rest'))
  (hrest : List.Forall₂ Declared.Same rest rest')
  (hnames : ∀ next ∈ front ++ rest, ∀ other ∈ next.typeNames, other ≠ name.name)

include h

/-- A declaration that refers to other names has the same `Declared.finished?` in both versions. -/
theorem Versions.same_finished? {next other : Declared} (hsame : next.Same other)
    (hin : next ∈ front ++ rest) (hnames : ∀ other ∈ next.typeNames, other ≠ name.name) :
    Option.Rel Extension.Same (next.finished? registry) (other.finished? later) := by
  have hscope : SameScope (fun _ => True) scopes next.scope next.scope :=
    h.placed.sameScope hin fun _ _ => trivial
  exact rel_imp (fun _ _ hextension => { hextension with scopes := hextension.scopes.1 })
    (h.agrees.counterpart_finished? (Declared.Counterpart.of_eq hsame hscope) hnames)

include hrest hnames

/-- The new extension stands among the other `extensions`, which are the same. -/
theorem Versions.extensions_insert : ∃ before before' after after' added,
    registry.extensions = before ++ after ∧ later.extensions = before' ++ added :: after' ∧
      added.name = name ∧ List.Forall₂ Extension.Same before before' ∧
      List.Forall₂ Extension.Same after after' := by
  -- Declarations that are the same in both versions are finished alike.
  have hfinished : ∀ {part part' : List Declared}, List.Forall₂ Declared.Same part part' →
      part ⊆ front ++ rest → List.Forall₂ Extension.Same (part.filterMap (·.finished? registry))
        (part'.filterMap (·.finished? later)) := by
    intro part part' hpart hsubset
    refine List.rel_filterMap (fun next other hnext => ?_)
      ((List.forall₂_and_left _ _).2 ⟨fun next hnext => hsubset hnext, hpart⟩)
    exact h.same_finished? hnext.2 hnext.1 (hnames next hnext.1)
  have hfront := hfinished (List.forall₂_same.2 fun next _ => next.same_refl)
    (List.subset_append_left front rest)
  obtain ⟨added, hadded, hname⟩ : ∃ added,
    (Declared.extension id name scope declaration).finished? later = some added ∧
      added.name = name := ⟨_, rfl, rfl⟩
  refine ⟨_, _, _, _, added, ?_, ?_, hname, hfront,
    hfinished hrest (List.subset_append_right front rest)⟩
  · rw [h.holds.extensions_eq, List.filterMap_append]
  · rw [h.other_holds.extensions_eq, List.filterMap_append, List.filterMap_cons_some hadded]

/-- Types (`type?`) other than the own type of the new extension stay as they are. -/
theorem Versions.type?_insert {hash : TypeHash} (hne : hash ≠ name.hash) :
    registry.type? hash = later.type? hash := by
  have hbare : (Declared.extension id name scope declaration).bare.hash ≠ hash := hne.symm
  refine h.type?_eq ?_ (find?_registeredTypes_insert hrest front hbare).symm fun last hlast => ?_
  · rw [List.filterMap_append, List.filterMap_append, List.filterMap_cons_none rfl]
    refine congrArg _ (List.forall₂_eq_eq_eq ▸ List.rel_filterMap (fun _ _ hsame => ?_) hrest)
    exact option_rel_eq_iff.2 hsame.pendingType?_eq
  · obtain ⟨_, _, hwritten⟩ := mem_of_find?_pendingType hlast
    exact ⟨h.placed.sameScope hwritten fun _ _ => trivial, hnames _ hwritten⟩

/-- A version with one more extension, whose name is new, has a registry with one more
(`Registry.Gains`). -/
theorem Versions.exists_gains (hnew : registry.containsType name.hash = false) :
    ∃ added ∈ later.extensions, added.name = name ∧ registry.Gains later added := by
  obtain ⟨before, before', after, after', added, hextensions, hextensions', rfl, hbefore, hafter⟩ :=
    h.extensions_insert hrest hnames
  have hothers := List.rel_append hbefore hafter
  refine ⟨added, by simp [hextensions'], rfl, hnew, h.type?_insert hrest hnames, ?_,
    h.chain_eq_of_same, ?_, ?_, ?_⟩
  · -- If the new type were the base of one, it would have been registered before.
    intro hash type htype hbase
    have hin := h.holds.containsType_of_base htype hbase
    exact absurd (hin.symm.trans hnew) (by simp)
  · intro extension extension' hsame
    rw [h.namespaceOf?_eq, namespaceOf?, hsame.scopes, namespaceOf?]
  · -- The new extension is not listed for a type that it does not extend.
    intro hash hextended
    rw [h.holds.extensionsOf_eq, h.other_holds.extensionsOf_eq, hextensions, hextensions',
      filter_insert _ (by simp [hextended])]
    exact List.rel_filter (fun _ _ hsame => Bool.eq_iff_iff.1 (hsame.isListed_eq hash)) hothers
  · -- It is not found for a hash that is not its own.
    intro hash hne
    rw [h.holds.extensionOfType?_eq, h.other_holds.extensionOfType?_eq, hextensions, hextensions',
      find?_reverse_insert (fun extension : Extension => extension.hash = hash)
        (decide_eq_false hne.symm)]
    exact rel_find? (fun _ _ hsame => by rw [hsame.hash_eq]) (List.rel_reverse hothers)

end

section

variable {before after : List SourceFile} {file : SourceFile} {items : List Item}
  {declaration : ExtensionDeclaration} {path : NamespacePath}

/-- The registry of a program gains an extension (`Gains`) that is inserted, if its name is new and
nothing refers to it. -/
theorem exists_gains_of_inserted (hids : ((before ++ file :: after).map (·.id)).Nodup)
    (hinserted : Item.Inserted declaration [] path file.items items) (options : Options)
    (hnew : (assemble (before ++ file :: after) options).registry.containsType
      (QualifiedName.mk path declaration.name).hash = false)
    (hnames : ∀ source ∈ before ++ file :: after,
      declaration.name ∉ (Outline.ofFile source).typeNames) :
    ∃ added ∈ (assemble (before ++ { file with items } :: after) options).registry.extensions,
      added.name = ⟨path, declaration.name⟩ ∧
      (assemble (before ++ file :: after) options).registry.Gains
        (assemble (before ++ { file with items } :: after) options).registry added := by
  have hids' : ((before ++ { file with items } :: after).map (·.id)).Nodup := by
    simpa using hids
  have hholds := holds_assemble hids options
  have hlater := holds_assemble hids' options
  have hwritten := ne_of_mem_typeNames hnames
  have hplaced := wellPlaced_declaredOf (before ++ file :: after)
  obtain ⟨front, rest, rest', id, scope, hdeclared, hdeclared', hrest, hscopes⟩ :=
    declaredOf_insert before after hinserted (hholds.name_ne_of_new hnew)
  rw [hdeclared] at hholds hwritten hplaced
  rw [hdeclared', hscopes] at hlater
  refine Versions.exists_gains ⟨hholds, hlater, hplaced,
    List.forall₂_same.2 fun _ _ => ⟨rfl, rfl, rfl, fun _ => rfl⟩, ?_, ?_⟩ hrest hwritten hnew
  · intro around name hname
    exact (mem_names_insert_iff front hrest fun heq => hname (QualifiedName.mk.inj heq).2).symm
  · intro hash hcontains
    -- A registered type has another hash than the new extension.
    have hhash : (Declared.extension id ⟨path, declaration.name⟩ scope declaration).bare.hash ≠
        hash := by
      rintro rfl
      exact absurd (hcontains.symm.trans hnew) (by simp)
    rw [hholds.heading?_eq, hlater.heading?_eq, find?_registeredTypes_insert hrest front hhash]

/-- With one more extension, whose name is new and not referred to, `lowerSite` lowers uses of
declared members as before and without diagnostics, and so it does, with their diagnostics, all uses
on types other than the own type of the extension and the type that it extends. -/
theorem lowerSite_conservative (hids : ((before ++ file :: after).map (·.id)).Nodup)
    (hinserted : Item.Inserted declaration [] path file.items items) (options : Options)
    (hnew : (assemble (before ++ file :: after) options).registry.containsType
      (QualifiedName.mk path declaration.name).hash = false)
    (hnames : ∀ source ∈ before ++ file :: after,
      declaration.name ∉ (Outline.ofFile source).typeNames) :
    let registry := (assemble (before ++ file :: after) options).registry
    let later := (assemble (before ++ { file with items } :: after) options).registry
    ∃ added ∈ later.extensions, added.name = ⟨path, declaration.name⟩ ∧
      (∀ site owner member kind receiver args,
        (registry.lowerSite site).1.form = .declared owner member kind receiver args →
        later.lowerSite site = ((registry.lowerSite site).1, .empty)) ∧
      ∀ site : AccessSite, site.access.target ≠ added.hash →
        added.extendedHash? ≠ some site.access.target →
        later.lowerSite site = registry.lowerSite site := by
  intro registry later
  obtain ⟨added, hin, hname, hgains⟩ :=
    exists_gains_of_inserted hids hinserted options hnew hnames
  exact ⟨added, hin, hname, fun _ _ _ _ _ _ hform => hgains.lowerSite_eq_of_declared hform,
    fun _ htarget hextended => hgains.lowerSite_eq htarget hextended⟩

end

/-- A class with a method, a class without, and an extension of the second one. -/
def shopFile : SourceFile where
  id := ⟨0⟩
  name := "shop"
  items :=
    [.block ["Shop"]
      [.type ⟨.plainClass, "Shelf", none, [method "Size"], .unplaced⟩,
        .type ⟨.plainClass, "Cart", none, [], .unplaced⟩,
        .extension ⟨"CartTools", some (.parse "Cart"), [], [method "Push"], .unplaced⟩]]
where
  method (name : String) : WrittenMember := { (default : WrittenMember) with name }

/-- An extension of the first class, with a method that the class declares and one of its own. -/
def shelfTools : ExtensionDeclaration :=
  ⟨"ShelfTools", some (.parse "Shelf"), [], [shopFile.method "Size", shopFile.method "Push"],
    .unplaced⟩

/-- The items of `shopFile` with the extension `shelfTools` in front of the other declarations. -/
def shopItems : List Item :=
  [.block ["Shop"]
    [.extension shelfTools,
      .type ⟨.plainClass, "Shelf", none, [shopFile.method "Size"], .unplaced⟩,
      .type ⟨.plainClass, "Cart", none, [], .unplaced⟩,
      .extension ⟨"CartTools", some (.parse "Cart"), [], [shopFile.method "Push"], .unplaced⟩]]

/-- The call of a method on a value of a class of the shop, seen from the shop. -/
def shopCall (type member : String) : AccessSite where
  id := ⟨0⟩
  span := .unplaced
  scope := ⟨1⟩
  access := .onValue ⟨1⟩ (QualifiedName.mk ["Shop"] type).hash
  member
  shape := .invoke []

/-- After `shelfTools` is added to `shopFile`, the size of a shelf and what is pushed to a cart are
computed as before. -/
theorem lowerSite_conservative_shop :
    let registry := (assemble [shopFile] .standard).registry
    let later := (assemble [{ shopFile with items := shopItems }] .standard).registry
    ([shopFile].map (·.id)).Nodup ∧
      Item.Inserted shelfTools [] ["Shop"] shopFile.items shopItems ∧
      registry.containsType (QualifiedName.mk ["Shop"] "ShelfTools").hash = false ∧
      (∀ source ∈ [shopFile], "ShelfTools" ∉ (Outline.ofFile source).typeNames) ∧
      later.extensions.length = 2 ∧
      later.lowerSite (shopCall "Shelf" "Size") =
        ((registry.lowerSite (shopCall "Shelf" "Size")).1, .empty) ∧
      later.lowerSite (shopCall "Cart" "Push") = registry.lowerSite (shopCall "Cart" "Push") := by
  intro registry later
  have hids : ([shopFile].map (·.id)).Nodup := List.nodup_singleton _
  have hinserted : Item.Inserted shelfTools [] ["Shop"] shopFile.items shopItems :=
    .within [] [] (.here ["Shop"] [] _)
  have hnew : registry.containsType (QualifiedName.mk ["Shop"] "ShelfTools").hash = false := by
    decide +kernel
  have hnames : ∀ source ∈ [shopFile], "ShelfTools" ∉ (Outline.ofFile source).typeNames := by
    intro source hsource
    rw [List.mem_singleton.1 hsource]
    decide +kernel
  obtain ⟨added, hin, hname, hdeclared, hother⟩ :=
    @lowerSite_conservative [] [] shopFile shopItems shelfTools ["Shop"] hids hinserted .standard
      hnew hnames
  have hsize : (registry.lowerSite (shopCall "Shelf" "Size")).1.form =
      .declared (QualifiedName.mk ["Shop"] "Shelf").hash "Size" .invoke (some (.temp ⟨0⟩)) [] := by
    decide +kernel
  have hcart : ∀ extension ∈ later.extensions, extension.name = ⟨["Shop"], "ShelfTools"⟩ →
      (QualifiedName.mk ["Shop"] "Cart").hash ≠ extension.hash ∧
        extension.extendedHash? ≠ some (QualifiedName.mk ["Shop"] "Cart").hash := by
    decide +kernel
  obtain ⟨htarget, hextended⟩ := hcart added hin hname
  exact ⟨hids, hinserted, hnew, hnames, by decide +kernel, hdeclared _ _ _ _ _ _ hsize,
    hother _ htarget hextended⟩

end Registry

end ExtensionMembers
