import ExtensionMembers.Proofs.Build.Agreement
import ExtensionMembers.Proofs.Build.Places

/-!
# Versions of a program

Two versions of a program have the same scopes, up to the using directives in some of the files.
Then their namespaces are the same as well, and scopes outside of these files see the same.

* `PlacedScope.SameOutside`: a scope in two versions of a program.
* `Registry.Versions`: the registries of two versions, with the same types of some simple names.
* `Registry.Versions.agrees`: they agree on these names, seen from outside the files that differ.
* `Registry.Versions.chain_eq`: the chains of scopes outside the files that differ.
-/

namespace ExtensionMembers

/-- `outlinesOf` a version with other items in one file has the outline of the file in the same
place. -/
theorem outlinesOf_replace (before after : List SourceFile) (file : SourceFile)
    (items : List Item) :
    ∃ earlier later, outlinesOf (before ++ file :: after) = earlier ++ .ofFile file :: later ∧
      outlinesOf (before ++ { file with items } :: after) =
        earlier ++ .ofFile { file with items } :: later := by
  rw [outlinesOf, outlinesOf, List.map_append, List.map_append]
  exact stableSort_replace (by rw [Outline.file_ofFile, Outline.file_ofFile]) _ _

/-- A scope in two versions of a program, with the same using directives if it lies in a file
`outside` of those that differ. -/
structure PlacedScope.SameOutside (outside : FileId → Prop) (placed other : PlacedScope) :
    Prop where
  file_eq : placed.file = other.file
  parent_eq : placed.parent = other.parent
  path_eq : placed.path = other.path
  usings_eq : outside placed.file → placed.usings = other.usings

/-- A scope stands for itself in another version if its file is `outside` of those that differ. -/
def SameScope (outside : FileId → Prop) (scopes : List PlacedScope) (id other : ScopeId) : Prop :=
  id = other ∧ ∃ placed, scopes[id.index]? = some placed ∧ outside placed.file

/-- A `WellPlaced` declaration lies in a scope whose file is outside of those that differ. -/
theorem WellPlaced.sameScope {outside : FileId → Prop} {scopes : List PlacedScope}
    {declared : List Declared} (hplaced : WellPlaced scopes declared) {next : Declared}
    (hnext : next ∈ declared)
    (houtside : ∀ placed, scopes[next.scope.index]? = some placed → outside placed.file) :
    SameScope outside scopes next.scope next.scope := by
  obtain ⟨placed, hscope, _⟩ := hplaced.within next hnext
  exact ⟨rfl, placed, hscope, houtside placed hscope⟩

namespace Registry

/-- The registries of two versions of a program, with the same types of the simple names of
`names`. -/
structure Versions (outside : FileId → Prop) (names : String → Prop) (registry other : Registry)
    (scopes scopes' : List PlacedScope) (declared declared' : List Declared) : Prop where
  holds : registry.Holds scopes declared
  other_holds : other.Holds scopes' declared'
  placed : WellPlaced scopes declared
  scopes_same : List.Forall₂ (PlacedScope.SameOutside outside) scopes scopes'
  names_iff : ∀ path {name}, names name →
    ((⟨path, name⟩ : QualifiedName) ∈ (registeredTypes declared).map (·.name) ↔
      (⟨path, name⟩ : QualifiedName) ∈ (registeredTypes declared').map (·.name))
  heading?_eq : ∀ {hash}, registry.containsType hash = true →
    (registry.type? hash).map (·.heading) = (other.type? hash).map (·.heading)

namespace Versions

variable {outside : FileId → Prop} {names : String → Prop} {registry other : Registry}
  {scopes scopes' : List PlacedScope} {declared declared' : List Declared}
  (h : Versions outside names registry other scopes scopes' declared declared')

include h

theorem map_path_eq : scopes.map (·.path) = scopes'.map (·.path) :=
  map_eq_of_forall₂ (fun _ _ hsame => hsame.path_eq) h.scopes_same

theorem paths_eq : registry.namespaces.paths = other.namespaces.paths := by
  rw [h.holds.paths_eq, h.other_holds.paths_eq, h.map_path_eq]

theorem samePaths : registry.namespaces.SamePaths other.namespaces :=
  ⟨h.holds.proper, h.other_holds.proper, fun path => by rw [h.paths_eq]⟩

/-- Under `Versions`, namespaces of the same path have the same place. -/
theorem eq_of_matches {id id' : NamespaceId}
    (hid : registry.namespaces.Matches other.namespaces id id') : id = id' := by
  obtain ⟨path, hpath, hpath'⟩ := hid
  rw [← NamespaceTree.path?_congr h.paths_eq] at hpath'
  exact NamespaceTree.path?_inj h.holds.proper.nodup hpath hpath'

theorem linked : ScopeTable.Linked registry.namespaces other.namespaces registry.scopes
    other.scopes (SameScope outside scopes) := by
  constructor
  · rintro id _ another _ ⟨rfl, _⟩ ⟨rfl, _⟩
    exact Iff.rfl
  · rintro id _ ⟨rfl, placed, hplaced, houtside⟩
    obtain ⟨placed', hplaced', hsame⟩ : ∃ placed', scopes'[id.index]? = some placed' ∧
        placed.SameOutside outside placed' := by
      obtain ⟨hlt, hget⟩ := List.getElem?_eq_some_iff.1 hplaced
      have hlt' := h.scopes_same.length_eq ▸ hlt
      exact ⟨_, List.getElem?_eq_getElem hlt', hget ▸ h.scopes_same.get hlt hlt'⟩
    -- The namespace is the one with the path of the scope in either tree.
    have hnamespace := h.samePaths.matches_idOf? placed.path
    refine ⟨_, _, by rw [h.holds.get?_scopes, hplaced]; rfl,
      by rw [h.other_holds.get?_scopes, hplaced']; rfl, ?_, ?_, ?_⟩
    · rw [hsame.path_eq] at hnamespace
      simpa [PlacedScope.scope, Scope.resolveImports, hsame.path_eq] using hnamespace
    · refine Scope.forall₂_resolveImports h.samePaths ?_ (hsame.usings_eq houtside)
      simpa [PlacedScope.scope, hsame.path_eq] using hnamespace
    · -- The scope around a scope is one of the same file.
      show Option.Rel _ placed.parent placed'.parent
      rw [← hsame.parent_eq]
      cases hparent : placed.parent with
      | none => exact .none
      | some parent =>
        obtain ⟨outer, houter, hfile⟩ := h.placed.parent hplaced hparent
        exact .some ⟨rfl, outer, houter, hfile ▸ houtside⟩

theorem agrees : registry.Agrees other names (SameScope outside scopes) where
  trees :=
    { h.samePaths with
      typeIn?_eq := by
        rintro id id' ⟨path, hpath, hpath'⟩ name hname
        rw [h.holds.typeIn?_eq hpath, h.other_holds.typeIn?_eq hpath']
        exact if_congr (h.names_iff path hname) rfl rfl }
  scopes := h.linked
  registered := h.holds.containsType_of_typeIn?
  heading?_eq := h.heading?_eq

/-- Under `Versions`, scopes outside of the files that differ have the same `Registry.chain`. -/
theorem chain_eq {id : ScopeId} (hid : SameScope outside scopes id id) :
    registry.chain id = other.chain id := by
  have hlevels : (registry.chain id).levels = (other.chain id).levels := by
    rw [← List.forall₂_eq_eq_eq]
    refine (h.agrees.chain hid).imp fun level level' hlevel => ?_
    obtain ⟨hnamespace, himports⟩ := hlevel
    have himports : level.imports = level'.imports := by
      rw [← List.forall₂_eq_eq_eq]
      exact himports.imp fun _ _ hid => h.eq_of_matches hid
    exact congrArg₂ ScopeLevel.mk (h.eq_of_matches hnamespace) himports
  exact congrArg ScopeChain.mk hlevels

/-- Under `Versions`, an extension is declared in the same namespace. -/
theorem namespaceOf?_eq (extension : Extension) :
    registry.namespaceOf? extension = other.namespaceOf? extension := by
  rw [h.holds.namespaceOf?_eq, h.other_holds.namespaceOf?_eq, h.map_path_eq]
  simp only [NamespaceTree.idOf?_congr h.paths_eq]

/-- Under `Versions`, a type is the same if the last declaration of a type with its hash lies
outside of the files that differ. -/
theorem type?_eq (hpending :
      declared.filterMap (·.pendingType?) = declared'.filterMap (·.pendingType?))
    {hash : TypeHash} (hregistered : (registeredTypes declared).reverse.find? (·.hash = hash) =
      (registeredTypes declared').reverse.find? (·.hash = hash))
    (hlast : ∀ last, (declared.filterMap (·.pendingType?)).reverse.find? (·.hash = hash) =
      some last → SameScope outside scopes last.scope last.scope ∧
        ∀ name ∈ last.declaration.typeNames, names name) :
    registry.type? hash = other.type? hash := by
  rw [h.holds.type?_eq, h.other_holds.type?_eq, ← hregistered, ← hpending]
  refine Option.map_congr fun type htype => h.agrees.signed_eq ?_
  have hhash : type.hash = hash := by simpa using List.find?_some htype
  rw [hhash]
  -- Either no declaration has the hash, or the last one is signed alike.
  cases hfound : (declared.filterMap (·.pendingType?)).reverse.find? (·.hash = hash) with
  | none => exact .none
  | some last =>
    obtain ⟨hscope, hnames⟩ := hlast last hfound
    exact .some ⟨hscope, rfl, hnames⟩

omit h in
/-- In `Versions` with the same using directives all chains are the same. -/
theorem chain_eq_of_same (h : Versions (fun _ => True) names registry other scopes scopes' declared
    declared') (id : ScopeId) : registry.chain id = other.chain id := by
  cases hscope : scopes[id.index]? with
  | some placed => exact h.chain_eq ⟨rfl, placed, hscope, trivial⟩
  | none =>
    have hscope' : scopes'[id.index]? = none := by
      rw [List.getElem?_eq_none_iff, ← h.scopes_same.length_eq]
      exact List.getElem?_eq_none_iff.1 hscope
    rw [chain, chain, ScopeTable.chain_eq_nil (by rw [h.holds.get?_scopes, hscope]; rfl),
      ScopeTable.chain_eq_nil (by rw [h.other_holds.get?_scopes, hscope']; rfl)]

end Versions

end Registry

end ExtensionMembers
