import ExtensionMembers.Proofs.Lookup.Priority
import ExtensionMembers.Proofs.Namespace.ImportSets
import ExtensionMembers.Proofs.Namespace.Search

/-!
# The rule for type names

What a type name means is laid down here without the steps of the search. A simple name is decided
at the first level of the chain that mentions it, where the namespace of the level goes before the
imports. A name with a path is decided by the first of the paths of the levels, with the empty path
after them, within which the path leads to a namespace that declares the name; imports have no part
in it.

## Main definitions

* `NamespaceTree.MentionedAt`: a level has a declaration for a simple name.
* `NamespaceTree.ListsSuppliers`: a list of the imports that supply types for a simple name.
* `NamespaceTree.SimpleMeaning`, `NamespaceTree.QualifiedMeaning`: the rule.

## Main results

* `NamespaceTree.listsSuppliers_imported`: the candidates that a level supplies for a name.
* `NamespaceTree.resolveSimple_iff`, `NamespaceTree.resolveWithin_iff`: names are resolved by the
  rule.
-/

namespace ExtensionMembers

namespace NamespaceTree

/-! ## The rule -/

/-- A level has a declaration for a simple name, in its own namespace or in an import (`Offers`). -/
def MentionedAt (tree : NamespaceTree) (name : String) (level : ScopeLevel) : Prop :=
  (∃ hash, tree.typeIn? level.namespaceId name = some hash) ∨
    ∃ candidate, tree.Offers name level candidate

/-- The `candidates` are the types that the imports of a level supply for a simple name (`Offers`),
each once and with the first import that supplies it, in the order of these imports. -/
structure ListsSuppliers (tree : NamespaceTree) (name : String) (level : ScopeLevel)
    (candidates : List (NamespaceId × TypeHash)) : Prop where
  /-- No type comes twice. -/
  nodup : (candidates.map (·.2)).Nodup
  /-- What is listed is a type with the first import that supplies it. -/
  mem_iff : ∀ candidate, candidate ∈ candidates ↔
    IsFirst (fun id => tree.typeIn? id name = some candidate.2) level.imports candidate.1
  /-- Earlier imports come first. -/
  ordered : candidates.Pairwise fun candidate later =>
    level.imports.idxOf candidate.1 < level.imports.idxOf later.1

/-- What a simple name means: the first level where it is `MentionedAt` decides. -/
inductive SimpleMeaning (tree : NamespaceTree) (name : String) (chain : ScopeChain) :
    NameMeaning → Prop
  /-- The namespace of the level declares it. -/
  | own {level : ScopeLevel} {hash : TypeHash} :
      IsFirst (tree.MentionedAt name) chain.levels level →
      tree.typeIn? level.namespaceId name = some hash →
      SimpleMeaning tree name chain (.found hash)
  /-- The imports of the level that declare it supply one type. -/
  | imported {level : ScopeLevel} {hash : TypeHash} :
      IsFirst (tree.MentionedAt name) chain.levels level →
      tree.typeIn? level.namespaceId name = none →
      (∀ candidate, tree.Offers name level candidate → candidate.2 = hash) →
      SimpleMeaning tree name chain (.found hash)
  /-- They supply several types. -/
  | ambiguous {level : ScopeLevel} {candidates : List (NamespaceId × TypeHash)} :
      IsFirst (tree.MentionedAt name) chain.levels level →
      tree.typeIn? level.namespaceId name = none →
      2 ≤ candidates.length → tree.ListsSuppliers name level candidates →
      SimpleMeaning tree name chain (.ambiguous candidates)
  /-- No level mentions it. -/
  | notFound : (∀ level ∈ chain.levels, ¬ tree.MentionedAt name level) →
      SimpleMeaning tree name chain .notFound

/-- There is a namespace with the path, and it declares a type by the simple name (`typeIn?`). -/
def DeclaresAt (tree : NamespaceTree) (path : NamespacePath) (name : String) (hash : TypeHash) :
    Prop :=
  ∃ id, tree.path? id = some path ∧ tree.typeIn? id name = some hash

/-- What a simple name after a path means, where the path is taken within `bases` in turn: the first
one decides within which it leads to a namespace that declares the name (`DeclaresAt`). -/
inductive QualifiedMeaning (tree : NamespaceTree) (path : NamespacePath) (name : String)
    (bases : List NamespacePath) : NameMeaning → Prop
  /-- The path leads to a declaration. -/
  | found {base : NamespacePath} {hash : TypeHash} :
      IsFirst (fun base => ∃ hash, tree.DeclaresAt (base ++ path) name hash) bases base →
      tree.DeclaresAt (base ++ path) name hash →
      QualifiedMeaning tree path name bases (.found hash)
  /-- It leads to none. -/
  | notFound : (∀ base ∈ bases, ∀ hash, ¬ tree.DeclaresAt (base ++ path) name hash) →
      QualifiedMeaning tree path name bases .notFound

variable {tree : NamespaceTree} {name : String} {level : ScopeLevel} {chain : ScopeChain}
  {hash : TypeHash} {candidates : List (NamespaceId × TypeHash)}

/-! ## The imports of a level -/

/-- `imported` with one more import in front: if it declares the name, it goes before those that
supply another type for it. -/
theorem imported_cons (tree : NamespaceTree) (name : String) (space id : NamespaceId)
    (imports : List NamespaceId) :
    tree.imported name ⟨space, id :: imports⟩ =
      match tree.typeIn? id name with
      | none => tree.imported name ⟨space, imports⟩
      | some hash => (id, hash) ::
          (tree.imported name ⟨space, imports⟩).filter (·.2 ≠ hash) := by
  unfold imported
  cases htype : tree.typeIn? id name with
  | none => simp [htype]
  | some hash => simp [htype, firstPerType]

/-- The candidates that `imported` lists are the types that are supplied, each with its first
import. -/
theorem mem_imported_iff (tree : NamespaceTree) (name : String) (space : NamespaceId)
    (imports : List NamespaceId) (candidate : NamespaceId × TypeHash) :
    candidate ∈ tree.imported name ⟨space, imports⟩ ↔
      IsFirst (fun id => tree.typeIn? id name = some candidate.2) imports candidate.1 := by
  induction imports with
  | nil => exact iff_of_false List.not_mem_nil (by rintro ⟨before, after, hlist, _⟩; simp at hlist)
  | cons id imports ih =>
    rw [imported_cons, isFirst_cons_iff, ← ih]
    cases htype : tree.typeIn? id name with
    | none => simp
    | some hash =>
      obtain ⟨other, type⟩ := candidate
      by_cases hsame : type = hash
      · simp [hsame]
      · simp [hsame, Ne.symm hsame]

/-- The candidates that `imported` lists come in the order of their imports. -/
theorem pairwise_imported (tree : NamespaceTree) (name : String) (space : NamespaceId)
    (imports : List NamespaceId) :
    (tree.imported name ⟨space, imports⟩).Pairwise fun candidate later =>
      imports.idxOf candidate.1 < imports.idxOf later.1 := by
  induction imports with
  | nil => exact .nil
  | cons id imports ih =>
    -- What another import supplies stands one place later than among the imports after the first.
    have hlater : ∀ {candidate}, candidate ∈ tree.imported name ⟨space, imports⟩ →
        tree.typeIn? id name ≠ some candidate.2 →
        (id :: imports).idxOf candidate.1 = imports.idxOf candidate.1 + 1 := by
      intro candidate hin hother
      obtain ⟨_, _, _, hsupplied, _⟩ := (mem_imported_iff tree name space imports candidate).1 hin
      exact List.idxOf_cons_ne imports fun heq => hother (heq ▸ hsupplied)
    rw [imported_cons]
    cases htype : tree.typeIn? id name with
    | none =>
      refine ih.imp_of_mem fun hin hin' hlt => ?_
      rw [hlater hin (by simp [htype]), hlater hin' (by simp [htype])]
      exact Nat.succ_lt_succ hlt
    | some hash =>
      have hother : ∀ {candidate : NamespaceId × TypeHash},
          candidate ∈ (tree.imported name ⟨space, imports⟩).filter (·.2 ≠ hash) →
          (id :: imports).idxOf candidate.1 = imports.idxOf candidate.1 + 1 := by
        intro candidate hin
        obtain ⟨hin, hne⟩ := List.mem_filter.1 hin
        refine hlater hin fun heq => of_decide_eq_true hne ?_
        exact (Option.some.inj (htype.symm.trans heq)).symm
      refine List.pairwise_cons.2 ⟨fun candidate hin => ?_, ?_⟩
      · rw [hother hin, List.idxOf_cons_self]
        exact Nat.succ_pos _
      · refine (ih.filter _).imp_of_mem fun hin hin' hlt => ?_
        rw [hother hin, hother hin']
        exact Nat.succ_lt_succ hlt

/-- `imported` lists what is supplied for a name (`ListsSuppliers`). -/
theorem listsSuppliers_imported (tree : NamespaceTree) (name : String) (level : ScopeLevel) :
    tree.ListsSuppliers name level (tree.imported name level) where
  nodup := (firstPerType_spec _).1
  mem_iff := mem_imported_iff tree name level.namespaceId level.imports
  ordered := pairwise_imported tree name level.namespaceId level.imports

namespace ListsSuppliers

/-- There is one list by `ListsSuppliers`. -/
theorem unique {others : List (NamespaceId × TypeHash)}
    (h : tree.ListsSuppliers name level candidates)
    (hothers : tree.ListsSuppliers name level others) : candidates = others := by
  refine List.Perm.eq_of_pairwise (fun _ _ _ _ hlt hgt => ?_) h.ordered hothers.ordered
    ((List.perm_ext_iff_of_nodup h.nodup.of_map hothers.nodup.of_map).2 fun candidate => ?_)
  · exact absurd hlt (Nat.lt_asymm hgt)
  · rw [h.mem_iff, hothers.mem_iff]

/-- `ListsSuppliers` lists only what imports supply (`Offers`). -/
theorem offers (h : tree.ListsSuppliers name level candidates)
    {candidate : NamespaceId × TypeHash} (hin : candidate ∈ candidates) :
    tree.Offers name level candidate := by
  obtain ⟨before, after, himports, hsupplied, _⟩ := (h.mem_iff candidate).1 hin
  exact ⟨by simp [himports], hsupplied⟩

/-- `ListsSuppliers` lists every type that is supplied (`Offers`). -/
theorem exists_mem (h : tree.ListsSuppliers name level candidates)
    {candidate : NamespaceId × TypeHash} (hoffers : tree.Offers name level candidate) :
    ∃ first, (first, candidate.2) ∈ candidates := by
  obtain ⟨first, hfirst⟩ : ∃ first,
      IsFirst (fun id => tree.typeIn? id name = some candidate.2) level.imports first :=
    exists_isFirst ⟨candidate.1, hoffers⟩
  exact ⟨first, (h.mem_iff _).2 hfirst⟩

end ListsSuppliers

/-! ## Simple names -/

/-- `meaningAt` leaves the name to the imports where the namespace of the level does not declare
it. -/
theorem meaningAt_of_none (h : tree.typeIn? level.namespaceId name = none) :
    tree.meaningAt name level = .ofCandidates (tree.imported name level) := by
  rw [meaningAt, h]

/-- `meaningAt` finds a meaning at the levels where the name is `MentionedAt`. -/
theorem meaningAt_ne_notFound_iff :
    tree.meaningAt name level ≠ .notFound ↔ tree.MentionedAt name level := by
  have hlists := listsSuppliers_imported tree name level
  unfold meaningAt MentionedAt
  cases tree.typeIn? level.namespaceId name with
  | some hash => exact iff_of_true NameMeaning.noConfusion (.inl ⟨hash, rfl⟩)
  | none =>
    have hnotFound : NameMeaning.ofCandidates (tree.imported name level) ≠ .notFound ↔
        tree.imported name level ≠ [] := by
      cases tree.imported name level with
      | nil => simp [NameMeaning.ofCandidates]
      | cons first rest => cases rest <;> simp [NameMeaning.ofCandidates]
    refine hnotFound.trans ⟨fun hne => ?_, ?_⟩
    · obtain ⟨candidate, hin⟩ := List.exists_mem_of_ne_nil _ hne
      exact .inr ⟨candidate, hlists.offers hin⟩
    · rintro (⟨hash, hhash⟩ | ⟨candidate, hoffers⟩)
      · cases hhash
      · obtain ⟨first, hin⟩ := hlists.exists_mem hoffers
        exact List.ne_nil_of_mem hin

/-- `resolveSimple` is decided by the first level where the name is `MentionedAt`. -/
theorem resolveSimple_of_isFirst (h : IsFirst (tree.MentionedAt name) chain.levels level) :
    tree.resolveSimple name chain = tree.meaningAt name level := by
  have hfind : chain.levels.find? (fun level => tree.meaningAt name level ≠ .notFound) =
      some level :=
    (find?_eq_some_iff_isFirst fun _ => by simp [meaningAt_ne_notFound_iff]).2 h
  rw [resolveSimple, List.find?_map]
  exact congrArg (fun found => (found.map (tree.meaningAt name)).getD .notFound) hfind

/-- `resolveSimple` finds nothing for a name that is `MentionedAt` no level. -/
theorem resolveSimple_of_not_mentioned
    (h : ∀ level ∈ chain.levels, ¬ tree.MentionedAt name level) :
    tree.resolveSimple name chain = .notFound := by
  have hfind : (chain.levels.map (tree.meaningAt name)).find? (· ≠ .notFound) = none := by
    rw [List.find?_eq_none, List.forall_mem_map]
    intro level hlevel
    have hnone := mt meaningAt_ne_notFound_iff.1 (h level hlevel)
    simpa using hnone
  rw [resolveSimple, hfind]
  rfl

/-- `meaningAt` is the one type that imports supply. -/
theorem meaningAt_of_imported (hmentioned : tree.MentionedAt name level)
    (hnone : tree.typeIn? level.namespaceId name = none)
    (hall : ∀ candidate, tree.Offers name level candidate → candidate.2 = hash) :
    tree.meaningAt name level = .found hash := by
  have hlists := listsSuppliers_imported tree name level
  have hfound := meaningAt_ne_notFound_iff.2 hmentioned
  rw [meaningAt_of_none hnone] at hfound ⊢
  generalize tree.imported name level = candidates at hlists hfound ⊢
  match candidates with
  | [] => exact absurd rfl hfound
  | [candidate] =>
    exact congrArg NameMeaning.found (hall candidate (hlists.offers List.mem_cons_self))
  | first :: second :: rest =>
    -- Both would supply the same type.
    have hfirst := hall first (hlists.offers (by simp))
    have hsecond := hall second (hlists.offers (by simp))
    exact absurd hlists.nodup (by simp [hfirst, hsecond])

/-- `meaningAt` is ambiguous where imports supply several types. -/
theorem meaningAt_of_ambiguous (hnone : tree.typeIn? level.namespaceId name = none)
    (hseveral : 2 ≤ candidates.length) (hlists : tree.ListsSuppliers name level candidates) :
    tree.meaningAt name level = .ambiguous candidates := by
  rw [meaningAt_of_none hnone, (listsSuppliers_imported tree name level).unique hlists]
  match candidates with
  | [] | [_] => simp at hseveral
  | _ :: _ :: _ => rfl

/-- `meaningAt`, at the first level that mentions the name, is its `SimpleMeaning`. -/
theorem simpleMeaning_meaningAt (h : IsFirst (tree.MentionedAt name) chain.levels level) :
    tree.SimpleMeaning name chain (tree.meaningAt name level) := by
  have hlists := listsSuppliers_imported tree name level
  have hfound : tree.meaningAt name level ≠ .notFound := by
    obtain ⟨_, _, _, hmentioned, _⟩ := h
    exact meaningAt_ne_notFound_iff.2 hmentioned
  cases hown : tree.typeIn? level.namespaceId name with
  | some hash =>
    rw [meaningAt, hown]
    exact .own h hown
  | none =>
    rw [meaningAt_of_none hown] at hfound ⊢
    generalize tree.imported name level = candidates at hlists hfound ⊢
    -- No candidate, one, or several: the first case is out, as the name has a meaning here.
    match candidates with
    | [] => exact absurd rfl hfound
    | [candidate] =>
      refine .imported h hown fun other hoffers => ?_
      obtain ⟨first, hin⟩ := hlists.exists_mem hoffers
      exact congrArg (·.2) (List.mem_singleton.1 hin)
    | first :: second :: rest => exact .ambiguous h hown (by simp) hlists

/-- `resolveSimple` gives the `SimpleMeaning` of a name. -/
theorem resolveSimple_iff {meaning : NameMeaning} :
    tree.resolveSimple name chain = meaning ↔ tree.SimpleMeaning name chain meaning := by
  -- The first level that mentions the name decides on both sides, if there is one.
  constructor
  · rintro rfl
    by_cases hmentioned : ∃ level ∈ chain.levels, tree.MentionedAt name level
    · obtain ⟨level, hfirst⟩ := exists_isFirst hmentioned
      rw [resolveSimple_of_isFirst hfirst]
      exact simpleMeaning_meaningAt hfirst
    · push Not at hmentioned
      rw [resolveSimple_of_not_mentioned hmentioned]
      exact .notFound hmentioned
  · intro h
    cases h with
    | own hfirst hown => rw [resolveSimple_of_isFirst hfirst, meaningAt, hown]
    | imported hfirst hnone hall =>
      have hmentioned := hfirst
      obtain ⟨_, _, _, hmentioned, _⟩ := hmentioned
      rw [resolveSimple_of_isFirst hfirst, meaningAt_of_imported hmentioned hnone hall]
    | ambiguous hfirst hnone hseveral hlists =>
      rw [resolveSimple_of_isFirst hfirst, meaningAt_of_ambiguous hnone hseveral hlists]
    | notFound hnone => exact resolveSimple_of_not_mentioned hnone

/-! ## Names with a path -/

/-- `DeclaresAt` is looked up by the path (`idOf?`). -/
theorem declaresAt_iff (hproper : tree.Proper) {path : NamespacePath} :
    tree.DeclaresAt path name hash ↔
      ((tree.idOf? path).bind fun id => tree.typeIn? id name) = some hash := by
  simp only [DeclaresAt, Option.bind_eq_some_iff, idOf?_eq_some_iff hproper.nodup]

/-- `follow?` from the namespaces of the levels, and from the global one, looks a path up within
their paths. -/
theorem findSome?_follow? (hproper : tree.Proper) {bases : List NamespacePath}
    (hbases : List.Forall₂ (fun level base => tree.path? level.namespaceId = some base)
      chain.levels bases) (path : NamespacePath) (name : String) :
    (chain.levels.map (·.namespaceId) ++ [root]).findSome? (fun start =>
        (tree.follow? start path).bind fun id => tree.typeIn? id name) =
      (bases ++ [[]]).findSome? fun base =>
        (tree.idOf? (base ++ path)).bind fun id => tree.typeIn? id name := by
  have hstarts : List.Forall₂ (fun start base => tree.path? start = some base)
      (chain.levels.map (·.namespaceId) ++ [root]) (bases ++ [[]]) :=
    List.rel_append (List.forall₂_map_left_iff.2 hbases) (.cons hproper.root .nil)
  refine option_rel_eq_iff.1 (rel_findSome? (fun start base hstart => ?_) hstarts)
  rw [follow?_eq_idOf? hproper hstart]
  exact option_rel_eq_iff.2 rfl

/-- `resolveWithin` gives the `QualifiedMeaning` of a name with a path, given the paths of the
levels. -/
theorem resolveWithin_iff (hproper : tree.Proper) {bases : List NamespacePath}
    (hbases : List.Forall₂ (fun level base => tree.path? level.namespaceId = some base)
      chain.levels bases) {path : NamespacePath} {meaning : NameMeaning} :
    tree.resolveWithin path name chain = meaning ↔
      tree.QualifiedMeaning path name (bases ++ [[]]) meaning := by
  unfold resolveWithin
  dsimp only
  rw [findSome?_follow? hproper hbases]
  -- A search that finds something, and one that does not, in terms of declarations.
  have hfound : ∀ hash, ((bases ++ [[]]).findSome? fun base =>
      (tree.idOf? (base ++ path)).bind fun id => tree.typeIn? id name) = some hash ↔
      ∃ base, IsFirst (fun base => ∃ hash, tree.DeclaresAt (base ++ path) name hash)
          (bases ++ [[]]) base ∧ tree.DeclaresAt (base ++ path) name hash := by
    intro hash
    rw [findSome?_eq_some_iff_isFirst]
    simp only [declaresAt_iff hproper]
  have hmissing : ((bases ++ [[]]).findSome? fun base =>
      (tree.idOf? (base ++ path)).bind fun id => tree.typeIn? id name) = none ↔
      ∀ base ∈ bases ++ [[]], ∀ hash, ¬ tree.DeclaresAt (base ++ path) name hash := by
    rw [List.findSome?_eq_none_iff]
    simp only [declaresAt_iff hproper, Option.eq_none_iff_forall_ne_some, ne_eq]
  generalize ((bases ++ [[]]).findSome? fun base =>
    (tree.idOf? (base ++ path)).bind fun id => tree.typeIn? id name) = result at hfound hmissing ⊢
  constructor
  · rintro rfl
    cases result with
    | some hash =>
      obtain ⟨base, hfirst, hhash⟩ := (hfound hash).1 rfl
      exact .found hfirst hhash
    | none => exact .notFound (hmissing.1 rfl)
  · intro h
    cases h with
    | found hfirst hhash => rw [(hfound _).2 ⟨_, hfirst, hhash⟩]
    | notFound hnone => rw [hmissing.2 hnone]

theorem resolveType_concat {path : NamespacePath} (hpath : path ≠ []) (name : String)
    (chain : ScopeChain) :
    tree.resolveType (path ++ [name]) chain = tree.resolveWithin path name chain := by
  rw [resolveType, List.getLast?_concat]
  dsimp only
  rw [List.dropLast_concat, if_neg hpath]

end NamespaceTree

end ExtensionMembers
