import ExtensionMembers.Proofs.Namespace.Agreement

/-!
# Imports as sets

A level imports a set of namespaces: it does not matter to what can be seen from it in which order
its imports come, or how often. Levels with the same sets reach the same namespaces, so that names
of types mean the same. What may differ, if a name is ambiguous, is the order of the candidates;
and if several imports supply a type with the same hash, the one that is named for it.

## Main definitions

* `Scope.SameImports`, `ScopeTable.SameImports`, `ScopeChain.SameImports`: the same scopes and
  chains, with the same sets of imports.
* `NameMeaning.UpTo`: the same meaning, with candidates that are related.
* `NamespaceTree.Interchangeable`: candidates for a name that stand for the same type.

## Main results

* `ScopeTable.SameImports.chain`: the chains in tables with the same sets of imports.
* `ScopeChain.SameImports.upTo_resolveType`: what a name means, seen along such chains.
-/

namespace ExtensionMembers

/-! ## Levels -/

/-- The same level, with the same set of imports (`SameMembers`). -/
structure ScopeLevel.SameImports (level other : ScopeLevel) : Prop where
  namespaceId_eq : level.namespaceId = other.namespaceId
  imports : SameMembers level.imports other.imports

/-- The same levels, with the same sets of imports (`ScopeLevel.SameImports`). -/
def ScopeChain.SameImports (chain other : ScopeChain) : Prop :=
  List.Forall₂ ScopeLevel.SameImports chain.levels other.levels

theorem ScopeLevel.SameImports.reaches_eq {level other : ScopeLevel} (h : level.SameImports other)
    (id : NamespaceId) : level.reaches id = other.reaches id := by
  have hcontains : level.imports.contains id = other.imports.contains id := by
    rw [Bool.eq_iff_iff, List.contains_iff_mem, List.contains_iff_mem]
    exact h.imports id
  rw [reaches, h.namespaceId_eq, hcontains, reaches]

namespace ScopeChain.SameImports

variable {chain other : ScopeChain} (h : chain.SameImports other)

include h

theorem length_eq : chain.levels.length = other.levels.length := List.Forall₂.length_eq h

theorem map_namespaceId_eq :
    chain.levels.map (·.namespaceId) = other.levels.map (·.namespaceId) :=
  map_eq_of_forall₂ (fun _ _ hlevel => hlevel.namespaceId_eq) h

/-- Chains with `SameImports` reach each namespace at the same level. -/
theorem depthOf?_eq (id : NamespaceId) : chain.depthOf? id = other.depthOf? id :=
  findIdx?_eq_of_forall₂ (fun _ _ hlevel => hlevel.reaches_eq id) h

end ScopeChain.SameImports

/-! ## Scopes -/

/-- The same scope, with the same sets of using directives and imports (`SameMembers`). -/
structure Scope.SameImports (scope other : Scope) : Prop where
  file_eq : scope.file = other.file
  parent_eq : scope.parent = other.parent
  namespaceId_eq : scope.namespaceId = other.namespaceId
  usings : SameMembers scope.usings other.usings
  imports : SameMembers scope.imports other.imports

/-- The same scopes, with the same sets of using directives and imports (`Scope.SameImports`). -/
def ScopeTable.SameImports (table other : ScopeTable) : Prop :=
  List.Forall₂ Scope.SameImports table.scopes other.scopes

/-- `resolveImports` keeps `SameImports`: paths in another order mean the same namespaces in another
order. -/
theorem Scope.SameImports.resolveImports {scope other : Scope} (h : scope.SameImports other)
    (tree : NamespaceTree) :
    (scope.resolveImports tree).SameImports (other.resolveImports tree) := by
  refine ⟨h.file_eq, h.parent_eq, h.namespaceId_eq, h.usings, ?_⟩
  rw [Scope.resolveImports, Scope.resolveImports, h.namespaceId_eq]
  exact h.usings.filterMap _

theorem ScopeTable.SameImports.refl (table : ScopeTable) : table.SameImports table :=
  List.forall₂_same.2 fun _ _ => ⟨rfl, rfl, rfl, .refl _, .refl _⟩

namespace ScopeTable.SameImports

variable {table other : ScopeTable} (h : table.SameImports other)

include h

theorem size_eq : table.size = other.size := List.Forall₂.length_eq h

theorem get? (id : ScopeId) : Option.Rel Scope.SameImports (table.get? id) (other.get? id) :=
  rel_getElem? h id.index

/-- What does not look at imports is read off a scope alike in tables with `SameImports`. -/
theorem map_get?_eq {α : Type} {read : Scope → α}
    (hread : ∀ scope other, scope.SameImports other → read scope = read other) (id : ScopeId) :
    (table.get? id).map read = (other.get? id).map read :=
  option_rel_eq_iff.1 (rel_map (P := Eq) (fun _ _ hscope => hread _ _ hscope) (h.get? id))

theorem parent?_eq : table.parent? = other.parent? := by
  funext id
  exact option_rel_eq_iff.1 (rel_bind (P := Eq)
    (fun _ _ hscope => option_rel_eq_iff.2 hscope.parent_eq) (h.get? id))

theorem outward_eq (id : ScopeId) : table.outward id = other.outward id := by
  rw [outward, ids, h.parent?_eq, h.size_eq, outward, ids]

theorem levelsAt (tree : NamespaceTree) (id : ScopeId) :
    List.Forall₂ ScopeLevel.SameImports (table.levelsAt tree id) (other.levelsAt tree id) := by
  have hrel := h.get? id
  unfold ScopeTable.levelsAt
  generalize table.get? id = scope at hrel
  generalize other.get? id = scope' at hrel
  cases hrel with
  | none => exact .nil
  | @some scope scope' hscope =>
    have houter : (scope.parent.bind table.get?).map (·.namespaceId) =
        (scope'.parent.bind other.get?).map (·.namespaceId) := by
      rw [hscope.parent_eq, Option.map_bind, Option.map_bind]
      refine Option.bind_congr fun outer _ => ?_
      exact h.map_get?_eq (fun _ _ hscope => hscope.namespaceId_eq) outer
    dsimp only
    rw [houter, hscope.namespaceId_eq]
    exact .cons ⟨rfl, hscope.imports⟩ (List.forall₂_same.2 fun _ _ => ⟨rfl, .refl _⟩)

/-- `ScopeTable.chain` has `SameImports` in tables that have. -/
theorem chain (tree : NamespaceTree) (id : ScopeId) :
    (table.chain tree id).SameImports (other.chain tree id) := by
  have houtward : List.Forall₂ Eq (table.outward id) (other.outward id) := by
    rw [List.forall₂_eq_eq_eq, h.outward_eq]
  exact List.rel_flatMap houtward fun id _ heq => heq ▸ h.levelsAt tree id

end ScopeTable.SameImports

/-! ## Candidates -/

/-- `firstPerType` leaves candidates for a name of different types, and the same types as before. -/
theorem firstPerType_spec (candidates : List (NamespaceId × TypeHash)) :
    ((firstPerType candidates).map (·.2)).Nodup ∧
      SameMembers ((firstPerType candidates).map (·.2)) (candidates.map (·.2)) := by
  induction candidates with
  | nil => exact ⟨List.nodup_nil, .refl _⟩
  | cons first rest ih =>
    obtain ⟨hnodup, hmembers⟩ := ih
    have hfilter : ((firstPerType rest).filter (·.2 ≠ first.2)).map (·.2) =
        ((firstPerType rest).map (·.2)).filter (· ≠ first.2) := by
      rw [List.filter_map]
      rfl
    rw [firstPerType, List.map_cons, List.map_cons, hfilter]
    refine ⟨List.nodup_cons.2 ⟨by simp, hnodup.filter _⟩, fun hash => ?_⟩
    rw [List.mem_cons, List.mem_cons, List.mem_filter, hmembers]
    by_cases heq : hash = first.2 <;> simp [heq]

/-- The same meaning, with candidates that are related by `Rel` if the name is ambiguous. -/
inductive NameMeaning.UpTo (Rel : NamespaceId × TypeHash → NamespaceId × TypeHash → Prop) :
    NameMeaning → NameMeaning → Prop
  | found (hash : TypeHash) : UpTo Rel (found hash) (found hash)
  | ambiguous {candidates others : List (NamespaceId × TypeHash)} :
    Rearranged Rel candidates others → UpTo Rel (ambiguous candidates) (ambiguous others)
  | notFound : UpTo Rel notFound notFound

namespace NameMeaning

variable {Rel : NamespaceId × TypeHash → NamespaceId × TypeHash → Prop}
  {meaning other : NameMeaning}

theorem UpTo.alike (h : meaning.UpTo Rel other) : meaning.Alike other := by
  cases h with
  | found hash => exact .found hash
  | ambiguous => exact .ambiguous _ _
  | notFound => exact .notFound

theorem upTo_ofCandidates {candidates others : List (NamespaceId × TypeHash)}
    (h : Rearranged Rel candidates others) (htypes : ∀ a b, Rel a b → a.2 = b.2) :
    UpTo Rel (ofCandidates candidates) (ofCandidates others) := by
  have hlength := h.length_eq
  match candidates, others with
  | [], [] => exact .notFound
  | [candidate], [other] =>
    have hsame : [candidate.2].Perm [other.2] := h.map_perm htypes
    rw [ofCandidates, ofCandidates, List.singleton_perm_singleton.1 hsame]
    exact .found _
  | _ :: _ :: _, _ :: _ :: _ => exact .ambiguous h

end NameMeaning

namespace NamespaceTree

/-- An import of a level supplies a type for a simple name (`typeIn?`). -/
def Offers (tree : NamespaceTree) (name : String) (level : ScopeLevel)
    (candidate : NamespaceId × TypeHash) : Prop :=
  candidate.1 ∈ level.imports ∧ tree.typeIn? candidate.1 name = some candidate.2

theorem mem_filterMap_imports_iff {tree : NamespaceTree} {name : String} {level : ScopeLevel}
    {candidate : NamespaceId × TypeHash} :
    candidate ∈ level.imports.filterMap (fun id => (tree.typeIn? id name).map (id, ·)) ↔
      tree.Offers name level candidate := by
  obtain ⟨id, hash⟩ := candidate
  simp [Offers, List.mem_filterMap, Option.map_eq_some_iff]

/-- Two candidates for a name with the same type, both of them imports of one level of a chain that
supply the type (`Offers`). -/
def Interchangeable (tree : NamespaceTree) (pieces : List String) (chain : ScopeChain)
    (candidate other : NamespaceId × TypeHash) : Prop :=
  candidate.2 = other.2 ∧ ∃ name ∈ pieces.getLast?, ∃ level ∈ chain.levels,
    tree.Offers name level candidate ∧ tree.Offers name level other

end NamespaceTree

/-! ## Names -/

namespace ScopeChain.SameImports

variable {chain other : ScopeChain} (h : chain.SameImports other) (tree : NamespaceTree)

/-- `meaningAt` gives a simple name the same meaning at levels with `SameImports`. -/
theorem upTo_meaningAt {name : String} {level level' : ScopeLevel} (hin : level ∈ chain.levels)
    (hlevel : level.SameImports level') :
    (tree.meaningAt name level).UpTo (tree.Interchangeable [name] chain)
      (tree.meaningAt name level') := by
  unfold NamespaceTree.meaningAt
  rw [hlevel.namespaceId_eq]
  split
  · exact .found _
  -- The types that are supplied are the same, and each is left with one candidate.
  · have hsupplied := hlevel.imports.filterMap fun id => (tree.typeIn? id name).map (id, ·)
    obtain ⟨hnodup, htypes⟩ := firstPerType_spec
      (level.imports.filterMap fun id => (tree.typeIn? id name).map (id, ·))
    obtain ⟨hnodup', htypes'⟩ := firstPerType_spec
      (level'.imports.filterMap fun id => (tree.typeIn? id name).map (id, ·))
    have hperm : ((tree.imported name level).map (·.2)).Perm
        ((tree.imported name level').map (·.2)) := by
      refine (List.perm_ext_iff_of_nodup hnodup hnodup').2 fun hash => ?_
      rw [htypes, htypes', List.mem_map, List.mem_map]
      simp only [hsupplied _]
    have hoffers : ∀ candidate ∈ tree.imported name level, tree.Offers name level candidate :=
      fun candidate hcandidate =>
        NamespaceTree.mem_filterMap_imports_iff.1 (firstPerType_subset _ hcandidate)
    have hoffers' : ∀ candidate ∈ tree.imported name level', tree.Offers name level candidate :=
      fun candidate hcandidate => NamespaceTree.mem_filterMap_imports_iff.1
        ((hsupplied _).2 (firstPerType_subset _ hcandidate))
    obtain ⟨middle, hmiddle, hrest⟩ := Rearranged.of_map_perm hperm hoffers hoffers'
    refine NameMeaning.upTo_ofCandidates ⟨middle, hmiddle.imp ?_, hrest⟩ fun _ _ hsame => hsame.1
    exact fun _ _ ⟨htype, hfirst, hsecond⟩ => ⟨htype, name, rfl, level, hin, hfirst, hsecond⟩

include h

theorem resolveWithin_eq (path : NamespacePath) (name : String) :
    tree.resolveWithin path name chain = tree.resolveWithin path name other := by
  rw [NamespaceTree.resolveWithin, h.map_namespaceId_eq, NamespaceTree.resolveWithin]

theorem upTo_resolveSimple (name : String) :
    (tree.resolveSimple name chain).UpTo (tree.Interchangeable [name] chain)
      (tree.resolveSimple name other) := by
  refine NamespaceTree.rel_resolveSimple
    (fun _ _ hmeaning => NameMeaning.ne_notFound_iff hmeaning.alike) .notFound ?_
  rw [List.forall₂_map_left_iff, List.forall₂_map_right_iff]
  refine ((List.forall₂_and_left _ _).2 ⟨fun level hin => hin, h⟩).imp ?_
  exact fun level level' ⟨hin, hlevel⟩ => upTo_meaningAt tree hin hlevel

/-- `resolveType` gives a name the same meaning along chains with `SameImports`. If it is ambiguous,
the candidates may come in another order and with other imports that supply the same types
(`Interchangeable`). -/
theorem upTo_resolveType (pieces : List String) :
    (tree.resolveType pieces chain).UpTo (tree.Interchangeable pieces chain)
      (tree.resolveType pieces other) := by
  unfold NamespaceTree.resolveType
  cases hlast : pieces.getLast? with
  | none => exact .notFound
  | some name =>
    dsimp only
    split
    next hpath =>
      obtain rfl : pieces = [name] := by
        rw [← List.dropLast_append_getLast? name hlast, hpath, List.nil_append]
      exact h.upTo_resolveSimple tree name
    next =>
      rw [h.resolveWithin_eq]
      -- A name with a path is never ambiguous.
      unfold NamespaceTree.resolveWithin
      dsimp only
      split
      · exact .found _
      · exact .notFound

/-- `typeRef` is the same along chains with `SameImports`. -/
theorem typeRef_eq (parameters : List String) :
    tree.typeRef chain parameters = tree.typeRef other parameters :=
  funext fun _ => NamespaceTree.typeRef_congr parameters fun pieces _ =>
    (h.upTo_resolveType tree pieces).alike

/-- `NamespaceTree.member` is the same along chains with `SameImports`. -/
theorem member_eq (parameters : List String) :
    tree.member chain parameters = tree.member other parameters :=
  funext fun _ => NamespaceTree.member_congr parameters fun type _ =>
    congrFun (h.typeRef_eq tree parameters) type

end ScopeChain.SameImports

end ExtensionMembers
