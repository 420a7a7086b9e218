import ExtensionMembers.Proofs.Namespace.Agreement

/-!
# Chains of nested scopes

The chain of a scope is put together from two walks: outward over the scopes around it, and up the
namespaces between one scope and the next. Where scopes nest as their paths do, the two walks make
one: the levels of the chain are the namespaces of all beginnings of the path, longest first, and
each has the imports of the scope that opens it, if there is one.

## Main definitions

* `ScopeTable.LexicalPath`: a scope and the scopes around it.
* `ScopeTable.NestsBy`: scopes lie in earlier ones, and continue their paths by allowed ones.
* `ScopeTable.ImportsFrom`: the imports of a level are those of the scope that opens it.

## Main results

* `NamespaceTree.forall₂_enclosing`: the namespaces around a namespace.
* `ScopeTable.NestsBy.outward_eq`: the walk outward ends at the last scope, and meets none twice.
* `ScopeTable.NestsBy.chain_mirrors`: the levels of a chain, with their imports.
-/

namespace ExtensionMembers

/-! ## Beginnings of paths -/

/-- The longest of the `inits` of a path is the path. -/
theorem reverse_inits_eq_cons {α : Type} (list : List α) :
    list.inits.reverse = list :: list.inits.reverse.tail := by
  induction list using List.reverseRecOn with
  | nil => rfl
  | append_singleton before last _ => simp [List.inits_append]

theorem inits_eq_map_take {α : Type} (list : List α) :
    list.inits = (List.range (list.length + 1)).map list.take := by
  refine List.ext_getElem (by simp) fun index _ _ => ?_
  rw [List.getElem_inits, List.getElem_map, List.getElem_range]

/-- The `inits` of a path have different lengths. -/
theorem nodup_inits {α : Type} (list : List α) : list.inits.Nodup := by
  rw [inits_eq_map_take]
  refine List.Nodup.map_on (fun count hcount other hother heq => ?_) List.nodup_range
  have hlength := congrArg List.length heq
  rw [List.mem_range] at hcount hother
  rw [List.length_take, List.length_take] at hlength
  omega

/-- The `inits` of a path are those down to some path on the way, then those of that path. -/
theorem takeWhile_ne_append_inits {α : Type} [DecidableEq α] (list more : List α) :
    (list ++ more).inits.reverse.takeWhile (· ≠ list) ++ list.inits.reverse =
      (list ++ more).inits.reverse := by
  -- The beginnings that go beyond `list` are longer, so the first that stops is `list` itself.
  have hlonger : ∀ longer ∈ (more.inits.tail.map (list ++ ·)).reverse,
      decide (longer ≠ list) = true := by
    intro longer hin
    obtain ⟨beginning, hbeginning, rfl⟩ := List.mem_map.1 (List.mem_reverse.1 hin)
    cases more with
    | nil => cases hbeginning
    | cons first rest =>
      obtain ⟨tail, _, rfl⟩ : ∃ tail, tail <+: rest ∧ first :: tail = beginning := by
        simpa using hbeginning
      simp
  rw [List.inits_append, List.reverse_append, List.takeWhile_append_of_pos hlonger,
    reverse_inits_eq_cons list, List.takeWhile_cons_of_neg (by simp), List.append_nil]

/-- The namespaces `enclosing` a namespace have the shorter beginnings of its path. -/
theorem NamespaceTree.forall₂_enclosing {tree : NamespaceTree} (hproper : tree.Proper)
    {id : NamespaceId} {path : NamespacePath} (hid : tree.path? id = some path) :
    List.Forall₂ (fun around beginning => tree.path? around = some beginning)
      (tree.enclosing id) path.inits.reverse.tail := by
  have hfound : ∀ count ∈ (List.range path.length).reverse,
      (tree.idOf? (path.take count)).map tree.path? = some (some (path.take count)) := by
    intro count _
    have hin := hproper.closed path (mem_paths_iff.2 ⟨id, hid⟩) _ (path.take_prefix count)
    obtain ⟨around, haround⟩ := mem_paths_iff.1 hin
    rw [(idOf?_eq_some_iff hproper.nodup).2 haround, Option.map_some, haround]
  have hmap : (tree.enclosing id).map tree.path? = path.inits.reverse.tail.map some := by
    rw [enclosing, NamespaceTree.path, hid, Option.getD_some, List.map_filterMap,
      List.filterMap_congr hfound, inits_eq_map_take, List.range_succ, List.map_append,
      List.reverse_append]
    simp [List.filterMap_eq_map', Function.comp_def]
  rwa [← List.forall₂_eq_eq_eq, List.forall₂_map_left_iff, List.forall₂_map_right_iff] at hmap

namespace ScopeTable

variable {table : ScopeTable} {tree : NamespaceTree} {id outer : ScopeId} {scope : Scope}
  {blocks : List ScopeId} {path : NamespacePath}

/-! ## The walk outward -/

/-- The list holds a scope and the scopes around it (`Scope.parent`), innermost first, up to one
that lies in no other. -/
inductive LexicalPath (table : ScopeTable) : ScopeId → List ScopeId → Prop
  | outermost {id : ScopeId} {scope : Scope} : table.get? id = some scope →
      scope.parent = none → LexicalPath table id [id]
  | within {id outer : ScopeId} {scope : Scope} {blocks : List ScopeId} :
      table.get? id = some scope → scope.parent = some outer → LexicalPath table outer blocks →
      LexicalPath table id (id :: blocks)

/-- A scope lies in an earlier one of the same file and continues its path by one that is `allowed`,
and one that lies in no other opens the global namespace. -/
structure NestsBy (allowed : NamespacePath → Prop) (table : ScopeTable) (tree : NamespaceTree) :
    Prop where
  outermost : ∀ {id scope}, table.get? id = some scope → scope.parent = none →
    tree.path? scope.namespaceId = some []
  within : ∀ {id scope outer}, table.get? id = some scope → scope.parent = some outer →
    outer.index < id.index ∧ ∃ around, table.get? outer = some around ∧ around.file = scope.file ∧
      ∃ path more, allowed more ∧ tree.path? around.namespaceId = some path ∧
        tree.path? scope.namespaceId = some (path ++ more)

/-- The `trail` from a scope is its `LexicalPath`, if this meets no scope twice. -/
theorem LexicalPath.trail_eq (h : table.LexicalPath id blocks) (hnodup : blocks.Nodup)
    {known : List ScopeId} (hknown : ∀ block ∈ blocks, block ∈ known) :
    trail table.parent? known id = blocks := by
  induction h generalizing known with
  | @outermost id scope hscope hparent =>
    exact trail_of_no_link (hknown id List.mem_cons_self) (by simp [parent?, hscope, hparent])
  | @within id outer scope blocks hscope hparent _ ih =>
    obtain ⟨hfirst, hrest⟩ := List.nodup_cons.1 hnodup
    have hlink : table.parent? id = some outer := by simp [parent?, hscope, hparent]
    rw [trail_of_link (hknown id List.mem_cons_self) hlink, ih hrest fun block hblock => ?_]
    -- What comes later is another scope than the first, and so it is still known.
    refine List.mem_filter.2 ⟨hknown block (List.mem_cons_of_mem _ hblock), ?_⟩
    simpa using fun heq : block = id => hfirst (heq ▸ hblock)

namespace NestsBy

variable {allowed : NamespacePath → Prop} (h : NestsBy allowed table tree)

include h

theorem exists_lexicalPath (hscope : table.get? id = some scope) :
    ∃ blocks, table.LexicalPath id blocks := by
  -- The scope around a scope comes earlier, so going outward ends.
  induction hindex : id.index using Nat.strongRecOn generalizing id scope with
  | ind index ih =>
    subst hindex
    cases hparent : scope.parent with
    | none => exact ⟨_, .outermost hscope hparent⟩
    | some outer =>
      obtain ⟨hlt, around, haround, _⟩ := h.within hscope hparent
      obtain ⟨blocks, hblocks⟩ := ih outer.index hlt haround rfl
      exact ⟨_, .within hscope hparent hblocks⟩

/-- On a `LexicalPath` positions go down. -/
theorem index_le (hpath : table.LexicalPath id blocks) :
    ∀ block ∈ blocks, block.index ≤ id.index := by
  induction hpath with
  | outermost => simp
  | within hscope hparent _ ih =>
    have hlt := (h.within hscope hparent).1
    refine List.forall_mem_cons.2 ⟨Nat.le_refl _, fun block hblock => ?_⟩
    exact (ih block hblock).trans hlt.le

theorem nodup_lexicalPath (hpath : table.LexicalPath id blocks) : blocks.Nodup := by
  induction hpath with
  | outermost => exact List.nodup_singleton _
  | within hscope hparent hblocks ih =>
    have hlt := (h.within hscope hparent).1
    refine List.nodup_cons.2 ⟨fun hin => ?_, ih⟩
    exact absurd (h.index_le hblocks _ hin) (Nat.not_le.2 hlt)

/-- `outward` leads along the `LexicalPath` of a scope to the end. -/
theorem outward_eq (hpath : table.LexicalPath id blocks) : table.outward id = blocks := by
  refine hpath.trail_eq (h.nodup_lexicalPath hpath) ?_
  clear h
  induction hpath with
  | outermost hscope _ => simpa [mem_ids_iff] using Option.isSome_iff_exists.2 ⟨_, hscope⟩
  | within hscope _ _ ih =>
    exact List.forall_mem_cons.2 ⟨mem_ids_iff.2 (Option.isSome_iff_exists.2 ⟨_, hscope⟩), ih⟩

end NestsBy

/-! ## The levels -/

/-- The imports of a level are those of the scope among `blocks` that opens its namespace; if there
is none, it has no imports. -/
structure ImportsFrom (table : ScopeTable) (blocks : List ScopeId) (level : ScopeLevel) : Prop where
  of_opens : ∀ id ∈ blocks, ∀ scope, table.get? id = some scope →
    scope.namespaceId = level.namespaceId → level.imports = scope.imports
  of_not_opens : (∀ id ∈ blocks, ∀ scope, table.get? id = some scope →
    scope.namespaceId ≠ level.namespaceId) → level.imports = []

/-- `levelsAt` of a scope has a level of its own; the others have no imports. -/
theorem exists_levelsAt (tree : NamespaceTree) (hscope : table.get? id = some scope) :
    ∃ between : List NamespaceId, table.levelsAt tree id =
      ⟨scope.namespaceId, scope.imports⟩ :: between.map ScopeLevel.plain := by
  rw [levelsAt, hscope]
  exact ⟨_, rfl⟩

/-- Where no namespace has two levels, levels have the imports of the scopes that open them
(`ImportsFrom`). -/
theorem importsFrom_of_nodup {levels : List ScopeLevel}
    (hlevels : levels = blocks.flatMap (table.levelsAt tree))
    (hnodup : (levels.map (·.namespaceId)).Nodup) {level : ScopeLevel} (hin : level ∈ levels) :
    table.ImportsFrom blocks level := by
  constructor
  · -- The own level of the scope has the namespace, so it is the level in question.
    intro id hid scope hscope hsame
    obtain ⟨between, hown⟩ := exists_levelsAt tree hscope
    have hownIn : ⟨scope.namespaceId, scope.imports⟩ ∈ levels := by
      rw [hlevels, List.mem_flatMap]
      exact ⟨id, hid, hown ▸ List.mem_cons_self⟩
    exact congrArg ScopeLevel.imports (List.inj_on_of_nodup_map hnodup hin hownIn hsame.symm)
  · -- A level that is not the own one of its scope stands for a namespace between two scopes.
    intro hnone
    rw [hlevels, List.mem_flatMap] at hin
    obtain ⟨id, hid, hlevel⟩ := hin
    cases hscope : table.get? id with
    | none =>
      rw [levelsAt, hscope] at hlevel
      cases hlevel
    | some scope =>
      obtain ⟨between, hown⟩ := exists_levelsAt tree hscope
      rw [hown] at hlevel
      rcases List.mem_cons.1 hlevel with rfl | hlevel
      · exact absurd rfl (hnone id hid scope hscope)
      · obtain ⟨_, _, rfl⟩ := List.mem_map.1 hlevel
        rfl

/-- `levelsAt` of a scope that lies in no other is its own level. -/
theorem levelsAt_outermost (hproper : tree.Proper) (hscope : table.get? id = some scope)
    (hid : tree.path? scope.namespaceId = some []) :
    table.levelsAt tree id = [⟨scope.namespaceId, scope.imports⟩] := by
  have hnone : tree.enclosing scope.namespaceId = [] := by
    simpa using NamespaceTree.forall₂_enclosing hproper hid
  simp [levelsAt, hscope, hnone]

/-- `levelsAt` of a scope that lies in another one is its own level, and one for each shorter
beginning of its path as long as this is not the path of the scope around it. -/
theorem forall₂_levelsAt_within (hproper : tree.Proper) (hscope : table.get? id = some scope)
    (hparent : scope.parent = some outer) {around : Scope}
    (haround : table.get? outer = some around) (houter : tree.path? around.namespaceId = some path)
    {whole : NamespacePath} (hid : tree.path? scope.namespaceId = some whole) :
    List.Forall₂ (fun level beginning => tree.path? level.namespaceId = some beginning)
      (table.levelsAt tree id) (whole :: whole.inits.reverse.tail.takeWhile (· ≠ path)) := by
  have hlevels : table.levelsAt tree id = ⟨scope.namespaceId, scope.imports⟩ ::
      ((tree.enclosing scope.namespaceId).takeWhile fun id =>
        some id != some around.namespaceId).map .plain := by
    simp [levelsAt, hscope, hparent, haround]
  rw [hlevels]
  refine .cons hid (List.forall₂_map_left_iff.2 ?_)
  refine forall₂_takeWhile (fun id beginning hbeginning => ?_)
    (NamespaceTree.forall₂_enclosing hproper hid)
  -- Namespaces are the same if their paths are.
  by_cases heq : beginning = path
  · obtain rfl := NamespaceTree.path?_inj hproper.nodup (heq ▸ hbeginning) houter
    simp [heq]
  · have hne : id ≠ around.namespaceId := by
      rintro rfl
      exact heq (Option.some.inj (hbeginning.symm.trans houter))
    simp [heq, hne]

/-- `levelsAt` of a scope with a longer path than the scope around it has a level for each beginning
of its path down to that of the scope around it. -/
theorem forall₂_levelsAt (hproper : tree.Proper) (hscope : table.get? id = some scope)
    (hparent : scope.parent = some outer) {around : Scope}
    (haround : table.get? outer = some around) (houter : tree.path? around.namespaceId = some path)
    {more : NamespacePath} (hmore : more ≠ [])
    (hid : tree.path? scope.namespaceId = some (path ++ more)) :
    List.Forall₂ (fun level beginning => tree.path? level.namespaceId = some beginning)
      (table.levelsAt tree id) ((path ++ more).inits.reverse.takeWhile (· ≠ path)) := by
  rw [reverse_inits_eq_cons, List.takeWhile_cons_of_pos (by simpa using hmore)]
  exact forall₂_levelsAt_within hproper hscope hparent haround houter hid

namespace NestsBy

variable (h : NestsBy (· ≠ []) table tree)

include h

/-- The levels of a chain are the namespaces of all beginnings of the path, the longest first
(`LexicalPath`, `NestsBy`). -/
theorem forall₂_levels (hproper : tree.Proper) (hblocks : table.LexicalPath id blocks)
    (hscope : table.get? id = some scope) (hid : tree.path? scope.namespaceId = some path) :
    List.Forall₂ (fun level beginning => tree.path? level.namespaceId = some beginning)
      (blocks.flatMap (table.levelsAt tree)) path.inits.reverse := by
  induction hblocks generalizing scope path with
  | outermost hsame hparent =>
    obtain rfl := Option.some.inj (hscope.symm.trans hsame)
    have hroot := h.outermost hscope hparent
    obtain rfl := Option.some.inj (hid.symm.trans hroot)
    rw [List.flatMap_singleton, levelsAt_outermost hproper hscope hid]
    exact .cons hid .nil
  | within hsame hparent _ ih =>
    obtain rfl := Option.some.inj (hscope.symm.trans hsame)
    obtain ⟨_, around, haround, _, outerPath, more, hmore, houter, hwhole⟩ :=
      h.within hscope hparent
    obtain rfl := Option.some.inj (hid.symm.trans hwhole)
    -- The levels of the scope lead down to the path of the scope around it, whose levels follow.
    rw [List.flatMap_cons, ← takeWhile_ne_append_inits outerPath more]
    exact List.rel_append (forall₂_levelsAt hproper hscope hparent haround houter hmore hid)
      (ih haround houter)

/-- `ScopeTable.chain` has a level for each beginning of the path of the scope, the longest first,
with the imports of the scope on its lexical path that opens it (`ImportsFrom`). -/
theorem chain_mirrors (hproper : tree.Proper) (hblocks : table.LexicalPath id blocks)
    (hscope : table.get? id = some scope) (hid : tree.path? scope.namespaceId = some path) :
    List.Forall₂ (fun level beginning => tree.path? level.namespaceId = some beginning)
        (table.chain tree id).levels path.inits.reverse ∧
      ∀ level ∈ (table.chain tree id).levels, table.ImportsFrom blocks level := by
  have hlevels : (table.chain tree id).levels = blocks.flatMap (table.levelsAt tree) := by
    rw [chain, h.outward_eq hblocks]
  have hpaths := h.forall₂_levels hproper hblocks hscope hid
  rw [← hlevels] at hpaths
  refine ⟨hpaths, fun level hin => importsFrom_of_nodup hlevels ?_ hin⟩
  -- No beginning comes twice, so no namespace does.
  have hmap := map_eq_of_forall₂ (f := fun level : ScopeLevel => tree.path? level.namespaceId)
    (g := some) (fun _ _ hlevel => hlevel) hpaths
  have hnodup := (List.nodup_reverse.2 (nodup_inits path)).map fun _ _ => Option.some.inj
  rw [← hmap, ← Function.comp_def, ← List.map_map] at hnodup
  exact hnodup.of_map

end NestsBy

end ScopeTable

end ExtensionMembers
