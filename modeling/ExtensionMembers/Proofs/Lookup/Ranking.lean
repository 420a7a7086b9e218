import ExtensionMembers.Lookup.Visibility
import ExtensionMembers.Proofs.Build.Completion
import ExtensionMembers.Proofs.Build.Places

/-!
# Ranks of visible extensions

Which extensions of a type are visible, and in which order they are asked, is laid down here
without the index and without the search for the first level: an extension is visible if some level
of the chain is the namespace it is declared in or imports it, and its rank is that of the innermost
such level. Tiers list what is visible, level by level and in declaration order.

## Main definitions

* `ScopeLevel.Shows`, `Registry.ShownAt`: what is seen at one level.
* `Registry.ShownFirstAt`: the rank of an extension.
* `Registry.IsVisible`: the extensions of a type that are seen from a place.

## Main results

* `Registry.depthOf?_eq_some_iff`: the search for the first level finds the rank.
* `Registry.Holds.mem_tierAt_iff`: the extensions of one rank.
* `Registry.Holds.exists_path?_of_namespaceOf?`: extensions lie in the namespaces of their names.
* `Registry.tiers_rank_visible`: tiers rank what is visible, for every chain.
-/

namespace ExtensionMembers

/-- The declarations of a namespace are seen at a level: it is that of the level or among its
`imports`. -/
def ScopeLevel.Shows (level : ScopeLevel) (id : NamespaceId) : Prop :=
  id = level.namespaceId ∨ id ∈ level.imports

theorem ScopeLevel.reaches_iff {level : ScopeLevel} {id : NamespaceId} :
    level.reaches id = true ↔ level.Shows id := by
  simp [reaches, Shows, eq_comm (a := id)]

/-- `extendedHash?` tells the extended type if it is a declared type itself. -/
theorem Extension.extendedHash?_eq_some_iff {extension : Extension} {hash : TypeHash} :
    extension.extendedHash? = some hash ↔ extension.extended = some (.named hash) := by
  unfold extendedHash?
  rcases extension.extended with _ | (_ | _ | _ | _ | _ | _ | _) <;> simp [TypeRef.namedHash?]

namespace Registry

variable {registry : Registry} {hash : TypeHash} {chain : ScopeChain}
  {extension other : Extension} {depth : Nat}

/-! ## What is seen -/

/-- An extension is seen at a level that `Shows` the namespace it is declared in. -/
def ShownAt (registry : Registry) (extension : Extension) (level : ScopeLevel) : Prop :=
  ∃ id, registry.namespaceOf? extension = some id ∧ level.Shows id

/-- An extension is seen at the level with rank `depth` (`ShownAt`), and at none further in. -/
structure ShownFirstAt (registry : Registry) (chain : ScopeChain) (extension : Extension)
    (depth : Nat) : Prop where
  shown : ∃ level, chain.levels[depth]? = some level ∧ registry.ShownAt extension level
  not_nearer : ∀ nearer < depth, ∀ level, chain.levels[nearer]? = some level →
    ¬ registry.ShownAt extension level

/-- A valid extension of exactly the type with this hash is seen at some level of a chain
(`ShownAt`). -/
structure IsVisible (registry : Registry) (hash : TypeHash) (chain : ScopeChain)
    (extension : Extension) : Prop where
  mem : extension ∈ registry.extensions
  isValid : extension.isValid = true
  extended_eq : extension.extended = some (.named hash)
  shown : ∃ level ∈ chain.levels, registry.ShownAt extension level

theorem shownAt_iff {level : ScopeLevel} :
    registry.ShownAt extension level ↔
      (registry.namespaceOf? extension).any level.reaches = true := by
  simp [ShownAt, Option.any_eq_true, ScopeLevel.reaches_iff]

/-- `depthOf?` looks for the first level that reaches the namespace of the extension. -/
theorem depthOf?_eq_findIdx? (registry : Registry) (chain : ScopeChain) (extension : Extension) :
    registry.depthOf? chain extension = chain.levels.findIdx? fun level =>
      (registry.namespaceOf? extension).any level.reaches := by
  unfold depthOf?
  cases registry.namespaceOf? extension with
  | none => exact (List.findIdx?_eq_none_iff.2 fun _ _ => rfl).symm
  | some id => rfl

theorem depthOf?_eq_some_iff :
    registry.depthOf? chain extension = some depth ↔
      registry.ShownFirstAt chain extension depth := by
  rw [depthOf?_eq_findIdx?, List.findIdx?_eq_some_iff_getElem]
  constructor
  · rintro ⟨hlt, hshown, hnearer⟩
    refine ⟨⟨_, List.getElem?_eq_getElem hlt, shownAt_iff.2 hshown⟩,
      fun nearer hin level hlevel => ?_⟩
    obtain ⟨_, rfl⟩ := List.getElem?_eq_some_iff.1 hlevel
    exact mt shownAt_iff.1 (hnearer nearer hin)
  · rintro ⟨⟨level, hlevel, hshown⟩, hnearer⟩
    obtain ⟨hlt, rfl⟩ := List.getElem?_eq_some_iff.1 hlevel
    exact ⟨hlt, shownAt_iff.1 hshown, fun nearer hin => mt shownAt_iff.2
      (hnearer nearer hin _ (List.getElem?_eq_getElem (hin.trans hlt)))⟩

namespace ShownFirstAt

theorem depth_lt (h : registry.ShownFirstAt chain extension depth) :
    depth < chain.levels.length := by
  obtain ⟨level, hlevel, _⟩ := h.shown
  exact (List.getElem?_eq_some_iff.1 hlevel).1

/-- An extension has one rank (`ShownFirstAt`). -/
theorem unique {depth' : Nat} (h : registry.ShownFirstAt chain extension depth)
    (h' : registry.ShownFirstAt chain extension depth') : depth = depth' :=
  Option.some.inj ((depthOf?_eq_some_iff.2 h).symm.trans (depthOf?_eq_some_iff.2 h'))

end ShownFirstAt

/-- What is seen at some level (`ShownAt`) has a rank (`ShownFirstAt`). -/
theorem exists_shownFirstAt_iff :
    (∃ depth, registry.ShownFirstAt chain extension depth) ↔
      ∃ level ∈ chain.levels, registry.ShownAt extension level := by
  simp only [← depthOf?_eq_some_iff, ← Option.isSome_iff_exists, depthOf?_eq_findIdx?,
    List.findIdx?_isSome, List.any_eq_true, shownAt_iff]

/-! ## Tiers -/

/-- The `tiers` are the ranks that some extension has. -/
theorem mem_tiers_iff {tier : List Extension} :
    tier ∈ registry.tiers hash chain ↔
      tier ≠ [] ∧ ∃ depth < chain.levels.length, registry.tierAt hash chain depth = tier := by
  simp [tiers, and_comm]

namespace Holds

variable {scopes : List PlacedScope} {declared : List Declared}
  (h : registry.Holds scopes declared)

include h

theorem mem_tierAt_iff :
    extension ∈ registry.tierAt hash chain depth ↔
      registry.IsVisible hash chain extension ∧ registry.ShownFirstAt chain extension depth := by
  simp only [tierAt, h.extensionsOf_eq, List.mem_filter, Bool.and_eq_true, beq_iff_eq,
    decide_eq_true_eq, Extension.extendedHash?_eq_some_iff, depthOf?_eq_some_iff]
  constructor
  · rintro ⟨⟨hin, hvalid, hextended⟩, _, hfirst⟩
    exact ⟨⟨hin, hvalid, hextended, exists_shownFirstAt_iff.1 ⟨depth, hfirst⟩⟩, hfirst⟩
  · rintro ⟨⟨hin, hvalid, hextended, _⟩, hfirst⟩
    exact ⟨⟨hin, hvalid, hextended⟩, hvalid, hfirst⟩

/-- `tierAt` is in declaration order, since extensions are registered in that order. -/
theorem ordered_tierAt :
    (registry.tierAt hash chain depth).Pairwise fun extension later =>
      extension.id.Before later.id := by
  rw [tierAt, h.extensionsOf_eq]
  exact (h.ordered_extensions.filter _).filter _

theorem mem_flatten_tiers_iff :
    extension ∈ (registry.tiers hash chain).flatten ↔ registry.IsVisible hash chain extension := by
  simp only [List.mem_flatten, mem_tiers_iff]
  constructor
  · rintro ⟨_, ⟨_, depth, _, rfl⟩, hin⟩
    exact (h.mem_tierAt_iff.1 hin).1
  · intro hvisible
    obtain ⟨depth, hfirst⟩ := exists_shownFirstAt_iff.2 hvisible.shown
    have hin := h.mem_tierAt_iff.2 ⟨hvisible, hfirst⟩
    exact ⟨_, ⟨List.ne_nil_of_mem hin, depth, hfirst.depth_lt, rfl⟩, hin⟩

/-- The `tiers` are ordered by rank (`ShownFirstAt`). -/
theorem ordered_tiers :
    (registry.tiers hash chain).Pairwise fun inner outer =>
      ∀ extension ∈ inner, ∀ other ∈ outer, ∃ near far,
        registry.ShownFirstAt chain extension near ∧ registry.ShownFirstAt chain other far ∧
          near < far := by
  refine List.Pairwise.filter _ (List.pairwise_map.2 (List.pairwise_lt_range.imp ?_))
  intro near far hlt extension hin other hother
  exact ⟨near, far, (h.mem_tierAt_iff.1 hin).2, (h.mem_tierAt_iff.1 hother).2, hlt⟩

/-- No extension comes twice in the `tiers`, neither in one nor in two. -/
theorem nodup_flatten_tiers : (registry.tiers hash chain).flatten.Nodup := by
  refine List.nodup_flatten.2 ⟨fun tier htier => ?_, h.ordered_tiers.imp ?_⟩
  · obtain ⟨_, depth, _, rfl⟩ := mem_tiers_iff.1 htier
    exact h.ordered_tierAt.imp fun hbefore heq => hbefore.ne (congrArg Extension.id heq)
  · intro inner outer hranks extension hin hother
    obtain ⟨near, far, hnear, hfar, hlt⟩ := hranks extension hin extension hother
    exact hlt.ne (hnear.unique hfar)

/-- No identity comes twice in the `tiers`. -/
theorem nodup_id_flatten_tiers : ((registry.tiers hash chain).flatten.map (·.id)).Nodup := by
  refine List.Nodup.map_on (fun extension hin other hother heq => ?_) h.nodup_flatten_tiers
  have hfound := h.extension?_id (h.mem_flatten_tiers_iff.1 hin).mem
  have hfound' := h.extension?_id (h.mem_flatten_tiers_iff.1 hother).mem
  exact Option.some.inj (hfound.symm.trans (heq ▸ hfound'))

/-- Visible extensions share one of the `tiers` if they have the same rank (`ShownFirstAt`). -/
theorem exists_common_tier_iff (hvisible : registry.IsVisible hash chain extension)
    (hother : registry.IsVisible hash chain other) :
    (∃ tier ∈ registry.tiers hash chain, extension ∈ tier ∧ other ∈ tier) ↔
      ∃ depth, registry.ShownFirstAt chain extension depth ∧
        registry.ShownFirstAt chain other depth := by
  constructor
  · rintro ⟨tier, htier, hin, hin'⟩
    obtain ⟨_, depth, _, rfl⟩ := mem_tiers_iff.1 htier
    exact ⟨depth, (h.mem_tierAt_iff.1 hin).2, (h.mem_tierAt_iff.1 hin').2⟩
  · rintro ⟨depth, hfirst, hfirst'⟩
    have hin := h.mem_tierAt_iff.2 ⟨hvisible, hfirst⟩
    exact ⟨_, mem_tiers_iff.2 ⟨List.ne_nil_of_mem hin, depth, hfirst.depth_lt, rfl⟩, hin,
      h.mem_tierAt_iff.2 ⟨hother, hfirst'⟩⟩

/-- `namespaceOf?` gives the namespace of the qualified name of the extension. -/
theorem exists_path?_of_namespaceOf? (hplaced : WellPlaced scopes declared)
    (hin : extension ∈ registry.extensions) :
    ∃ id, registry.namespaceOf? extension = some id ∧
      registry.namespaces.path? id = some extension.name.path := by
  rw [h.extensions_eq] at hin
  obtain ⟨next, hnext, hfinished⟩ := List.mem_filterMap.1 hin
  obtain ⟨placed, hscope, hpath, _⟩ := hplaced.within next hnext
  have hsame : extension.scope = next.scope ∧ extension.name = next.name := by
    cases next with
    | type => cases hfinished
    | extension => exact Option.some.inj hfinished ▸ ⟨rfl, rfl⟩
  obtain ⟨scope, hget, _, _, hid⟩ := h.exists_scope (hsame.1 ▸ hscope)
  exact ⟨scope.namespaceId, by rw [namespaceOf?, hget]; rfl, by rw [hid, hpath, hsame.2]⟩

end Holds

/-- For every type and every chain, the `tiers` of the registry that `assemble` makes list the
visible extensions (`IsVisible`), each once. Two of them share a tier if they have the same rank
(`ShownFirstAt`); tiers come by rank and none is empty; and within a tier extensions come in
declaration order. -/
theorem tiers_rank_visible {files : List SourceFile} (hids : (files.map (·.id)).Nodup)
    (options : Options) (hash : TypeHash) (chain : ScopeChain) :
    let registry := (assemble files options).registry
    let tiers := registry.tiers hash chain
    (∀ extension ∈ registry.extensions, ∃ id, registry.namespaceOf? extension = some id ∧
      registry.namespaces.path? id = some extension.name.path) ∧
    (∀ extension, extension ∈ tiers.flatten ↔ registry.IsVisible hash chain extension) ∧
    (tiers.flatten.map (·.id)).Nodup ∧
    (∀ extension other, registry.IsVisible hash chain extension →
      registry.IsVisible hash chain other →
        ((∃ tier ∈ tiers, extension ∈ tier ∧ other ∈ tier) ↔
          ∃ depth, registry.ShownFirstAt chain extension depth ∧
            registry.ShownFirstAt chain other depth)) ∧
    [] ∉ tiers ∧
    tiers.Pairwise (fun inner outer => ∀ extension ∈ inner, ∀ other ∈ outer, ∃ near far,
      registry.ShownFirstAt chain extension near ∧ registry.ShownFirstAt chain other far ∧
        near < far) ∧
    ∀ tier ∈ tiers, tier.Pairwise fun extension later => extension.id.Before later.id := by
  intro registry tiers
  have hholds := holds_assemble hids options
  have hplaced := wellPlaced_declaredOf files
  refine ⟨fun extension hin => hholds.exists_path?_of_namespaceOf? hplaced hin,
    fun extension => hholds.mem_flatten_tiers_iff, hholds.nodup_id_flatten_tiers,
    fun extension other => hholds.exists_common_tier_iff, fun hempty => ?_, hholds.ordered_tiers,
    fun tier htier => ?_⟩
  · exact (mem_tiers_iff.1 hempty).1 rfl
  · obtain ⟨_, depth, _, rfl⟩ := mem_tiers_iff.1 htier
    exact hholds.ordered_tierAt

/-- Extensions of one type in three namespaces, one of them not valid, and a file with a block that
imports two of the namespaces, the second one before the first. -/
def pathFiles : List SourceFile :=
  [⟨⟨3⟩, "shapes", [.type ⟨.plainClass, "Path", none, [], .unplaced⟩, tools "PathTools" [],
      .block ["Draw"] [tools "PathStrokes" [], tools "PathFills" [self]],
      .block ["Text"] [tools "PathLabels" []]]⟩,
    ⟨⟨8⟩, "editor", [.block ["Editor"] [.importing ["Text"], .importing ["Draw"]]]⟩]
where
  tools (name : String) (members : List WrittenMember) : Item :=
    .extension ⟨name, some (.parse "Path"), [], members, .unplaced⟩
  self : WrittenMember :=
    { (default : WrittenMember) with
      name := "Fill", params := [⟨"self", .parse "Path", none, false, true⟩] }

/-- Seen from the block in `pathFiles`, the two imported extensions come first and the one around it
last. -/
theorem tiers_rank_visible_paths :
    let registry := (assemble pathFiles .standard).registry
    let tiers := registry.tiers (QualifiedName.global "Path").hash (registry.chain ⟨4⟩)
    (pathFiles.map (·.id)).Nodup ∧
      tiers.map (·.map (·.name.name)) = [["PathStrokes", "PathLabels"], ["PathTools"]] ∧
      (tiers.flatten.map (·.id)).Nodup ∧
      ∀ tier ∈ tiers, tier.Pairwise fun extension later => extension.id.Before later.id := by
  intro registry tiers
  have hids : (pathFiles.map (·.id)).Nodup := by decide
  obtain ⟨_, _, hnodup, _, _, _, hordered⟩ := tiers_rank_visible hids .standard
    (QualifiedName.global "Path").hash (registry.chain ⟨4⟩)
  exact ⟨hids, by decide +kernel, hnodup, hordered⟩

end Registry

end ExtensionMembers
