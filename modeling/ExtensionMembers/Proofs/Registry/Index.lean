import ExtensionMembers.Proofs.Lookup.Slots
import Mathlib.Data.List.Sort

/-!
# The index of extensions

The index is made from the extensions at one moment and read at a later one. Extensions may be
registered in any order, and changed before and after. As long as no identity is given twice, making
the index anew lists for each type the valid extensions that extend it then, in declaration order,
and nothing of what an earlier index listed is left.

## Main definitions

* `Registry.IndexCall`, `Registry.after`: the calls between which the index may be made.
* `Registry.groups`, `Registry.groupedAt?`: the index as a table of groups, read through the slots.
* `Registry.Indexes`: the index is exact and in order.

## Main results

* `Registry.nodup_after`: no call gives an identity to a second extension.
* `Registry.indexes_reindex`: a new index is exact and in order.
* `Registry.reindex_after`: the index after any calls, and what an edit does to it.
-/

namespace ExtensionMembers

namespace Registry

/-! ## Calls -/

/-- The calls between which the index may be made anew by `reindex`. -/
inductive IndexCall where
  /-- Registering an extension, which may fail. -/
  | register (extension : Extension)
  /-- Changing the extension with an identity, in any way but for the identity. -/
  | edit (id : ExtensionId) (change : Extension → Extension)
  /-- Making the index anew. -/
  | reindex
  /-- Changing everything else in any way. -/
  | replace (namespaces : NamespaceTree) (scopes : ScopeTable) (types : Table TypeHash NamedType)

namespace IndexCall

/-- Changing whether an extension is valid, an `IndexCall.edit`. -/
def setValid (id : ExtensionId) (isValid : Bool) : IndexCall :=
  edit id fun extension => { extension with isValid }

/-- Changing the extended type of an extension, an `IndexCall.edit`. -/
def setExtended (id : ExtensionId) (extended : Option TypeRef) : IndexCall :=
  edit id fun extension => { extension with extended }

/-- The identity of the extension that an `IndexCall` registers. -/
def registered? : IndexCall → Option ExtensionId
  | register extension => some extension.id
  | _ => none

end IndexCall

/-- The registry after an `IndexCall`. -/
def perform (registry : Registry) : IndexCall → Registry
  | .register extension => (registry.registerExtension extension).2
  | .edit id change => registry.modifyExtension id fun extension => { change extension with id }
  | .reindex => registry.reindex
  | .replace namespaces scopes types => { registry with namespaces, scopes, types }

/-- The registry after some calls, one `perform` each. -/
def after (registry : Registry) (calls : List IndexCall) : Registry :=
  calls.foldl perform registry

variable {registry : Registry}

/-- `IndexCall.edit` keeps all identities. -/
theorem map_id_edit (registry : Registry) (id : ExtensionId) (change : Extension → Extension) :
    (registry.perform (.edit id change)).extensions.map (·.id) = registry.extensions.map (·.id) :=
  registry.map_id_modifyExtension fun _ _ => rfl

/-- `perform` adds the identity that a call registers, or none. -/
theorem map_id_perform_sublist (registry : Registry) (call : IndexCall) :
    ((registry.perform call).extensions.map (·.id)).Sublist
      (registry.extensions.map (·.id) ++ call.registered?.toList) := by
  cases call with
  | register extension =>
    rw [perform]
    rcases extensions_registerExtension registry extension with hsame | hadded
    · rw [hsame]
      exact List.sublist_append_left _ _
    · rw [hadded, List.map_append]
      exact List.Sublist.refl _
  | edit id change =>
    rw [map_id_edit]
    exact List.sublist_append_left _ _
  | reindex => exact List.sublist_append_left _ _
  | replace => exact List.sublist_append_left _ _

/-- The identities `after` some calls are among those before and those that the calls register. -/
theorem map_id_after_sublist (registry : Registry) (calls : List IndexCall) :
    ((registry.after calls).extensions.map (·.id)).Sublist
      (registry.extensions.map (·.id) ++ calls.filterMap (·.registered?)) := by
  induction calls generalizing registry with
  | nil => simp [after]
  | cons call rest ih =>
    have hcall := map_id_perform_sublist registry call
    have hrest : ((registry.after (call :: rest)).extensions.map (·.id)).Sublist
        ((registry.perform call).extensions.map (·.id) ++ rest.filterMap (·.registered?)) :=
      ih (registry.perform call)
    -- What the first call registers stands in front of what the others register.
    refine hrest.trans ((hcall.append_right _).trans ?_)
    cases hregistered : call.registered? with
    | none => simp [hregistered]
    | some id => simp [hregistered]

/-- If no identity is registered twice, no two extensions have the same `after` the calls. -/
theorem nodup_after (hempty : registry.extensions = []) {calls : List IndexCall}
    (hids : (calls.filterMap (·.registered?)).Nodup) :
    ((registry.after calls).extensions.map (·.id)).Nodup := by
  have hsub := map_id_after_sublist registry calls
  rw [hempty] at hsub
  exact hids.sublist hsub

/-- Where identities are distinct, `modifyFirst` reaches the extension with its identity and no
other. -/
theorem modifyFirst_eq_map {id : ExtensionId} (change : Extension → Extension)
    {extensions : List Extension} (hids : (extensions.map (·.id)).Nodup) :
    modifyFirst id change extensions = extensions.map fun extension =>
      if extension.id = id then change extension else extension := by
  induction extensions with
  | nil => rfl
  | cons first rest ih =>
    rw [List.map_cons, List.nodup_cons] at hids
    rw [modifyFirst, List.map_cons]
    split
    next hid =>
      -- Nothing behind it has its identity, so the rest stays as it is.
      have hrest : rest.map (fun extension =>
          if extension.id = id then change extension else extension) = rest := by
        refine (List.map_congr_left fun extension hin => if_neg fun hsame => ?_).trans rest.map_id
        exact hids.1 (List.mem_map.2 ⟨extension, hin, hsame.trans hid.symm⟩)
      rw [hrest]
    next => rw [ih hids.2]

/-- Where identities are distinct, `IndexCall.edit` reaches the extension with its identity and no
other. -/
theorem extensions_edit (hids : (registry.extensions.map (·.id)).Nodup) (id : ExtensionId)
    (change : Extension → Extension) :
    (registry.perform (.edit id change)).extensions = registry.extensions.map fun extension =>
      if extension.id = id then { change extension with id } else extension := by
  have hreversed : (registry.extensions.reverse.map (·.id)).Nodup := by
    rwa [List.map_reverse, List.nodup_reverse]
  rw [perform, modifyExtension, modifyFirst_eq_map _ hreversed, List.map_reverse,
    List.reverse_reverse]

/-! ## The new index -/

/-- The extensions of each extended type in a `Table`. It is filled in declaration order
(`stableSort`), and each valid extension goes to the end of what is kept for its type. -/
def groups (registry : Registry) : Table TypeHash (List ExtensionId) :=
  (stableSort (·.id.key) registry.extensions).foldl (fun groups extension =>
    match indexEntry? extension with
    | none => groups
    | some entry =>
      groups.insert entry.1 ((groups.find? entry.1).getD [] ++ [entry.2])) .empty

/-- The extensions that a table of `groups` holds for a type, each read from its slot. -/
def groupedAt? (registry : Registry) (slots : Table ExtensionId Nat)
    (groups : Table TypeHash (List ExtensionId)) (hash : TypeHash) : Option (List Extension) := do
  let found ← ((groups.find? hash).getD []).mapM (registry.extensionAt? slots)
  return found.filterMap id

/-- `groups` has for a type what the index holds for it. -/
theorem find?_groups (registry : Registry) (hash : TypeHash) :
    (registry.groups.find? hash).getD [] =
      (registry.reindex.index.filter (·.1 = hash)).map (·.2) := by
  unfold groups reindex
  generalize stableSort (·.id.key) registry.extensions = extensions
  -- Read from the end: the last extension goes to the end of one group, or to none.
  induction extensions using List.reverseRecOn with
  | nil => rfl
  | append_singleton before last ih =>
    rw [List.foldl_append, List.foldl_cons, List.foldl_nil, List.filterMap_append,
      List.filter_append, List.map_append, ← ih]
    cases hentry : indexEntry? last with
    | none => simp [hentry]
    | some entry =>
      by_cases hsame : entry.1 = hash
      · simp [hentry, hsame, Table.find?_insert]
      · simp [hentry, hsame, Table.find?_insert]

/-- `groupedAt?` gives what the index lists (`extensionsOf`). -/
theorem groupedAt?_eq_some (registry : Registry) (hash : TypeHash) :
    registry.reindex.groupedAt? registry.slots registry.groups hash =
      some (registry.reindex.extensionsOf hash) := by
  have hslot : ∀ id, registry.reindex.extensionAt? registry.slots id =
      some (registry.reindex.extension? id) := registry.reindex.extensionAt?_slots
  rw [groupedAt?, find?_groups, mapM_eq_some_map fun id _ => hslot id]
  exact congrArg some (by rw [List.filterMap_map, List.filterMap_map]; rfl)

/-- The index is exact: `extensionsOf` lists for each type the valid extensions that extend it, each
once and in declaration order (`Before`), and there is an entry for these and no others. -/
structure Indexes (registry : Registry) : Prop where
  ordered : ∀ hash, (registry.extensionsOf hash).Pairwise fun extension later =>
    extension.id.Before later.id
  mem_iff : ∀ {hash extension}, extension ∈ registry.extensionsOf hash ↔
    extension ∈ registry.extensions ∧ extension.isValid = true ∧
      extension.extended = some (.named hash)
  mem_index_iff : ∀ {hash id}, (hash, id) ∈ registry.index ↔
    ∃ extension ∈ registry.extensions, extension.id = id ∧ extension.isValid = true ∧
      extension.extended = some (.named hash)

/-- Where identities are distinct, `reindex` makes an index that is exact and in order
(`Indexes`). -/
theorem indexes_reindex (hids : (registry.extensions.map (·.id)).Nodup) :
    registry.reindex.Indexes := by
  have hperm := stableSort_perm (fun extension : Extension => extension.id.key) registry.extensions
  constructor
  case ordered =>
    intro hash
    rw [extensionsOf_reindex hids]
    have hsorted := stableSort_sorted (fun extension : Extension => extension.id.key)
      registry.extensions
    -- No two keys are equal, so the order of the keys is strict.
    have hdistinct := List.pairwise_map.1 ((hperm.map (·.id)).nodup_iff.2 hids)
    exact ((hsorted.and hdistinct).imp fun hboth => .of_keyLe hboth.1 hboth.2).filter _
  case mem_iff =>
    intro hash extension
    rw [extensionsOf_reindex hids, List.mem_filter, hperm.mem_iff, Bool.and_eq_true,
      decide_eq_true_eq, Extension.extendedHash?_eq_some_iff]
    rfl
  case mem_index_iff =>
    intro hash id
    show (hash, id) ∈ (stableSort _ registry.extensions).filterMap indexEntry? ↔ _
    rw [List.mem_filterMap]
    refine exists_congr fun extension => and_congr hperm.mem_iff ?_
    rw [← Extension.extendedHash?_eq_some_iff, indexEntry?]
    cases extension.isValid <;> cases extension.extendedHash? <;> simp [and_comm, eq_comm]

/-- What `extensionsOf` lists for a type in a new index is determined by its members. -/
theorem eq_of_ordered {list other : List Extension}
    (hlist : list.Pairwise fun extension later => extension.id.Before later.id)
    (hother : other.Pairwise fun extension later => extension.id.Before later.id)
    (hmem : ∀ extension, extension ∈ list ↔ extension ∈ other) : list = other := by
  have : Std.Irrefl fun extension later : Extension => extension.id.Before later.id :=
    ⟨fun _ h => h.ne rfl⟩
  have : Std.Antisymm fun extension later : Extension => extension.id.Before later.id :=
    ⟨fun _ _ h habove => absurd habove h.asymm⟩
  exact hlist.eq_of_mem_iff hother hmem

/-- An edit after which an extension is not valid, or extends another type, takes it from what the
index lists for a type as soon as `reindex` makes the index anew, and nothing else. -/
theorem extensionsOf_edit (hids : (registry.extensions.map (·.id)).Nodup) {id : ExtensionId}
    {hash : TypeHash} {change : Extension → Extension}
    (hchange : ∀ extension, ¬((change extension).isValid = true ∧
      (change extension).extended = some (.named hash))) :
    (registry.perform (.edit id change)).reindex.extensionsOf hash =
      (registry.reindex.extensionsOf hash).filter (·.id ≠ id) := by
  have hold := indexes_reindex hids
  have hnew : (registry.perform (.edit id change)).reindex.Indexes :=
    indexes_reindex (by rwa [map_id_edit])
  -- Both lists are in declaration order, so it is enough that they have the same members.
  refine eq_of_ordered (hnew.ordered hash) ((hold.ordered hash).filter _) fun extension => ?_
  rw [hnew.mem_iff, List.mem_filter, hold.mem_iff, decide_eq_true_eq]
  show extension ∈ (registry.perform (.edit id change)).extensions ∧ _ ↔
    (extension ∈ registry.extensions ∧ _) ∧ _
  rw [extensions_edit hids, List.mem_map]
  constructor
  · rintro ⟨⟨old, hin, rfl⟩, hvalid, hextended⟩
    by_cases hid : old.id = id
    · rw [if_pos hid] at hvalid hextended
      exact absurd ⟨hvalid, hextended⟩ (hchange old)
    · rw [if_neg hid] at hvalid hextended ⊢
      exact ⟨⟨hin, hvalid, hextended⟩, hid⟩
  · rintro ⟨⟨hin, hvalid, hextended⟩, hid⟩
    exact ⟨⟨extension, hin, if_neg hid⟩, hvalid, hextended⟩

/-- From a registry without extensions, let extensions be registered, in any order but none with an
identity given before, be changed, and the index be made, any number of times (`IndexCall`). Then
`reindex` lists for each type the extensions that are valid and extend it now, each once and in
declaration order (`Indexes`), also when it is kept as a table of `groups`. Doing it again changes
nothing. A change reaches the extension with its identity and no other; one that is made invalid, or
made to extend another type, is gone as soon as the index is made anew, and everything else
stays. -/
theorem reindex_after (hempty : registry.extensions = []) {calls : List IndexCall}
    (hids : (calls.filterMap (·.registered?)).Nodup) :
    let later := registry.after calls
    let indexed := later.reindex
    indexed.extensions = later.extensions ∧ indexed.Indexes ∧ indexed.reindex = indexed ∧
      (∀ hash, indexed.groupedAt? later.slots later.groups hash =
        some (indexed.extensionsOf hash)) ∧
      (∀ id change, (indexed.perform (.edit id change)).extensions =
        indexed.extensions.map fun extension =>
          if extension.id = id then { change extension with id } else extension) ∧
      ∀ hash id,
        (indexed.perform (.setValid id false)).reindex.extensionsOf hash =
            (indexed.extensionsOf hash).filter (·.id ≠ id) ∧
          ∀ extended, extended ≠ some (.named hash) →
            (indexed.perform (.setExtended id extended)).reindex.extensionsOf hash =
              (indexed.extensionsOf hash).filter (·.id ≠ id) := by
  intro later indexed
  have hdistinct : (indexed.extensions.map (·.id)).Nodup := nodup_after hempty hids
  refine ⟨rfl, indexes_reindex hdistinct, rfl, later.groupedAt?_eq_some,
    extensions_edit hdistinct, fun hash id => ⟨?_, fun extended hother => ?_⟩⟩
  · exact extensionsOf_edit hdistinct fun _ hlisted => Bool.false_ne_true hlisted.1
  · exact extensionsOf_edit hdistinct fun _ hlisted => hother hlisted.2

/-- A registry with one scope, that of a file root. -/
def rackRegistry : Registry :=
  { withBuiltIns with scopes := ScopeTable.empty.add ⟨⟨0⟩, none, NamespaceTree.root, [], []⟩ }

/-- An extension of integers. -/
def rackExtension (file index : Nat) (name : String) (isValid : Bool) : Extension :=
  { Extension.declared ⟨⟨file⟩, index⟩ (.global name) ⟨0⟩ .unplaced with
    isValid, extended := some (.named (QualifiedName.global "int").hash) }

/-- The last of three extensions is declared first. The other two are listed until one of them is
made invalid; an index made before does not matter. -/
theorem reindex_after_rack :
    let calls : List IndexCall :=
      [.register (rackExtension 1 0 "Third" true), .register (rackExtension 0 1 "Second" true),
        .reindex, .setValid ⟨⟨0⟩, 1⟩ false, .register (rackExtension 0 0 "First" true)]
    rackRegistry.extensions = [] ∧ (calls.filterMap (·.registered?)).Nodup ∧
      (rackRegistry.after calls).extensions.map (·.name.name) = ["Third", "Second", "First"] ∧
      (rackRegistry.after calls).reindex.Indexes ∧
      ((rackRegistry.after calls).reindex.extensionsOf (QualifiedName.global "int").hash).map
        (·.name.name) = ["First", "Third"] := by
  intro calls
  have hempty : rackRegistry.extensions = [] := by decide +kernel
  have hids : (calls.filterMap (·.registered?)).Nodup := by decide
  obtain ⟨_, hindexes, _⟩ := reindex_after hempty hids
  exact ⟨hempty, hids, by decide +kernel, hindexes, by decide +kernel⟩

end Registry

end ExtensionMembers
