import ExtensionMembers.Proofs.Build.Completion
import ExtensionMembers.Proofs.Lookup.Ranking

/-!
# Slots and buckets

An extension can also be found by its position: a table kept beside the list of extensions says
where the one with an identity is, and the list is read at that position. The tiers of a chain can
be made the same way, by a list of buckets, one for each level, into which every extension is put by
its rank. Both read and write lists at positions that come from elsewhere, and fail if these are out
of range. They never are: a slot is written when the position comes to be and extensions are never
taken away, and a rank is that of a level of the chain.

## Main definitions

* `Registry.Slotted`: a registry with the table of slots that is kept beside it.
* `Registry.extensionAt?`: the extension in the slot of an identity.
* `putAt?`, `scatter?`: lists filled by position.
* `Registry.tiersAt?`, `Registry.resolveAt?`: the tiers and the answer to a query, by positions.

## Main results

* `Registry.Slotted.extensionAt?_eq_some`: slots are in range, after any operations.
* `Registry.Reachable.slotted`: the slots that are kept are those of the extensions.
* `Registry.Slotted.tiersAt?_eq_some`: ranks are in range, and the buckets are the tiers.
* `Registry.Slotted.resolveAt?_eq_some`: resolving by positions stays in range.
-/

namespace ExtensionMembers

/-! ## Slots -/

/-- The slots of extensions with the identities `ids`, declared in this order: each one is written
over that of an earlier extension with the same identity. -/
def slotsOf (ids : List ExtensionId) : Table ExtensionId Nat :=
  ids.zipIdx.foldl (fun slots entry => slots.insert entry.1 entry.2) .empty

/-- `slotsOf` with one more extension: its slot is the number of those before it. -/
theorem slotsOf_concat (ids : List ExtensionId) (id : ExtensionId) :
    slotsOf (ids ++ [id]) = (slotsOf ids).insert id ids.length := by
  rw [slotsOf, List.zipIdx_append, List.foldl_append, Nat.zero_add]
  rfl

/-- The slot that `slotsOf` has for an identity is that of the last extension with it. -/
theorem map_getElem?_slotsOf (extensions : List Extension) (id : ExtensionId) :
    ((slotsOf (extensions.map (·.id))).find? id).map (extensions[·]?) =
      (extensions.reverse.find? (·.id = id)).map some := by
  induction extensions using List.reverseRecOn with
  | nil => rfl
  | append_singleton before last ih =>
    rw [List.map_append, List.map_singleton, slotsOf_concat, Table.find?_insert,
      find?_reverse_concat, List.length_map]
    by_cases hlast : last.id = id
    · simp [hlast]
    · rw [if_neg hlast, if_neg (by simpa using hlast), ← ih]
      -- A slot written before is one of the earlier positions, which stay as they are.
      refine Option.map_congr fun slot hslot => ?_
      rw [hslot, Option.map_some] at ih
      obtain ⟨found, _, hfound⟩ := Option.map_eq_some_iff.1 ih.symm
      exact List.getElem?_append_left (List.getElem?_eq_some_iff.1 hfound.symm).1

namespace Registry

/-- A registry that the operations lead to, with the table of `slots` kept beside it: declaring an
extension writes its slot, the number of extensions so far, and nothing else writes one. -/
inductive Slotted : Registry → Table ExtensionId Nat → Prop
  | empty : Slotted .empty .empty
  | changeTree {registry : Registry} {slots : Table ExtensionId Nat} (after : NamespaceTree) :
      Slotted registry slots → Slotted { registry with namespaces := after } slots
  | changeScopes {registry : Registry} {slots : Table ExtensionId Nat} (scopes : ScopeTable) :
      Slotted registry slots → Slotted { registry with scopes } slots
  | registerType {registry : Registry} {slots : Table ExtensionId Nat} (type : NamedType) :
      Slotted registry slots → Slotted (registry.registerType type).2 slots
  | modifyType {registry : Registry} {slots : Table ExtensionId Nat} (hash : TypeHash)
      (change : NamedType → NamedType) :
      Slotted registry slots → Slotted (registry.modifyType hash change) slots
  | registerExtension {registry : Registry} {slots : Table ExtensionId Nat}
      (extension : Extension) :
      Slotted registry slots → Slotted (registry.registerExtension extension).2
        (match (registry.registerExtension extension).1 with
          | .ok _ => slots.insert extension.id registry.extensions.length
          | .error _ => slots)
  | modifyExtension {registry : Registry} {slots : Table ExtensionId Nat} (id : ExtensionId)
      (change : Extension → Extension) :
      Slotted registry slots → (∀ extension, extension.id = id → (change extension).id = id) →
      Slotted (registry.modifyExtension id change) slots
  | reindex {registry : Registry} {slots : Table ExtensionId Nat} :
      Slotted registry slots → Slotted registry.reindex slots

/-- The slots of the extensions of a registry, by `slotsOf`. -/
def slots (registry : Registry) : Table ExtensionId Nat :=
  slotsOf (registry.extensions.map (·.id))

/-- `registerType` writes no slot. -/
theorem slots_registerType (registry : Registry) (type : NamedType) :
    (registry.registerType type).2.slots = registry.slots := by
  rw [slots, extensions_registerType, slots]

/-- `registerExtension` writes the slot of the extension, the next position, or fails and writes
none. -/
theorem slots_registerExtension (registry : Registry) (extension : Extension) :
    (registry.registerExtension extension).2.slots =
      match (registry.registerExtension extension).1 with
      | .ok _ => registry.slots.insert extension.id registry.extensions.length
      | .error _ => registry.slots := by
  have hown := slots_registerType registry extension.ownType
  rcases registerExtension_cases registry extension with
    ⟨_, _, houtcome⟩ | ⟨_, _, houtcome⟩ | ⟨_, _, _, _, _, _, _, houtcome⟩
  · rw [houtcome]
    exact hown
  · rw [houtcome]
    exact hown
  · -- The extension goes to the end, where the next slot points.
    rw [houtcome, slots]
    dsimp only
    rw [extensions_registerType, List.map_append, List.map_singleton, slotsOf_concat,
      List.length_map, slots]

/-- `modifyExtension` writes no slot if the extension keeps its identity. -/
theorem slots_modifyExtension (registry : Registry) {id : ExtensionId}
    {change : Extension → Extension}
    (hkeeps : ∀ extension, extension.id = id → (change extension).id = id) :
    (registry.modifyExtension id change).slots = registry.slots :=
  congrArg slotsOf (registry.map_id_modifyExtension hkeeps)

/-- A table that is `Slotted` has the slots of the extensions, and no others. -/
theorem Slotted.eq_slots {registry : Registry} {slots : Table ExtensionId Nat}
    (h : registry.Slotted slots) : slots = registry.slots := by
  -- Slots depend on identities alone, so only an extension that is added has to be looked at.
  induction h with
  | empty => rfl
  | changeTree after _ ih => exact ih
  | changeScopes scopes _ ih => exact ih
  | registerType type _ ih => exact ih.trans (slots_registerType _ type).symm
  | modifyType hash change _ ih => exact ih
  | registerExtension extension _ ih =>
    rw [slots_registerExtension, ih]
  | modifyExtension id change _ hkeeps ih => exact ih.trans (slots_modifyExtension _ hkeeps).symm
  | reindex _ ih => exact ih

/-- Whatever operations are carried out (`Reachable`), the slots of the extensions are those that
are kept. -/
theorem Reachable.slotted {registry : Registry} (hreach : registry.Reachable) :
    registry.Slotted registry.slots := by
  -- Each operation does to the slots of the extensions what it does to the table that is kept.
  induction hreach with
  | empty => exact .empty
  | changeTree after _ _ ih => exact .changeTree after ih
  | changeScopes scopes _ ih => exact .changeScopes scopes ih
  | registerType type _ ih =>
    rw [slots_registerType]
    exact .registerType type ih
  | modifyType hash change _ ih => exact .modifyType hash change ih
  | registerExtension extension _ ih =>
    rw [slots_registerExtension]
    exact .registerExtension extension ih
  | modifyExtension id change _ hkeeps ih =>
    rw [slots_modifyExtension _ hkeeps]
    exact .modifyExtension id change ih hkeeps
  | reindex _ ih => exact .reindex ih

/-- `extension?` by position: the extension in the slot of an identity, if there is a slot for it;
none if the slot is out of range. -/
def extensionAt? (registry : Registry) (slots : Table ExtensionId Nat) (id : ExtensionId) :
    Option (Option Extension) :=
  match slots.find? id with
  | none => some none
  | some slot => registry.extensions[slot]?.map some

/-- `extensionAt?` with the `slots` of a registry is `extension?`: the last extension with the
identity. -/
theorem extensionAt?_slots (registry : Registry) (id : ExtensionId) :
    registry.extensionAt? registry.slots id = some (registry.extension? id) := by
  have hslots := map_getElem?_slotsOf registry.extensions id
  unfold extensionAt? Registry.slots extension?
  cases hslot : (slotsOf (registry.extensions.map (·.id))).find? id with
  | none =>
    rw [hslot] at hslots
    rw [Option.map_eq_none_iff.1 hslots.symm]
  | some slot =>
    rw [hslot] at hslots
    obtain ⟨found, hfind, hfound⟩ := Option.map_eq_some_iff.1 hslots.symm
    rw [hfind]
    exact congrArg (Option.map some) hfound.symm

/-- `extensionAt?` with a table that is `Slotted` is in range, and gives the last extension with the
identity. -/
theorem Slotted.extensionAt?_eq_some {registry : Registry} {slots : Table ExtensionId Nat}
    (h : registry.Slotted slots) (id : ExtensionId) :
    registry.extensionAt? slots id = some (registry.extension? id) := by
  rw [h.eq_slots, extensionAt?_slots]

/-- Reading a slot that was not written for an extension fails. -/
example : Registry.empty.extensionAt? (Table.empty.insert ⟨⟨0⟩, 0⟩ 0) ⟨⟨0⟩, 0⟩ = none := by
  decide

end Registry

/-! ## Buckets -/

section Buckets

variable {α : Type}

/-- The `buckets` with one more item in the one at a position; none if there is no such bucket. -/
def putAt? (buckets : List (List α)) (position : Nat) (item : α) : Option (List (List α)) := do
  let bucket ← buckets[position]?
  return buckets.set position (bucket ++ [item])

/-- Some items put into `count` empty buckets, each one by its rank (`putAt?`); those without one
are left out. -/
def scatter? (rank? : α → Option Nat) (count : Nat) (items : List α) : Option (List (List α)) :=
  items.foldlM (fun buckets item =>
    match rank? item with
    | none => some buckets
    | some rank => putAt? buckets rank item) (List.replicate count [])

theorem putAt?_map_range {bucket : Nat → List α} {count position : Nat} (h : position < count)
    (item : α) :
    putAt? ((List.range count).map bucket) position item =
      some ((List.range count).map fun rank =>
        if rank = position then bucket rank ++ [item] else bucket rank) := by
  have hbucket : ((List.range count).map bucket)[position]? = some (bucket position) := by
    simp [h]
  rw [putAt?, hbucket]
  refine congrArg some ((set_map_range bucket count position _).trans ?_)
  refine List.map_congr_left fun rank _ => ?_
  by_cases hrank : rank = position <;> simp [hrank]

/-- `scatter?` stays in range if every rank has a bucket, and each bucket gets the items of its
rank. -/
theorem scatter?_eq_some {rank? : α → Option Nat} {count : Nat}
    (hranks : ∀ item rank, rank? item = some rank → rank < count) (items : List α) :
    scatter? rank? count items =
      some ((List.range count).map fun rank => items.filter (rank? · == some rank)) := by
  unfold scatter?
  induction items using List.reverseRecOn with
  | nil =>
    rw [List.foldlM_nil]
    exact congrArg some (by simp [List.map_const'])
  | append_singleton before last ih =>
    rw [List.foldlM_append, ih]
    simp only [List.foldlM_cons, List.foldlM_nil, List.filter_append]
    cases hlast : rank? last with
    | none => simp [hlast]
    | some position =>
      -- The item goes behind those of its rank that came before it.
      simp only [Option.bind_eq_bind, Option.bind_some,
        putAt?_map_range (hranks last position hlast)]
      refine congrArg some (List.map_congr_left fun rank _ => ?_)
      by_cases hrank : rank = position
      · simp [hlast, hrank]
      · simp [hlast, hrank, Ne.symm hrank]

end Buckets

/-! ## Looking up by position -/

/-- `Resolution.ofCandidates`, the only candidate read by position. -/
def Resolution.ofCandidatesAt? (candidates : List (Extension × Member)) : Option Resolution :=
  match candidates.length with
  | 0 => some .notFound
  | 1 => candidates[0]?.map fun candidate => .supplied candidate.1 candidate.2
  | _ => some (.ambiguous candidates)

theorem Resolution.ofCandidatesAt?_eq_some (candidates : List (Extension × Member)) :
    ofCandidatesAt? candidates = some (ofCandidates candidates) :=
  match candidates with
  | [] | [_] | _ :: _ :: _ => rfl

/-- `NameMeaning.ofCandidates`, the only candidate read by position. -/
def NameMeaning.ofCandidatesAt? (candidates : List (NamespaceId × TypeHash)) : Option NameMeaning :=
  match candidates.length with
  | 0 => some .notFound
  | 1 => candidates[0]?.map fun candidate => .found candidate.2
  | _ => some (.ambiguous candidates)

theorem NameMeaning.ofCandidatesAt?_eq_some (candidates : List (NamespaceId × TypeHash)) :
    ofCandidatesAt? candidates = some (ofCandidates candidates) :=
  match candidates with
  | [] | [_] | _ :: _ :: _ => rfl

namespace Registry

/-- The rank (`depthOf?`) of a valid extension seen from a place. -/
def validDepthOf? (registry : Registry) (chain : ScopeChain) (extension : Extension) : Option Nat :=
  if extension.isValid then registry.depthOf? chain extension else none

/-- `extensionsOf`, each extension read from its slot. -/
def extensionsAt? (registry : Registry) (slots : Table ExtensionId Nat) (hash : TypeHash) :
    Option (List Extension) := do
  let found ← (registry.index.filter (·.1 = hash)).mapM fun entry =>
    registry.extensionAt? slots entry.2
  return found.filterMap id

/-- `extensionOfType?`, the extension read from its slot. -/
def extensionOfTypeAt? (registry : Registry) (slots : Table ExtensionId Nat) (hash : TypeHash) :
    Option (Option Extension) :=
  match registry.extensions.reverse.find? (·.hash = hash) with
  | none => some none
  | some extension => registry.extensionAt? slots extension.id

/-- `tiers`, filled by position: one bucket for each level, and the empty ones left out. -/
def tiersAt? (registry : Registry) (slots : Table ExtensionId Nat) (hash : TypeHash)
    (chain : ScopeChain) : Option (List (List Extension)) := do
  let extensions ← registry.extensionsAt? slots hash
  let buckets ← scatter? (registry.validDepthOf? chain) chain.levels.length extensions
  return buckets.filter (· ≠ [])

/-- `resolveInTiers`, the only candidate read by position. -/
def resolveInTiersAt? (query : MemberQuery) : List (List Extension) → Option Resolution
  | [] => some .notFound
  | tier :: outer =>
    if offers query tier = [] then resolveInTiersAt? query outer
    else Resolution.ofCandidatesAt? (offers query tier)

/-- `qualifyingExtension?`, the extension read from its slot. -/
def qualifyingExtensionAt? (registry : Registry) (slots : Table ExtensionId Nat)
    (query : MemberQuery) : Option (Option Extension) :=
  if query.isStatic then registry.extensionOfTypeAt? slots query.receiver else some none

/-- `resolve`, by positions. -/
def resolveAt? (registry : Registry) (slots : Table ExtensionId Nat) (query : MemberQuery)
    (chain : ScopeChain) : Option Resolution := do
  match ← registry.qualifyingExtensionAt? slots query with
  | some extension => return resolveWithin query extension
  | none =>
    match registry.declared? query with
    | some (owner, member) => return .declared owner member
    | none => resolveInTiersAt? query (← registry.tiersAt? slots query.receiver chain)

theorem resolveInTiersAt?_eq_some (query : MemberQuery) (tiers : List (List Extension)) :
    resolveInTiersAt? query tiers = some (resolveInTiers query tiers) := by
  induction tiers with
  | nil => rfl
  | cons tier outer ih =>
    rw [resolveInTiersAt?, resolveInTiers, ih, Resolution.ofCandidatesAt?_eq_some]
    split <;> rfl

/-- `validDepthOf?` is the number of a level. -/
theorem lt_of_validDepthOf? {registry : Registry} {chain : ScopeChain} {extension : Extension}
    {depth : Nat} (h : registry.validDepthOf? chain extension = some depth) :
    depth < chain.levels.length := by
  rw [validDepthOf?] at h
  split at h
  · exact (depthOf?_eq_some_iff.1 h).depth_lt
  · cases h

namespace Slotted

variable {registry : Registry} {slots : Table ExtensionId Nat} (h : registry.Slotted slots)

include h

theorem extensionsAt?_eq_some (hash : TypeHash) :
    registry.extensionsAt? slots hash = some (registry.extensionsOf hash) := by
  rw [extensionsAt?, mapM_eq_some_map fun entry _ => h.extensionAt?_eq_some entry.2]
  exact congrArg some List.filterMap_map

theorem extensionOfTypeAt?_eq_some (hash : TypeHash) :
    registry.extensionOfTypeAt? slots hash = some (registry.extensionOfType? hash) := by
  unfold extensionOfTypeAt? extensionOfType?
  cases registry.extensions.reverse.find? (·.hash = hash) with
  | none => rfl
  | some extension => exact h.extensionAt?_eq_some extension.id

/-- `tiersAt?` stays in range, and the buckets that are not empty are the `tiers`. -/
theorem tiersAt?_eq_some (hash : TypeHash) (chain : ScopeChain) :
    registry.tiersAt? slots hash chain = some (registry.tiers hash chain) := by
  have hrank : ∀ depth, ((registry.extensionsOf hash).filter fun extension =>
      registry.validDepthOf? chain extension == some depth) = registry.tierAt hash chain depth := by
    intro depth
    refine List.filter_congr fun extension _ => ?_
    rw [validDepthOf?]
    cases extension.isValid <;> simp
  rw [tiersAt?, h.extensionsAt?_eq_some, Option.bind_eq_bind, Option.bind_some,
    scatter?_eq_some fun _ _ => lt_of_validDepthOf?]
  simp only [hrank]
  rfl

/-- `resolveAt?` stays in range, and gives what `resolve` does. -/
theorem resolveAt?_eq_some (query : MemberQuery) (chain : ScopeChain) :
    registry.resolveAt? slots query chain = some (registry.resolve query chain) := by
  have hqualifying : registry.qualifyingExtensionAt? slots query =
      some (registry.qualifyingExtension? query) := by
    rw [qualifyingExtensionAt?, qualifyingExtension?, h.extensionOfTypeAt?_eq_some]
    split <;> rfl
  rw [resolveAt?, resolve, hqualifying, Option.bind_eq_bind, Option.bind_some]
  -- Where neither an own type nor a declared member answers, the tiers do, with slots in range.
  cases registry.qualifyingExtension? query with
  | some extension => rfl
  | none =>
    cases registry.declared? query with
    | some found => rfl
    | none =>
      simp only [h.tiersAt?_eq_some]
      exact resolveInTiersAt?_eq_some _ _

end Slotted

end Registry

end ExtensionMembers
