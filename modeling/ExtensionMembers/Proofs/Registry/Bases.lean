import ExtensionMembers.Proofs.Collection.Correspondence
import ExtensionMembers.Registry.Basic
import Mathlib.Data.Finset.Card

/-!
# Bases of a type

A type may name any type as its base: one that is missing, itself, or one that has it as a base in
turn. The bases of a type can still be listed by going from each to the next, because a hash that
was seen ends the walk and there are finitely many types. What is listed is as much of the sequence
of bases as there is without a gap and without a repetition.

## Main definitions

* `linkAt?`, `Begins`: a sequence of links, and what it begins with.
* `Registry.Ascends`: registered types without repetition, each one the base of the one before.
* `BaseWalk`, `Registry.walk?`: the walk that keeps what it has seen, round by round.

## Main results

* `begins_trail`, `prefix_trail`: a trail is the longest beginning without a repetition.
* `Registry.walk?_bases`: the walk ends, with the bases that are listed.
* `Registry.bases_longest`: which types are listed, and how many.
-/

namespace ExtensionMembers

/-! ## Sequences of links -/

section Links

variable {α : Type} {next : α → Option α} {start following thing : α} {rest things known : List α}

/-- What is reached from `start` after `count` links of `next`. -/
def linkAt? (next : α → Option α) (start : α) : Nat → Option α
  | 0 => some start
  | count + 1 => (linkAt? next start count).bind next

/-- `linkAt?` may follow the first link first. -/
theorem linkAt?_of_link (hlink : next start = some following) (count : Nat) :
    linkAt? next start (count + 1) = linkAt? next following count := by
  induction count with
  | zero => exact hlink
  | succ count ih => rw [linkAt?, ih, linkAt?]

/-- `linkAt?` reaches nothing without a first link. -/
theorem linkAt?_of_no_link (hlink : next start = none) (count : Nat) :
    linkAt? next start (count + 1) = none := by
  induction count with
  | zero => exact hlink
  | succ count ih => rw [linkAt?, ih, Option.bind_none]

/-- Some `things` are what links lead to one by one (`linkAt?`), the start first. -/
def Begins (next : α → Option α) (start : α) (things : List α) : Prop :=
  ∀ position thing, things[position]? = some thing → linkAt? next start position = some thing

namespace Begins

theorem head_eq (h : Begins next start (thing :: rest)) : thing = start :=
  (Option.some.inj (h 0 thing rfl)).symm

theorem tail (h : Begins next start (thing :: rest)) (hlink : next start = some following) :
    Begins next following rest := by
  intro position other hother
  rw [← linkAt?_of_link hlink]
  exact h (position + 1) other hother

theorem tail_eq_nil (h : Begins next start (thing :: rest)) (hlink : next start = none) :
    rest = [] := by
  cases rest with
  | nil => rfl
  | cons second rest =>
    have hsecond := h 1 second rfl
    rw [linkAt?_of_no_link hlink] at hsecond
    cases hsecond

end Begins

variable [DecidableEq α]

/-- A `trail` goes from link to link. -/
theorem begins_trail (next : α → Option α) (known : List α) (start : α) :
    Begins next start (trail next known start) := by
  -- The cases are those of the trail: a known start with a link, one without, and an unknown one.
  fun_induction trail next known start with
  | case1 known start hin following hlink ih =>
    intro position thing hthing
    cases position with
    | zero => exact hthing
    | succ position =>
      rw [linkAt?_of_link hlink]
      exact ih position thing hthing
  | case2 known start hin hlink =>
    intro position thing hthing
    cases position with
    | zero => exact hthing
    | succ position => cases hthing
  | case3 =>
    intro position thing hthing
    cases hthing

/-- A `trail` goes at least as far as anything that begins the sequence of links (`Begins`) with
known things and without a repetition. -/
theorem prefix_trail (h : Begins next start things) (hknown : things ⊆ known)
    (hnodup : things.Nodup) : things <+: trail next known start := by
  fun_induction trail next known start generalizing things with
  | case1 known start hin following hlink ih =>
    cases things with
    | nil => exact List.nil_prefix
    | cons thing rest =>
      obtain rfl := h.head_eq
      obtain ⟨hnew, hrest⟩ := List.nodup_cons.1 hnodup
      -- What comes after the start is not the start, so it stays known.
      refine List.prefix_cons_inj _ |>.2 (ih (h.tail hlink) (fun other hother => ?_) hrest)
      refine List.mem_filter.2 ⟨hknown (List.mem_cons_of_mem _ hother), ?_⟩
      exact decide_eq_true fun heq => hnew (heq ▸ hother)
  | case2 known start hin hlink =>
    cases things with
    | nil => exact List.nil_prefix
    | cons thing rest =>
      obtain rfl := h.head_eq
      rw [h.tail_eq_nil hlink]
  | case3 known start hout =>
    cases things with
    | nil => exact List.nil_prefix
    | cons thing rest =>
      obtain rfl := h.head_eq
      exact absurd (hknown List.mem_cons_self) hout

end Links

/-! ## Bases -/

namespace Registry

/-- The base of the type with a hash (`NamedType.base`). -/
def base? (registry : Registry) (hash : TypeHash) : Option TypeHash :=
  (registry.type? hash).bind (·.base)

/-- Some hashes begin the sequence of a hash, its base (`base?`), the base of that one and so on.
They are all those of types (`containsType`), and no two are equal. -/
structure Ascends (registry : Registry) (hash : TypeHash) (hashes : List TypeHash) : Prop where
  begins : Begins registry.base? hash hashes
  registered : ∀ other ∈ hashes, registry.containsType other = true
  nodup : hashes.Nodup

/-- A walk along bases in place, as the engine's `base_chain` keeps it: the types met, the hashes
seen and the hash to go on with. -/
structure BaseWalk where
  /-- The types met, the derived one first. -/
  chain : List NamedType
  /-- The hashes seen. -/
  seen : List TypeHash
  /-- The hash to look up next, if there is one. -/
  current : Option TypeHash

/-- The `BaseWalk` before the first round. -/
def BaseWalk.start (hash : TypeHash) : BaseWalk := ⟨[], [], some hash⟩

/-- One round of `walk?`; none if it ends, since there is no hash left, or it was seen, or it is not
that of a type. -/
def BaseWalk.step? (registry : Registry) (walk : BaseWalk) : Option BaseWalk := do
  let hash ← walk.current
  if hash ∈ walk.seen then none
  else
    let type ← registry.type? hash
    return ⟨walk.chain ++ [type], hash :: walk.seen, type.base⟩

/-- A `BaseWalk` after a number of rounds (`step?`); none if it ends before. -/
def walk? (registry : Registry) : Nat → BaseWalk → Option BaseWalk
  | 0, walk => some walk
  | rounds + 1, walk => (walk.step? registry).bind (registry.walk? rounds)

variable {registry : Registry} {hash : TypeHash} {chain : List NamedType} {seen : List TypeHash}

/-- `BaseWalk.step?` adds the type of a hash that was not seen. -/
theorem step?_of_type {type : NamedType} (hnew : hash ∉ seen)
    (htype : registry.type? hash = some type) :
    BaseWalk.step? registry ⟨chain, seen, some hash⟩ =
      some ⟨chain ++ [type], hash :: seen, type.base⟩ := by
  simp [BaseWalk.step?, hnew, htype]

/-- `BaseWalk.step?` ends the walk at a hash that was seen or is not that of a type. -/
theorem step?_of_end (hend : ¬(registry.containsType hash = true ∧ hash ∉ seen)) :
    BaseWalk.step? registry ⟨chain, seen, some hash⟩ = none := by
  by_cases hseen : hash ∈ seen
  · simp [BaseWalk.step?, hseen]
  · have htype : registry.type? hash = none := by
      simpa [containsType, Table.contains, type?, hseen] using hend
    simp [BaseWalk.step?, hseen, htype]

/-- The types on the `trail` of bases through known hashes. -/
def basesWithin (registry : Registry) (known : List TypeHash) (hash : TypeHash) : List NamedType :=
  (trail registry.base? known hash).filterMap registry.type?

/-- If the known hashes are those of types that were not seen, `walk?` meets the types of
`basesWithin`, the trail through them, one each round, and then ends. -/
theorem walk?_basesWithin {known : List TypeHash}
    (hknown : ∀ other, other ∈ known ↔ registry.containsType other = true ∧ other ∉ seen) :
    ∃ final, registry.walk? (registry.basesWithin known hash).length ⟨chain, seen, some hash⟩ =
        some final ∧
      final.step? registry = none ∧ final.chain = chain ++ registry.basesWithin known hash := by
  unfold basesWithin
  fun_induction trail registry.base? known hash generalizing chain seen with
  | case1 known hash hin following hlink ih =>
    obtain ⟨type, htype, hbase⟩ := Option.bind_eq_some_iff.1 hlink
    -- What leaves the known hashes is what is seen from now on.
    have hrest : ∀ other, other ∈ without known hash ↔
        registry.containsType other = true ∧ other ∉ hash :: seen := by
      intro other
      rw [without, List.mem_filter, hknown, List.mem_cons, decide_eq_true_eq, not_or, and_assoc,
        and_comm (b := other ≠ hash)]
    obtain ⟨final, hfinal, hend, hchain⟩ := @ih (chain ++ [type]) (hash :: seen) hrest
    rw [List.filterMap_cons_some htype]
    refine ⟨final, ?_, hend, ?_⟩
    · rw [List.length_cons, walk?, step?_of_type ((hknown hash).1 hin).2 htype, Option.bind_some,
        hbase, hfinal]
    · rw [hchain, List.append_assoc, List.singleton_append]
  | case2 known hash hin hlink =>
    obtain ⟨hregistered, hnew⟩ := (hknown hash).1 hin
    obtain ⟨type, htype⟩ : ∃ type, registry.type? hash = some type :=
      Option.isSome_iff_exists.1 hregistered
    have hbase : type.base = none := by rwa [base?, htype, Option.bind_some] at hlink
    refine ⟨⟨chain ++ [type], hash :: seen, none⟩, ?_, rfl, ?_⟩
    · rw [List.filterMap_cons_some htype, List.filterMap_nil, List.length_singleton, walk?,
        step?_of_type hnew htype, Option.bind_some, hbase, walk?]
    · rw [List.filterMap_cons_some htype, List.filterMap_nil]
  | case3 known hash hout =>
    exact ⟨_, rfl, step?_of_end fun h => hout ((hknown hash).2 h), (List.append_nil _).symm⟩

/-- `bases` are listed along the trail through all types (`basesWithin`). -/
theorem bases_eq_basesWithin (registry : Registry) (hash : TypeHash) :
    registry.bases hash = registry.basesWithin registry.types.keys hash := rfl

/-- The `trail` of bases goes through types without repetition (`Ascends`). -/
theorem ascends_trail (registry : Registry) (hash : TypeHash) :
    registry.Ascends hash (trail registry.base? registry.types.keys hash) where
  begins := begins_trail _ _ _
  registered other hother := (registry.types.mem_keys_iff other).1 (mem_of_mem_trail _ _ _ _ hother)
  nodup := nodup_trail _ _ _

/-- Each hash on a trail of bases is that of one type (`type?`). -/
theorem forall₂_types {hashes : List TypeHash}
    (h : ∀ other ∈ hashes, registry.containsType other = true) :
    List.Forall₂ (fun other type => registry.type? other = some type) hashes
      (hashes.filterMap registry.type?) := by
  induction hashes with
  | nil => exact .nil
  | cons first rest ih =>
    obtain ⟨type, htype⟩ : ∃ type, registry.type? first = some type :=
      Option.isSome_iff_exists.1 (h first List.mem_cons_self)
    rw [List.filterMap_cons_some htype]
    exact .cons htype (ih fun other hother => h other (List.mem_cons_of_mem first hother))

/-- `bases` lists the bases of a type for every registry, also if some are missing or come again.
They are the types of the longest sequence of a hash, its base, the base of that one and so on in
which all hashes are those of types and no two are equal (`Ascends`). There are at most as many as
there are types. The walk in place (`walk?`) lists them as well: it ends after one round
for each of them. -/
theorem bases_longest (registry : Registry) (hash : TypeHash) :
    ∃ hashes, registry.Ascends hash hashes ∧
      (∀ others, registry.Ascends hash others → others <+: hashes) ∧
      List.Forall₂ (fun other type => registry.type? other = some type) hashes
        (registry.bases hash) ∧
      (registry.bases hash).length ≤ registry.types.keys.toFinset.card ∧
      ∃ final, registry.walk? (registry.bases hash).length (.start hash) = some final ∧
        final.step? registry = none ∧ final.chain = registry.bases hash := by
  have hascends := registry.ascends_trail hash
  have htypes : List.Forall₂ (fun other type => registry.type? other = some type)
      (trail registry.base? registry.types.keys hash) (registry.bases hash) :=
    forall₂_types hascends.registered
  have hsubset : (trail registry.base? registry.types.keys hash).toFinset ⊆
      registry.types.keys.toFinset := by
    intro other hother
    rw [List.mem_toFinset] at hother ⊢
    exact mem_of_mem_trail _ _ _ _ hother
  refine ⟨_, hascends, fun others hothers => ?_, htypes, ?_, ?_⟩
  · -- Whatever ascends is known and free of repetitions, so the trail goes as far.
    refine prefix_trail hothers.begins (fun other hother => ?_) hothers.nodup
    exact (registry.types.mem_keys_iff other).2 (hothers.registered other hother)
  · rw [← htypes.length_eq, ← List.toFinset_card_of_nodup hascends.nodup]
    exact Finset.card_le_card hsubset
  · rw [bases_eq_basesWithin]
    refine walk?_basesWithin fun other => ?_
    rw [registry.types.mem_keys_iff]
    exact (and_iff_left List.not_mem_nil).symm

/-- Two classes that are the base of each other are both listed, once. -/
example :
    let hen : NamedType := { NamedType.bare (.global "Hen") .plainClass .unplaced with
      base := some (QualifiedName.global "Egg").hash }
    let egg : NamedType := { NamedType.bare (.global "Egg") .plainClass .unplaced with
      base := some hen.hash }
    ((empty.registerType hen).2.registerType egg).2.bases hen.hash = [hen, egg] := by
  decide +kernel

end Registry

end ExtensionMembers
