import ExtensionMembers.Collection.StableSort
import Mathlib.Data.List.Forall2

/-!
# What makes a sort stable

A stable sort is told by two things: the keys of its result ascend, and for each key the elements
that have it are those of the input, in the order of the input. No two lists are such a result for
one input, so parts of a list may be sorted before the whole is, with no effect on the outcome.

## Main definitions

* `StablySorts`: a list is another one, stably sorted.

## Main results

* `stablySorts_iff`: there is one such list, and it is what `stableSort` gives.
* `stablySorts_flatten_iff`: parts that are sorted already.
-/

namespace ExtensionMembers

variable {α : Type} {key : α → List Nat}

/-- The keys of `sorted` ascend, and the elements with any one key are those of `list`, in the same
order. -/
structure StablySorts (key : α → List Nat) (list sorted : List α) : Prop where
  ascending : sorted.Pairwise fun a b => keyLe (key a) (key b) = true
  filter_eq : ∀ common, sorted.filter (key · = common) = list.filter (key · = common)

/-- What `insertByKey` puts in among elements comes before those with its key. -/
theorem filter_insertByKey (key : α → List Nat) (element : α) (list : List α)
    (common : List Nat) :
    (insertByKey key element list).filter (key · = common) =
      (element :: list).filter (key · = common) := by
  induction list with
  | nil => rfl
  | cons first rest ih =>
    rw [insertByKey]
    split
    next => rfl
    next habove =>
      -- It goes past `first`, so the two have different keys and at most one of them is kept.
      have hne : key element ≠ key first := fun heq => habove (heq ▸ keyLe_refl _)
      rw [List.filter_cons, ih]
      by_cases hfirst : key first = common
      · have helement : key element ≠ common := fun heq => hne (heq.trans hfirst.symm)
        simp [hfirst, helement]
      · simp [List.filter_cons, hfirst]

theorem stablySorts_stableSort (key : α → List Nat) (list : List α) :
    StablySorts key list (stableSort key list) := by
  refine ⟨stableSort_sorted key list, fun common => ?_⟩
  induction list with
  | nil => rfl
  | cons first rest ih =>
    rw [stableSort, filter_insertByKey, List.filter_cons, List.filter_cons, ih]

/-- Elements are told by what `filter` keeps for their keys. -/
theorem mem_of_filter_eq {list other : List α}
    (h : ∀ common, list.filter (key · = common) = other.filter (key · = common)) {element : α}
    (hin : element ∈ list) : element ∈ other := by
  have hkept : element ∈ list.filter (key · = key element) :=
    List.mem_filter.2 ⟨hin, decide_eq_true rfl⟩
  rw [h] at hkept
  exact (List.mem_filter.1 hkept).1

/-- The first of some elements in order has the least key. -/
theorem keyLe_of_mem_cons {first element : α} {rest : List α}
    (h : (first :: rest).Pairwise fun a b => keyLe (key a) (key b) = true)
    (hin : element ∈ first :: rest) : keyLe (key first) (key element) = true := by
  rcases List.mem_cons.1 hin with rfl | hin
  · exact keyLe_refl _
  · exact (List.pairwise_cons.1 h).1 element hin

/-- Lists in the order of `keyLe` that have the same elements for each key, in the same order, are
the same. -/
theorem eq_of_filter_eq {list other : List α}
    (hlist : list.Pairwise fun a b => keyLe (key a) (key b) = true)
    (hother : other.Pairwise fun a b => keyLe (key a) (key b) = true)
    (h : ∀ common, list.filter (key · = common) = other.filter (key · = common)) :
    list = other := by
  induction list generalizing other with
  | nil =>
    cases other with
    | nil => rfl
    | cons second others =>
      cases mem_of_filter_eq (fun common => (h common).symm) List.mem_cons_self
  | cons first rest ih =>
    cases other with
    | nil => cases mem_of_filter_eq h List.mem_cons_self
    | cons second others =>
      -- The first elements have the least key on their sides, hence one key, for which they are
      -- the first to be kept.
      have hkey : key first = key second := keyLe_antisymm
        (keyLe_of_mem_cons hlist (mem_of_filter_eq (fun common => (h common).symm)
          List.mem_cons_self))
        (keyLe_of_mem_cons hother (mem_of_filter_eq h List.mem_cons_self))
      have hsame : first = second := by
        have hcommon := h (key second)
        rw [List.filter_cons_of_pos (by simp [hkey]), List.filter_cons_of_pos (by simp)] at hcommon
        exact (List.cons.inj hcommon).1
      subst hsame
      refine congrArg (first :: ·) (ih hlist.of_cons hother.of_cons fun common => ?_)
      have hcommon := h common
      rw [List.filter_cons, List.filter_cons] at hcommon
      split at hcommon
      next => exact (List.cons.inj hcommon).2
      next => exact hcommon

/-- A list has one stable sort (`StablySorts`), that of `stableSort`. -/
theorem stablySorts_iff {list sorted : List α} :
    StablySorts key list sorted ↔ sorted = stableSort key list := by
  constructor
  · intro h
    have hsort := stablySorts_stableSort key list
    exact eq_of_filter_eq h.ascending hsort.ascending fun common =>
      (h.filter_eq common).trans (hsort.filter_eq common).symm
  · rintro rfl
    exact stablySorts_stableSort key list

/-- Sorting the parts of a list by `StablySorts` keeps the elements of each key, in their order. -/
theorem filter_flatten_of_stablySorts {parts sortedParts : List (List α)}
    (h : List.Forall₂ (StablySorts key) parts sortedParts) (common : List Nat) :
    sortedParts.flatten.filter (key · = common) = parts.flatten.filter (key · = common) := by
  induction h with
  | nil => rfl
  | cons hpart _ ih =>
    rw [List.flatten_cons, List.flatten_cons, List.filter_append, List.filter_append,
      hpart.filter_eq, ih]

/-- `StablySorts` does not tell whether the parts of a list are sorted before the whole is. -/
theorem stablySorts_flatten_iff {parts sortedParts : List (List α)}
    (h : List.Forall₂ (StablySorts key) parts sortedParts) {sorted : List α} :
    StablySorts key sortedParts.flatten sorted ↔ StablySorts key parts.flatten sorted := by
  have hfilter := filter_flatten_of_stablySorts h
  exact ⟨fun h => ⟨h.ascending, fun common => (h.filter_eq common).trans (hfilter common)⟩,
    fun h => ⟨h.ascending, fun common => (h.filter_eq common).trans (hfilter common).symm⟩⟩

end ExtensionMembers
