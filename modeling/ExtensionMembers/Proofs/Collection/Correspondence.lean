import ExtensionMembers.Collection.StableSort
import ExtensionMembers.Collection.Trail
import Mathlib.Data.List.Forall2
import Mathlib.Data.List.Perm.Basic

/-!
# Lists that correspond

Two lists correspond if their elements are related one by one. Searching, cutting, sorting and
following links keeps this, as long as the tests, keys and links of related elements agree.

* `forall₂_takeWhile`, `findIdx?_eq_of_forall₂`, `rel_findSome?`: cuts and searches.
* `stableSort_replace`, `forall₂_stableSort`, `stableSort_eq_self`: sorting.
* `pairwise_iff_of_forall₂`: what holds of any two elements in their order.
* `SameMembers`: lists with the same members, each any number of times.
* `Rearranged`: lists that correspond up to their order, with `Rearranged.find?`.
* `trail_forall₂`: trails along related links.
-/

namespace ExtensionMembers

variable {α β γ δ : Type} {R : α → β → Prop} {P : γ → δ → Prop}

theorem forall₂_takeWhile {test : α → Bool} {test' : β → Bool}
    (htest : ∀ a b, R a b → test a = test' b) {list : List α} {other : List β}
    (h : List.Forall₂ R list other) :
    List.Forall₂ R (list.takeWhile test) (other.takeWhile test') := by
  induction h with
  | nil => exact .nil
  | @cons a b _ _ hab _ ih =>
    rw [List.takeWhile_cons, List.takeWhile_cons, htest a b hab]
    split
    · exact .cons hab ih
    · exact .nil

theorem map_eq_of_forall₂ {f : α → γ} {g : β → γ} (hmap : ∀ a b, R a b → f a = g b)
    {list : List α} {other : List β} (h : List.Forall₂ R list other) :
    list.map f = other.map g := by
  induction h with
  | nil => rfl
  | cons hab _ ih => rw [List.map_cons, List.map_cons, hmap _ _ hab, ih]

theorem findIdx?_eq_of_forall₂ {test : α → Bool} {test' : β → Bool}
    (htest : ∀ a b, R a b → test a = test' b) {list : List α} {other : List β}
    (h : List.Forall₂ R list other) : list.findIdx? test = other.findIdx? test' := by
  have hmap := congrArg (List.findIdx? id) (map_eq_of_forall₂ htest h)
  rwa [List.findIdx?_map, List.findIdx?_map] at hmap

theorem rel_head? {list : List α} {other : List β} (h : List.Forall₂ R list other) :
    Option.Rel R list.head? other.head? := by
  cases h with
  | nil => exact .none
  | cons hab _ => exact .some hab

theorem rel_findSome? {pick : α → Option γ} {pick' : β → Option δ}
    (hpick : ∀ a b, R a b → Option.Rel P (pick a) (pick' b)) {list : List α} {other : List β}
    (h : List.Forall₂ R list other) :
    Option.Rel P (list.findSome? pick) (other.findSome? pick') := by
  rw [← List.head?_filterMap, ← List.head?_filterMap]
  exact rel_head? (List.rel_filterMap (fun a b hab => hpick a b hab) h)

theorem rel_bind {pick : α → Option γ} {pick' : β → Option δ}
    (hpick : ∀ a b, R a b → Option.Rel P (pick a) (pick' b)) {first : Option α} {other : Option β}
    (h : Option.Rel R first other) : Option.Rel P (first.bind pick) (other.bind pick') := by
  cases h with
  | none => exact .none
  | some hab => exact hpick _ _ hab

theorem rel_imp {R' : α → β → Prop} (himp : ∀ a b, R a b → R' a b) {first : Option α}
    {other : Option β} (h : Option.Rel R first other) : Option.Rel R' first other := by
  cases h with
  | none => exact .none
  | some hab => exact .some (himp _ _ hab)

theorem rel_map {f : α → γ} {g : β → δ} (hmap : ∀ a b, R a b → P (f a) (g b)) {first : Option α}
    {other : Option β} (h : Option.Rel R first other) :
    Option.Rel P (first.map f) (other.map g) := by
  cases h with
  | none => exact .none
  | some hab => exact .some (hmap _ _ hab)

theorem option_rel_eq_iff {a b : Option α} : Option.Rel (· = ·) a b ↔ a = b := by
  constructor
  · rintro (h | _)
    · rw [h]
    · rfl
  · rintro rfl
    cases a with
    | none => exact .none
    | some a => exact .some rfl

theorem rel_find? {test : α → Bool} {test' : β → Bool}
    (htest : ∀ a b, R a b → test a = test' b) {list : List α} {other : List β}
    (h : List.Forall₂ R list other) : Option.Rel R (list.find? test) (other.find? test') := by
  rw [← List.head?_filter, ← List.head?_filter]
  exact rel_head? (List.rel_filter (fun a b hab => Bool.eq_iff_iff.1 (htest a b hab)) h)

theorem rel_getElem? {list : List α} {other : List β} (h : List.Forall₂ R list other)
    (index : Nat) : Option.Rel R list[index]? other[index]? := by
  induction h generalizing index with
  | nil => exact .none
  | cons hab _ ih =>
    cases index with
    | zero => exact .some hab
    | succ index => simpa using ih index

theorem forall₂_and_right {Q : β → Prop} {list : List α} {other : List β}
    (h : List.Forall₂ R list other) (hother : ∀ b ∈ other, Q b) :
    List.Forall₂ (fun a b => R a b ∧ Q b) list other :=
  (((List.forall₂_and_left _ _).2 ⟨hother, h.flip⟩).imp fun _ _ ⟨hb, hab⟩ => ⟨hab, hb⟩).flip

theorem forall_mem_iff_of_forall₂ {Q : α → Prop} {Q' : β → Prop}
    (hiff : ∀ a b, R a b → (Q a ↔ Q' b)) {list : List α} {other : List β}
    (h : List.Forall₂ R list other) : (∀ a ∈ list, Q a) ↔ ∀ b ∈ other, Q' b := by
  induction h with
  | nil => simp
  | cons hab _ ih => rw [List.forall_mem_cons, List.forall_mem_cons, hiff _ _ hab, ih]

theorem pairwise_iff_of_forall₂ {S : α → α → Prop} {S' : β → β → Prop}
    (hiff : ∀ a b a' b', R a b → R a' b' → (S a a' ↔ S' b b')) {list : List α} {other : List β}
    (h : List.Forall₂ R list other) : list.Pairwise S ↔ other.Pairwise S' := by
  induction h with
  | nil => simp
  | cons hab hrest ih =>
    rw [List.pairwise_cons, List.pairwise_cons, ih,
      forall_mem_iff_of_forall₂ (fun _ _ hab' => hiff _ _ _ _ hab hab') hrest]

/-! ## Lists with the same members -/

/-- Two lists have the same members, each any number of times and in any order. -/
def SameMembers (list other : List α) : Prop := ∀ a, a ∈ list ↔ a ∈ other

namespace SameMembers

variable {list other : List α}

instance [DecidableEq α] : Decidable (SameMembers list other) :=
  decidable_of_iff ((∀ a ∈ list, a ∈ other) ∧ ∀ a ∈ other, a ∈ list)
    ⟨fun h a => ⟨h.1 a, h.2 a⟩, fun h => ⟨fun a => (h a).1, fun a => (h a).2⟩⟩

theorem refl (list : List α) : SameMembers list list := fun _ => Iff.rfl

theorem filterMap (h : SameMembers list other) (pick : α → Option β) :
    SameMembers (list.filterMap pick) (other.filterMap pick) := by
  intro b
  simp only [List.mem_filterMap, h _]

end SameMembers

/-! ## Lists in another order -/

/-- The elements of two lists correspond by `R`, those of the second list perhaps in another
order. -/
def Rearranged (R : α → β → Prop) (list : List α) (other : List β) : Prop :=
  ∃ middle, List.Forall₂ R list middle ∧ middle.Perm other

theorem Rearranged.of_forall₂ {list : List α} {other : List β} (h : List.Forall₂ R list other) :
    Rearranged R list other :=
  ⟨other, h, .refl other⟩

/-- Lists are `Rearranged` if their keys are the same up to their order. -/
theorem Rearranged.of_map_perm {key : α → γ} {key' : β → γ} {Q : α → Prop} {Q' : β → Prop}
    {list : List α} {other : List β} (h : (list.map key).Perm (other.map key'))
    (hlist : ∀ a ∈ list, Q a) (hother : ∀ b ∈ other, Q' b) :
    Rearranged (fun a b => key a = key' b ∧ Q a ∧ Q' b) list other := by
  have hkeys : List.Forall₂ (fun k b => k = key' b ∧ Q' b) (other.map key') other :=
    List.forall₂_map_left_iff.2 (List.forall₂_same.2 fun b hb => ⟨rfl, hother b hb⟩)
  obtain ⟨middle, hmiddle, hperm⟩ := List.perm_comp_forall₂ h hkeys
  refine ⟨middle, ?_, hperm⟩
  refine ((List.forall₂_and_left _ _).2 ⟨hlist, List.forall₂_map_left_iff.1 hmiddle⟩).imp ?_
  exact fun _ _ ⟨ha, hkey, hb⟩ => ⟨hkey, ha, hb⟩

namespace Rearranged

variable {list : List α} {other : List β} (h : Rearranged R list other)

include h

theorem length_eq : list.length = other.length := by
  obtain ⟨middle, hmiddle, hperm⟩ := h
  exact hmiddle.length_eq.trans hperm.length_eq

theorem map_perm {f : α → γ} {g : β → γ} (hmap : ∀ a b, R a b → f a = g b) :
    (list.map f).Perm (other.map g) := by
  obtain ⟨middle, hmiddle, hperm⟩ := h
  rw [map_eq_of_forall₂ hmap hmiddle]
  exact hperm.map g

theorem filterMap {pick : α → Option γ} {pick' : β → Option δ}
    (hpick : ∀ a b, R a b → Option.Rel P (pick a) (pick' b)) :
    Rearranged P (list.filterMap pick) (other.filterMap pick') := by
  obtain ⟨middle, hmiddle, hperm⟩ := h
  exact ⟨_, List.rel_filterMap (fun a b hab => hpick a b hab) hmiddle, hperm.filterMap pick'⟩

theorem filter {test : α → Bool} {test' : β → Bool} (htest : ∀ a b, R a b → test a = test' b) :
    Rearranged R (list.filter test) (other.filter test') := by
  obtain ⟨middle, hmiddle, hperm⟩ := h
  exact ⟨_, List.rel_filter (fun a b hab => Bool.eq_iff_iff.1 (htest a b hab)) hmiddle,
    hperm.filter test'⟩

theorem reverse : Rearranged R list.reverse other.reverse := by
  obtain ⟨middle, hmiddle, hperm⟩ := h
  exact ⟨_, List.rel_reverse hmiddle,
    (List.reverse_perm middle).trans (hperm.trans (List.reverse_perm other).symm)⟩

/-- Where no two elements pass a test, `Rearranged` lists are searched alike. -/
theorem find? {test : α → Bool} {test' : β → Bool} (htest : ∀ a b, R a b → test a = test' b)
    (hunique : ∀ b ∈ other, ∀ b' ∈ other, test' b = true → test' b' = true → b = b') :
    Option.Rel R (list.find? test) (other.find? test') := by
  obtain ⟨middle, hmiddle, hperm⟩ := h
  -- What passes the test is in both lists, and nothing else passes it.
  have hfound : middle.find? test' = other.find? test' := by
    cases hother : other.find? test' with
    | none =>
      refine List.find?_eq_none.2 fun b hb => ?_
      exact List.find?_eq_none.1 hother b (hperm.subset hb)
    | some b =>
      have hin := List.mem_of_find?_eq_some hother
      have hpasses := List.find?_some hother
      obtain ⟨b', hb'⟩ := Option.isSome_iff_exists.1
        (List.find?_isSome.2 ⟨b, hperm.mem_iff.2 hin, hpasses⟩)
      rw [hb', hunique b' (hperm.subset (List.mem_of_find?_eq_some hb')) b hin
        (List.find?_some hb') hpasses]
  rw [← hfound]
  exact rel_find? htest hmiddle

end Rearranged

/-! ## Sorting -/

section Sorting

variable {key : α → List Nat} {a other : α}

theorem insertByKey_replace (hkey : key a = key other) (element : α) (before after : List α) :
    ∃ before' after', insertByKey key element (before ++ a :: after) = before' ++ a :: after' ∧
      insertByKey key element (before ++ other :: after) = before' ++ other :: after' := by
  induction before with
  | nil =>
    rw [List.nil_append, List.nil_append, insertByKey, insertByKey, hkey]
    split
    · exact ⟨[element], after, rfl, rfl⟩
    · exact ⟨[], insertByKey key element after, rfl, rfl⟩
  | cons first before ih =>
    rw [List.cons_append, List.cons_append, insertByKey, insertByKey]
    split
    · exact ⟨element :: first :: before, after, rfl, rfl⟩
    · obtain ⟨before', after', h, h'⟩ := ih
      exact ⟨first :: before', after', by rw [h]; rfl, by rw [h']; rfl⟩

theorem insertByKey_self (hkey : key a = key other) (list : List α) :
    ∃ before after, insertByKey key a list = before ++ a :: after ∧
      insertByKey key other list = before ++ other :: after := by
  induction list with
  | nil => exact ⟨[], [], rfl, rfl⟩
  | cons first rest ih =>
    rw [insertByKey, insertByKey, hkey]
    split
    · exact ⟨[], first :: rest, rfl, rfl⟩
    · obtain ⟨before, after, h, h'⟩ := ih
      exact ⟨first :: before, after, by rw [h]; rfl, by rw [h']; rfl⟩

/-- `stableSort` puts an element at the same place as another one with the same key. -/
theorem stableSort_replace (hkey : key a = key other) (before after : List α) :
    ∃ before' after', stableSort key (before ++ a :: after) = before' ++ a :: after' ∧
      stableSort key (before ++ other :: after) = before' ++ other :: after' := by
  induction before with
  | nil => exact insertByKey_self hkey (stableSort key after)
  | cons first before ih =>
    obtain ⟨before', after', h, h'⟩ := ih
    rw [List.cons_append, List.cons_append, stableSort, stableSort, h, h']
    exact insertByKey_replace hkey first before' after'

end Sorting

/-- `insertByKey` puts elements with the same key at the same place of lists that correspond. -/
theorem forall₂_insertByKey {key : α → List Nat} {key' : β → List Nat}
    (hkey : ∀ a b, R a b → key a = key' b) {a : α} {b : β} (hab : R a b) {list : List α}
    {other : List β} (h : List.Forall₂ R list other) :
    List.Forall₂ R (insertByKey key a list) (insertByKey key' b other) := by
  induction h with
  | nil => exact .cons hab .nil
  | cons hfirst hrest ih =>
    rw [insertByKey, insertByKey, hkey _ _ hab, hkey _ _ hfirst]
    split
    · exact .cons hab (.cons hfirst hrest)
    · exact .cons hfirst ih

/-- `stableSort` sorts lists alike that correspond, element by element with the same key. -/
theorem forall₂_stableSort {key : α → List Nat} {key' : β → List Nat}
    (hkey : ∀ a b, R a b → key a = key' b) {list : List α} {other : List β}
    (h : List.Forall₂ R list other) :
    List.Forall₂ R (stableSort key list) (stableSort key' other) := by
  induction h with
  | nil => exact .nil
  | cons hab _ ih => exact forall₂_insertByKey hkey hab ih

/-- `stableSort` leaves a list that is in order as it is. -/
theorem stableSort_eq_self {key : α → List Nat} {list : List α}
    (h : list.Pairwise fun a b => keyLe (key a) (key b) = true) : stableSort key list = list := by
  induction list with
  | nil => rfl
  | cons first rest ih =>
    obtain ⟨hfirst, hrest⟩ := List.pairwise_cons.1 h
    rw [stableSort, ih hrest]
    cases rest with
    | nil => rfl
    | cons second rest => rw [insertByKey, if_pos (hfirst second List.mem_cons_self)]

/-! ## Trails -/

theorem trail_of_link [DecidableEq α] {next : α → Option α} {known : List α} {start following : α}
    (hin : start ∈ known) (hlink : next start = some following) :
    trail next known start = start :: trail next (without known start) following := by
  rw [trail, dif_pos hin, hlink]

theorem trail_of_no_link [DecidableEq α] {next : α → Option α} {known : List α} {start : α}
    (hin : start ∈ known) (hlink : next start = none) : trail next known start = [start] := by
  rw [trail, dif_pos hin, hlink]

/-- The `trail` along related links corresponds, if related things are known alike and no thing is
related to two. -/
theorem trail_forall₂ [DecidableEq α] [DecidableEq β] {next : α → Option α} {next' : β → Option β}
    (hunique : ∀ a b a' b', R a b → R a' b' → (a = a' ↔ b = b'))
    (hnext : ∀ a b, R a b → Option.Rel R (next a) (next' b)) {known : List α} {known' : List β}
    (hknown : ∀ a b, R a b → (a ∈ known ↔ b ∈ known')) {start : α} {start' : β}
    (hstart : R start start') :
    List.Forall₂ R (trail next known start) (trail next' known' start') := by
  fun_induction trail next known start generalizing known' start' with
  | case1 known start hin following hlink ih =>
    have hin' := (hknown start start' hstart).1 hin
    have hrel := hnext start start' hstart
    rw [hlink] at hrel
    cases hlink' : next' start' with
    | none =>
      rw [hlink'] at hrel
      cases hrel
    | some following' =>
      rw [hlink'] at hrel
      rw [trail_of_link hin' hlink']
      cases hrel with
      | some hfollowing =>
        refine .cons hstart (ih (fun a b hab => ?_) hfollowing)
        -- What is left out on one side is left out on the other.
        simp only [without, List.mem_filter, decide_eq_true_eq, ne_eq]
        rw [hknown a b hab, hunique a b start start' hab hstart]
  | case2 known start hin hlink =>
    have hin' := (hknown start start' hstart).1 hin
    have hrel := hnext start start' hstart
    rw [hlink] at hrel
    cases hlink' : next' start' with
    | none =>
      rw [trail_of_no_link hin' hlink']
      exact .cons hstart .nil
    | some following' =>
      rw [hlink'] at hrel
      cases hrel
  | case3 known start hout =>
    rw [trail, dif_neg fun hin => hout ((hknown start start' hstart).2 hin)]
    exact .nil

end ExtensionMembers
