/-!
# Stable sorting

`stableSort` orders a list by keys, which are compared number by number, and leaves elements with
equal keys in the order they came in.

* `keyLe`: the order of keys, with `keyLe_refl`, `keyLe_trans`, `keyLe_total`, `keyLe_antisymm`.
* `stableSort_perm`: sorting loses and adds nothing.
* `stableSort_sorted`: the keys of the result ascend.
* `stableSort_eq_of_perm`: where no key comes twice, the order of the input does not matter.

## References

- Specification, §4.1, Augmentation Registry (the order of declarations), and §7.1, Error stack (the
  order of diagnostics)
-/

namespace ExtensionMembers

/-- Whether a key comes no later than another one: the first numbers that differ decide, and a key
comes before every longer one that starts with it. -/
def keyLe : List Nat → List Nat → Bool
  | [], _ => true
  | _ :: _, [] => false
  | a :: as, b :: bs => a < b || (a == b && keyLe as bs)

theorem keyLe_refl (a : List Nat) : keyLe a a = true := by
  induction a with
  | nil => rfl
  | cons a as ih => simp [keyLe, ih]

theorem keyLe_trans {a b c : List Nat} (first : keyLe a b = true) (second : keyLe b c = true) :
    keyLe a c = true := by
  induction a generalizing b c with
  | nil => rfl
  | cons a as ih =>
    cases b with
    | nil => simp [keyLe] at first
    | cons b bs =>
      cases c with
      | nil => simp [keyLe] at second
      | cons c cs =>
        simp only [keyLe, Bool.or_eq_true, Bool.and_eq_true, decide_eq_true_eq,
          beq_iff_eq] at first second ⊢
        rcases first with less | ⟨rfl, first⟩ <;> rcases second with less' | ⟨rfl, second⟩
        · exact .inl (Nat.lt_trans less less')
        · exact .inl less
        · exact .inl less'
        · exact .inr ⟨rfl, ih first second⟩

theorem keyLe_total (a b : List Nat) : keyLe a b = true ∨ keyLe b a = true := by
  induction a generalizing b with
  | nil => exact .inl rfl
  | cons a as ih =>
    cases b with
    | nil => exact .inr rfl
    | cons b bs =>
      simp only [keyLe, Bool.or_eq_true, Bool.and_eq_true, decide_eq_true_eq, beq_iff_eq]
      rcases Nat.lt_trichotomy a b with less | rfl | greater
      · exact .inl (.inl less)
      · exact (ih bs).imp (fun below => .inr ⟨rfl, below⟩) fun below => .inr ⟨rfl, below⟩
      · exact .inr (.inl greater)

theorem keyLe_antisymm {a b : List Nat} (below : keyLe a b = true) (above : keyLe b a = true) :
    a = b := by
  induction a generalizing b with
  | nil =>
    cases b with
    | nil => rfl
    | cons b bs => simp [keyLe] at above
  | cons a as ih =>
    cases b with
    | nil => simp [keyLe] at below
    | cons b bs =>
      simp only [keyLe, Bool.or_eq_true, Bool.and_eq_true, decide_eq_true_eq,
        beq_iff_eq] at below above
      rcases below with less | ⟨rfl, below⟩ <;> rcases above with less' | ⟨same, above⟩
      · exact absurd less' (Nat.lt_asymm less)
      · exact absurd less (by simp [same])
      · exact absurd less' (Nat.lt_irrefl a)
      · rw [ih below above]

variable {α : Type}

/-- The list with one element put in front of the first element whose key is not smaller. -/
def insertByKey (key : α → List Nat) (element : α) : List α → List α
  | [] => [element]
  | first :: rest =>
    if keyLe (key element) (key first) then element :: first :: rest
    else first :: insertByKey key element rest

/-- The list in ascending order of keys (`keyLe`), elements with equal keys in the order they came
in. -/
def stableSort (key : α → List Nat) : List α → List α
  | [] => []
  | first :: rest => insertByKey key first (stableSort key rest)

theorem insertByKey_perm (key : α → List Nat) (element : α) (list : List α) :
    (insertByKey key element list).Perm (element :: list) := by
  induction list with
  | nil => exact .refl _
  | cons first rest ih =>
    unfold insertByKey
    split
    · exact .refl _
    · exact (ih.cons first).trans (.swap element first rest)

/-- `stableSort` loses and adds nothing. -/
theorem stableSort_perm (key : α → List Nat) (list : List α) :
    (stableSort key list).Perm list := by
  induction list with
  | nil => exact .refl _
  | cons first rest ih => exact (insertByKey_perm key first _).trans (ih.cons first)

theorem insertByKey_sorted (key : α → List Nat) (element : α) (list : List α)
    (sorted : list.Pairwise fun a b => keyLe (key a) (key b) = true) :
    (insertByKey key element list).Pairwise fun a b => keyLe (key a) (key b) = true := by
  induction list with
  | nil => simp [insertByKey]
  | cons first rest ih =>
    rw [List.pairwise_cons] at sorted
    unfold insertByKey
    split
    · next below =>
      refine List.pairwise_cons.2 ⟨fun other member => ?_, List.pairwise_cons.2 sorted⟩
      rcases List.mem_cons.1 member with rfl | member
      · exact below
      · exact keyLe_trans below (sorted.1 other member)
    · next above =>
      refine List.pairwise_cons.2 ⟨fun other member => ?_, ih sorted.2⟩
      rcases List.mem_cons.1 ((insertByKey_perm key element rest).mem_iff.1 member) with
        rfl | member
      · exact (keyLe_total (key first) (key other)).resolve_right above
      · exact sorted.1 other member

/-- The keys of a list sorted by `stableSort` ascend. -/
theorem stableSort_sorted (key : α → List Nat) (list : List α) :
    (stableSort key list).Pairwise fun a b => keyLe (key a) (key b) = true := by
  induction list with
  | nil => exact .nil
  | cons first rest ih => exact insertByKey_sorted key first _ ih

theorem insertByKey_comm (key : α → List Nat) (a b : α) (distinct : key a ≠ key b)
    (list : List α) :
    insertByKey key a (insertByKey key b list) = insertByKey key b (insertByKey key a list) := by
  have either := keyLe_total (key a) (key b)
  have notBoth : ¬(keyLe (key a) (key b) = true ∧ keyLe (key b) (key a) = true) :=
    fun both => distinct (keyLe_antisymm both.1 both.2)
  induction list with
  | nil => grind [insertByKey]
  | cons first rest ih => grind [insertByKey, keyLe_trans]

/-- Where no key comes twice, `stableSort` does not depend on the order of its input. -/
theorem stableSort_eq_of_perm (key : α → List Nat) {list other : List α}
    (perm : list.Perm other) (distinct : (list.map key).Nodup) :
    stableSort key list = stableSort key other := by
  induction perm with
  | nil => rfl
  | cons first _ ih => simp only [stableSort, ih (List.nodup_cons.1 distinct).2]
  | swap a b rest =>
    have apart : key b ≠ key a := by
      intro same
      simp [same] at distinct
    exact insertByKey_comm key b a apart (stableSort key rest)
  | trans first _ ih ih' =>
    exact (ih distinct).trans (ih' ((first.map key).nodup_iff.1 distinct))

end ExtensionMembers
