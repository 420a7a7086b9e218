import Mathlib.Algebra.Order.Ring.Nat
import Mathlib.Data.List.Forall2
import Mathlib.Data.List.Nodup
import Mathlib.Data.List.Perm.Basic

/-!
# Traversals of lists

Facts about lists that are walked with steps that may fail, and about lists that are gathered by
position.

* `bind_eq_ok_iff`, `mapM_eq_ok_iff_forall₂`: success of a sequence of steps, step by step.
* `bind_eq_error_iff`, `mapM_eq_error_iff`, `foldlM_zipIdx_eq_error_iff`: the first step that fails.
* `mapM_eq_some_map`, `foldlM_eq_some_foldl`: steps none of which fails.
* `exists_forall₂_iff`: partners for all items, item by item.
* `countP_le_sum_of_forall₂`: items counted by their partners.
* `foldlM_zipIdx_invariant`: what each step of a numbered loop keeps, the loop keeps.
* `map_filterMap_sublist`: what is picked from a list keeps its order.
* `lookup_eq_some_iff_mem`: looking up one of several distinct keys.
* `flatMap_lookup_perm`: the values of distinct keys, gathered key by key.
* `set_map_range`, `zip_map_range`: a list made position by position, written to and read beside
  another one.
-/

namespace ExtensionMembers

/-- Two steps succeed if the first does and then the second does. -/
theorem bind_eq_ok_iff {ε α β : Type} {first : Except ε α} {next : α → Except ε β} {result : β} :
    (first >>= next) = .ok result ↔ ∃ value, first = .ok value ∧ next value = .ok result := by
  cases first with
  | error fault => simp [Bind.bind, Except.bind]
  | ok value => simp [Bind.bind, Except.bind]

theorem map_eq_ok_iff {ε α β : Type} {f : α → β} {first : Except ε α} {result : β} :
    first.map f = .ok result ↔ ∃ value, first = .ok value ∧ f value = result := by
  cases first with
  | error fault => simp [Except.map]
  | ok value => simp [Except.map]

/-- `mapM` succeeds if each `step` does. -/
theorem mapM_eq_ok_iff_forall₂ {ε α β : Type} {step : α → Except ε β} {items : List α}
    {results : List β} :
    items.mapM step = .ok results ↔
      List.Forall₂ (fun item result => step item = .ok result) items results := by
  induction items generalizing results with
  | nil =>
    cases results with
    | nil => simp [pure, Except.pure]
    | cons result rest => simp [pure, Except.pure]
  | cons item items ih =>
    rw [List.mapM_cons, bind_eq_ok_iff]
    constructor
    · rintro ⟨result, hstep, hrest⟩
      obtain ⟨rest, hitems, hpure⟩ := bind_eq_ok_iff.1 hrest
      obtain rfl := Except.ok.inj hpure
      exact .cons hstep (ih.1 hitems)
    · intro h
      cases h with
      | cons hstep hrest => exact ⟨_, hstep, bind_eq_ok_iff.2 ⟨_, ih.2 hrest, rfl⟩⟩

/-- Two steps fail if the first does, or if the second does after it. -/
theorem bind_eq_error_iff {ε α β : Type} {first : Except ε α} {next : α → Except ε β} {fault : ε} :
    (first >>= next) = .error fault ↔
      first = .error fault ∨ ∃ value, first = .ok value ∧ next value = .error fault := by
  cases first with
  | error other => simp [Bind.bind, Except.bind]
  | ok value => simp [Bind.bind, Except.bind]

/-- `mapM` fails as the first `step` that fails. -/
theorem mapM_eq_error_iff {ε α β : Type} {step : α → Except ε β} {items : List α} {fault : ε} :
    items.mapM step = .error fault ↔ ∃ before item after, items = before ++ item :: after ∧
      (∀ other ∈ before, ∃ result, step other = .ok result) ∧ step item = .error fault := by
  -- The first step fails, or it succeeds and the item in question is one of the others.
  induction items with
  | nil => simp [pure, Except.pure]
  | cons first rest ih =>
    rw [List.mapM_cons, bind_eq_error_iff]
    constructor
    · rintro (hfirst | ⟨result, hfirst, hrest⟩)
      · exact ⟨[], first, rest, rfl, by simp, hfirst⟩
      · rcases bind_eq_error_iff.1 hrest with hrest | ⟨_, _, hpure⟩
        · obtain ⟨before, item, after, rfl, hbefore, hitem⟩ := ih.1 hrest
          exact ⟨first :: before, item, after, rfl,
            List.forall_mem_cons.2 ⟨⟨result, hfirst⟩, hbefore⟩, hitem⟩
        · cases hpure
    · rintro ⟨before, item, after, hsplit, hbefore, hitem⟩
      cases before with
      | nil =>
        obtain ⟨rfl, rfl⟩ := List.cons.inj hsplit
        exact .inl hitem
      | cons head before =>
        obtain ⟨rfl, rfl⟩ := List.cons.inj hsplit
        obtain ⟨⟨result, hfirst⟩, hbefore⟩ := List.forall_mem_cons.1 hbefore
        exact .inr ⟨result, hfirst,
          bind_eq_error_iff.2 (.inl (ih.2 ⟨before, item, after, rfl, hbefore, hitem⟩))⟩

/-- `foldlM` over numbered items fails at the first item whose `step` fails, in the state that the
items before leave. -/
theorem foldlM_zipIdx_eq_error_iff {ε α β : Type} {step : β → α × Nat → Except ε β}
    {items : List α} {read : Nat} {state : β} {fault : ε} :
    (items.zipIdx read).foldlM step state = .error fault ↔
      ∃ before item after reached, items = before ++ item :: after ∧
        (before.zipIdx read).foldlM step state = .ok reached ∧
        step reached (item, read + before.length) = .error fault := by
  -- The state changes from step to step, so the induction is for any state and number.
  induction items generalizing read state with
  | nil => simp [pure, Except.pure]
  | cons first rest ih =>
    rw [List.zipIdx_cons, List.foldlM_cons, bind_eq_error_iff]
    have hread : ∀ before : List α, read + 1 + before.length = read + (first :: before).length := by
      intro before
      rw [List.length_cons, Nat.add_assoc, Nat.add_comm 1]
    constructor
    · rintro (hfirst | ⟨next, hnext, hrest⟩)
      · exact ⟨[], first, rest, state, rfl, rfl, hfirst⟩
      · obtain ⟨before, item, after, reached, rfl, hbefore, hitem⟩ := ih.1 hrest
        refine ⟨first :: before, item, after, reached, rfl, ?_, hread before ▸ hitem⟩
        rw [List.zipIdx_cons, List.foldlM_cons, bind_eq_ok_iff]
        exact ⟨next, hnext, hbefore⟩
    · rintro ⟨before, item, after, reached, hsplit, hbefore, hitem⟩
      cases before with
      | nil =>
        obtain ⟨rfl, rfl⟩ := List.cons.inj hsplit
        obtain rfl := Except.ok.inj hbefore
        exact .inl hitem
      | cons head before =>
        obtain ⟨rfl, rfl⟩ := List.cons.inj hsplit
        rw [List.zipIdx_cons, List.foldlM_cons, bind_eq_ok_iff] at hbefore
        obtain ⟨next, hnext, hbefore⟩ := hbefore
        exact .inr ⟨next, hnext,
          ih.2 ⟨before, item, after, reached, rfl, hbefore, (hread before).symm ▸ hitem⟩⟩

/-- `mapM` over steps that may fail is `map` if none of them does. -/
theorem mapM_eq_some_map {α β : Type} {step : α → Option β} {result : α → β} {items : List α}
    (h : ∀ item ∈ items, step item = some (result item)) :
    items.mapM step = some (items.map result) := by
  induction items with
  | nil => rfl
  | cons item items ih =>
    rw [List.mapM_cons, h item List.mem_cons_self,
      ih fun other hother => h other (List.mem_cons_of_mem item hother)]
    rfl

/-- Each item has a partner if there is a list of partners. -/
theorem exists_forall₂_iff {α β : Type} {related : α → β → Prop} {items : List α} :
    (∃ partners, List.Forall₂ related items partners) ↔
      ∀ item ∈ items, ∃ partner, related item partner := by
  constructor
  · rintro ⟨partners, h⟩ item hitem
    induction h with
    | nil => cases hitem
    | cons hfirst _ ih =>
      rcases List.mem_cons.1 hitem with rfl | hitem
      · exact ⟨_, hfirst⟩
      · exact ih hitem
  · intro h
    induction items with
    | nil => exact ⟨[], .nil⟩
    | cons item items ih =>
      obtain ⟨partner, hfirst⟩ := h item (by simp)
      obtain ⟨partners, hrest⟩ := ih fun other hother => h other (by simp [hother])
      exact ⟨partner :: partners, .cons hfirst hrest⟩

/-- What some items count is at most what their partners weigh, if each that counts has a partner
that weighs something. -/
theorem countP_le_sum_of_forall₂ {α β : Type} {related : α → β → Prop} {counts : α → Bool}
    {items : List α} {partners : List β} (h : List.Forall₂ related items partners)
    (weight : β → Nat)
    (hweight : ∀ item partner, related item partner → counts item = true → 0 < weight partner) :
    items.countP counts ≤ (partners.map weight).sum := by
  induction h with
  | nil => exact Nat.le_refl 0
  | @cons item partner items partners hfirst _ ih =>
    rw [List.countP_cons, List.map_cons, List.sum_cons]
    split
    next hcounts =>
      have := hweight item partner hfirst hcounts
      omega
    next => omega

/-- `foldlM` over numbered items keeps the `invariant` that each of its steps keeps. -/
theorem foldlM_zipIdx_invariant {ε α β : Type} {step : β → α × Nat → Except ε β}
    (invariant : Nat → β → Prop)
    (hstep : ∀ read state item after, invariant read state →
      step state (item, read) = .ok after → invariant (read + 1) after)
    {items : List α} {read : Nat} {state after : β} (hstate : invariant read state)
    (h : (items.zipIdx read).foldlM step state = .ok after) :
    invariant (read + items.length) after := by
  induction items generalizing read state with
  | nil =>
    obtain rfl := Except.ok.inj h
    exact hstate
  | cons item items ih =>
    rw [List.zipIdx_cons, List.foldlM_cons, bind_eq_ok_iff] at h
    obtain ⟨next, hnext, hrest⟩ := h
    have hafter := ih (hstep read state item next hstate hnext) hrest
    rwa [List.length_cons, Nat.add_comm items.length 1, ← Nat.add_assoc]

/-- `foldlM` over steps that may fail comes to what `foldl` comes to, if each step keeps what the
next one needs so as not to fail. -/
theorem foldlM_eq_some_foldl {α β : Type} {P : β → Prop} {step? : β → α → Option β}
    {step : β → α → β}
    (hstep : ∀ state item, P state → step? state item = some (step state item))
    (hkeeps : ∀ state item, P state → P (step state item)) (items : List α) {state : β}
    (h : P state) : items.foldlM step? state = some (items.foldl step state) := by
  induction items generalizing state with
  | nil => rfl
  | cons item rest ih =>
    rw [List.foldlM_cons, hstep state item h]
    exact ih (hkeeps state item h)

/-- What `filterMap` picks from some items has some of their keys, in the same order. -/
theorem map_filterMap_sublist {α β κ : Type} {pick : α → Option β} {keyOf : β → κ} {key : α → κ}
    (hpick : ∀ item found, pick item = some found → keyOf found = key item) (items : List α) :
    ((items.filterMap pick).map keyOf).Sublist (items.map key) := by
  induction items with
  | nil => exact .slnil
  | cons item rest ih =>
    rw [List.map_cons]
    cases hfound : pick item with
    | none =>
      rw [List.filterMap_cons_none hfound]
      exact ih.cons (key item)
    | some found =>
      rw [List.filterMap_cons_some hfound, List.map_cons, hpick item found hfound]
      exact ih.cons_cons (key item)

/-- A value put in front at one of several distinct keys is gathered once. -/
theorem flatMap_insert_perm {κ α : Type} [DecidableEq κ] {keys : List κ} {key : κ}
    (hkeys : keys.Nodup) (hkey : key ∈ keys) (value : α) (gathered : κ → List α) :
    (keys.flatMap fun other => if key = other then value :: gathered other else gathered other).Perm
      (value :: keys.flatMap gathered) := by
  induction keys with
  | nil => cases hkey
  | cons first rest ih =>
    obtain ⟨hfirst, hrest⟩ := List.nodup_cons.1 hkeys
    rw [List.flatMap_cons, List.flatMap_cons]
    by_cases heq : key = first
    · -- The other keys differ from this one, so nothing is put in front of what they gather.
      subst heq
      have hsame : (rest.flatMap fun other =>
          if key = other then value :: gathered other else gathered other) =
          rest.flatMap gathered := by
        refine List.flatMap_congr fun other hother => ?_
        rw [if_neg fun hsame : key = other => hfirst (hsame ▸ hother)]
      rw [if_pos rfl, hsame]
      exact .refl _
    · have hin : key ∈ rest := (List.mem_cons.1 hkey).resolve_left heq
      rw [if_neg heq]
      exact ((ih hrest hin).append_left (gathered first)).trans List.perm_middle

/-- With distinct keys, `lookup` finds what stands in the list. -/
theorem lookup_eq_some_iff_mem {κ α : Type} [DecidableEq κ] {entries : List (κ × α)}
    (hdistinct : (entries.map (·.1)).Nodup) {key : κ} {value : α} :
    entries.lookup key = some value ↔ (key, value) ∈ entries := by
  constructor
  · intro h
    obtain ⟨before, after, hentries, _⟩ := List.lookup_eq_some_iff.1 h
    simp [hentries]
  · intro hin
    cases hfound : entries.lookup key with
    | none => simpa using List.lookup_eq_none_iff.1 hfound _ hin
    | some other =>
      obtain ⟨before, after, hentries, _⟩ := List.lookup_eq_some_iff.1 hfound
      have hother : (key, other) ∈ entries := by simp [hentries]
      have hsame := List.inj_on_of_nodup_map hdistinct hother hin rfl
      rw [(Prod.mk.inj hsame).2]

/-- The values of distinct keys, gathered key by key, are all values. -/
theorem flatMap_lookup_perm {κ α : Type} [DecidableEq κ] {keys : List κ} (hkeys : keys.Nodup)
    {entries : List (κ × α)} (hdistinct : (entries.map (·.1)).Nodup)
    (hin : ∀ key ∈ entries.map (·.1), key ∈ keys) :
    (keys.flatMap fun key => (entries.lookup key).toList).Perm (entries.map (·.2)) := by
  induction entries with
  | nil => simp
  | cons entry rest ih =>
    obtain ⟨hentry, hrest⟩ := List.nodup_cons.1 hdistinct
    have hlookup : ∀ key, ((entry :: rest).lookup key).toList =
        if entry.1 = key then entry.2 :: (rest.lookup key).toList
        else (rest.lookup key).toList := by
      intro key
      by_cases heq : entry.1 = key
      · have hnone : rest.lookup key = none := by
          refine List.lookup_eq_none_iff.2 fun other hother => ?_
          have hne : key ≠ other.1 := fun hsame =>
            hentry (List.mem_map.2 ⟨other, hother, (heq.trans hsame).symm⟩)
          simpa using hne
        rw [if_pos heq, hnone, List.lookup_cons, beq_iff_eq.2 heq.symm]
        rfl
      · rw [if_neg heq, List.lookup_cons, beq_eq_false_iff_ne.2 (Ne.symm heq)]
    -- The value of the first entry comes in addition, at the one key that it has.
    simp only [hlookup]
    exact (flatMap_insert_perm hkeys (hin entry.1 (by simp)) entry.2 _).trans
      ((ih hrest fun key hkey => hin key (by simp_all)).cons entry.2)

/-- `set` changes what is made at its position. -/
theorem set_map_range {α : Type} (item : Nat → α) (count position : Nat) (value : α) :
    ((List.range count).map item).set position value =
      (List.range count).map fun index => if index = position then value else item index := by
  refine List.ext_getElem? fun index => ?_
  rw [List.getElem?_set, List.getElem?_map, List.getElem?_map, List.length_map, List.length_range]
  by_cases hlt : index < count
  · rw [List.getElem?_range hlt]
    by_cases heq : position = index
    · simp [heq, hlt]
    · simp [heq, Ne.symm heq]
  · have hout : (List.range count)[index]? = none := by simp [Nat.le_of_not_lt hlt]
    rw [hout]
    by_cases heq : position = index <;> simp [heq, hlt]

/-- Beside a list, what is made at each position by `item` stands next to the item there. -/
theorem zip_map_range {α β : Type} (items : List α) (item : Nat → β) :
    items.zip ((List.range items.length).map item) =
      items.zipIdx.map fun entry => (entry.1, item entry.2) := by
  rw [List.zipIdx_eq_zip_range', ← List.range_eq_range', List.zip_map_right]
  rfl

end ExtensionMembers
