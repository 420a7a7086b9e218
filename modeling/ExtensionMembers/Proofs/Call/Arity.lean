import ExtensionMembers.Lookup.Query
import ExtensionMembers.Proofs.Call.Acceptance
import Mathlib.Algebra.Order.BigOperators.Group.List

/-!
# The number of arguments

Members are looked up by the number of arguments alone, before it is known where these go. Nothing
that binds is lost by that: a parameter that every call has to fill takes an argument of its own,
and without a last parameter that gathers no parameter takes two. Where no argument has a name, the
number also says which parameters are left over, and these need defaults.

## Main results

* `requiredCount_le_of_bind`, `length_le_of_bind`: the bounds on the number of arguments.
* `exists_bind_unnamed_iff`: which calls without names bind.
* `acceptsArity_agrees_bind`: members that accept a number of arguments, and calls that bind.
-/

namespace ExtensionMembers

section Bind

variable {params : List Param} {args : List Argument} {span : Span} {slots : List BoundSlot}

/-- The slots that `bind` makes hold as many arguments as the call has. -/
theorem sum_length_indices_of_bind (h : bind params args span = .ok slots) :
    (slots.map fun slot => slot.indices.length).sum = args.length := by
  rw [← List.length_flatMap, (perm_indices_of_bind h).length_eq, List.length_range]

/-- What `Fits` a parameter that every call has to fill is an argument. -/
theorem BoundSlot.Fits.exists_argument {count : Nat} {param : Param × Nat} {slot : BoundSlot}
    (h : slot.Fits params count param) (hparam : param ∈ params.zipIdx)
    (hrequired : (param.1.default.isNone && !param.1.isVariadic) = true) :
    ∃ index, slot = .argument index := by
  obtain ⟨hdefault, hvariadic⟩ := Bool.and_eq_true_iff.1 hrequired
  cases slot with
  | argument index => exact ⟨index, rfl⟩
  | default value =>
    rw [show param.1.default = some value from h] at hdefault
    cases hdefault
  | gathered indices =>
    -- Only the last parameter gathers, and it is marked so.
    obtain ⟨hlt, hat⟩ := List.getElem?_eq_some_iff.1 (List.mem_zipIdx_iff_getElem?.1 hparam)
    rw [← hat, isVariadic_of_tailPosition? h.1 hlt] at hvariadic
    cases hvariadic

/-- A call on which `bind` succeeds has an argument for each parameter that every call has to fill
(`Member.requiredCount`). -/
theorem requiredCount_le_of_bind (h : bind params args span = .ok slots) :
    params.countP (fun param => param.default.isNone && !param.isVariadic) ≤ args.length := by
  have hfits : List.Forall₂
      (fun param slot => param ∈ params.zipIdx ∧ slot.Fits params args.length param)
      params.zipIdx slots :=
    (List.forall₂_and_left _ _).2 ⟨fun _ hparam => hparam, fits_of_bind h⟩
  have hcount := countP_le_sum_of_forall₂ hfits (fun slot => slot.indices.length)
    fun param slot ⟨hparam, hfit⟩ hrequired => by
      obtain ⟨index, rfl⟩ := hfit.exists_argument hparam hrequired
      exact Nat.one_pos
  rw [sum_length_indices_of_bind h] at hcount
  -- Slots stand beside numbered parameters, and the numbers do not count.
  have hmap := List.countP_map (p := fun param : Param => param.default.isNone && !param.isVariadic)
    (f := Prod.fst) (l := params.zipIdx)
  rw [List.zipIdx_map_fst] at hmap
  exact hmap ▸ hcount

/-- Where the last parameter does not gather (`hasTail`), a call on which `bind` succeeds has no
more arguments than there are parameters. -/
theorem length_le_of_bind (htail : hasTail params = false) (h : bind params args span = .ok slots) :
    args.length ≤ params.length := by
  have hfits : List.Forall₂ (fun slot param => BoundSlot.Fits params args.length param slot) slots
      params.zipIdx := (fits_of_bind h).flip
  have hone : ∀ weight ∈ slots.map (fun slot => slot.indices.length), weight ≤ 1 := by
    intro weight hweight
    obtain ⟨slot, hslot, rfl⟩ := List.mem_map.1 hweight
    obtain ⟨param, hfit⟩ := exists_forall₂_iff.1 ⟨_, hfits⟩ slot hslot
    cases slot with
    | argument index => exact Nat.le_refl 1
    | default value => exact Nat.zero_le 1
    | gathered indices =>
      have htrue := (tailPosition?_eq_some_iff.1 hfit.1).1
      rw [htail] at htrue
      cases htrue
  -- So the arguments are at most as many as the slots, of which each parameter has one.
  have hsum := List.sum_le_card_nsmul _ 1 hone
  rwa [sum_length_indices_of_bind h, List.length_map, length_of_bind h, Nat.nsmul_eq_mul,
    Nat.mul_one] at hsum

/-- Without names, and where there is room for all arguments, `bind` succeeds if each parameter that
they do not reach has a default or gathers. -/
theorem exists_bind_unnamed_iff (hargs : ∀ arg ∈ args, arg.name = none)
    (hroom : hasTail params = true ∨ args.length ≤ params.length) :
    (∃ slots, bind params args span = .ok slots) ↔
      ∀ position param, params[position]? = some param → args.length ≤ position →
        tailPosition? params ≠ some position → param.default.isSome = true := by
  -- A parameter before the last one that is not reached comes after all arguments.
  have hreached : ∀ param ∈ params.zipIdx, tailPosition? params ≠ some param.2 →
      ((Placement.positional params args.length).argument? param.2 = none ↔
        args.length ≤ param.2) := by
    intro param hparam htail
    have hlt : param.2 < params.length :=
      (List.getElem?_eq_some_iff.1 (List.mem_zipIdx_iff_getElem?.1 hparam)).1
    have hfixed : param.2 < fixedCount params := by
      cases hhas : hasTail params with
      | false => rwa [fixedCount_of_not_hasTail hhas]
      | true =>
        obtain ⟨hposition, hlast⟩ := fixedCount_of_hasTail hhas
        have hne : fixedCount params ≠ param.2 := fun heq => htail (heq ▸ hposition)
        omega
    rw [Placement.argument?_positional]
    split
    next hfilled => simp only [reduceCtorEq, false_iff]; omega
    next hfilled => simp only [true_iff]; omega
  simp only [bind_eq_ok_iff_forall₂, placeAll_positional hargs hroom, Except.ok.injEq,
    exists_eq_left', exists_forall₂_iff, exists_slotOf_iff]
  constructor
  · intro h position param hparam hafter htail
    have hin : (param, position) ∈ params.zipIdx := List.mem_zipIdx_iff_getElem?.2 hparam
    exact h (param, position) hin ((hreached _ hin htail).2 hafter) htail
  · intro h param hparam hnone htail
    exact h param.2 param.1 (List.mem_zipIdx_iff_getElem?.1 hparam)
      ((hreached param hparam htail).1 hnone) htail

end Bind

/-- A member accepts (`acceptsArity`) the number of arguments of each call on which `bind` succeeds,
so no such call is lost to the look-up. Without names, `bind` succeeds exactly if the number is
accepted and each parameter after that many has a default or gathers. -/
theorem acceptsArity_agrees_bind (member : Member) (hcategory : member.category ≠ .property)
    (args : List Argument) (span : Span) :
    ((∃ slots, bind member.params args span = .ok slots) →
      member.acceptsArity args.length = true ∧ ∀ query : MemberQuery, query.name = member.name →
        query.arity = some args.length → query.collides member = true) ∧
      ((∀ arg ∈ args, arg.name = none) →
        ((∃ slots, bind member.params args span = .ok slots) ↔
          member.acceptsArity args.length = true ∧
            ∀ position param, member.params[position]? = some param → args.length ≤ position →
              tailPosition? member.params ≠ some position → param.default.isSome = true)) := by
  have haccepts : member.acceptsArity args.length = true ↔
      member.requiredCount ≤ args.length ∧
        (hasTail member.params = true ∨ args.length ≤ member.params.length) := by
    rw [Member.acceptsArity, if_neg hcategory, Bool.and_eq_true, Bool.or_eq_true,
      decide_eq_true_eq, decide_eq_true_eq]
  have hbound : (∃ slots, bind member.params args span = .ok slots) →
      member.acceptsArity args.length = true := by
    rintro ⟨slots, h⟩
    refine haccepts.2 ⟨requiredCount_le_of_bind h, ?_⟩
    cases htail : hasTail member.params with
    | true => exact .inl rfl
    | false => exact .inr (length_le_of_bind htail h)
  refine ⟨fun h => ⟨hbound h, fun query hname harity => ?_⟩, fun hargs => ⟨fun h => ?_, ?_⟩⟩
  · simp [MemberQuery.collides, hname, harity, hbound h]
  · exact ⟨hbound h, (exists_bind_unnamed_iff hargs (haccepts.1 (hbound h)).2).1 h⟩
  · rintro ⟨harity, hdefaults⟩
    exact (exists_bind_unnamed_iff hargs (haccepts.1 harity).2).2 hdefaults

/-- A method with `cellParams` that puts a cell in its place. -/
def placeCell : Member :=
  { (default : Member) with name := "Place", kind := .instanceMethod, params := cellParams }

/-- `placeCell` takes two arguments, the second one named or not; the layer is left out then, and
there are no tags. -/
theorem acceptsArity_agrees_bind_place :
    let unnamed : List Argument := [⟨none, ⟨10⟩, .unplaced⟩, ⟨none, ⟨11⟩, .unplaced⟩]
    placeCell.category ≠ .property ∧
      (∃ slots, bind placeCell.params cellArguments .unplaced = .ok slots) ∧
      placeCell.acceptsArity 2 = true ∧
      (∀ arg ∈ unnamed, arg.name = none) ∧
      ∃ slots, bind placeCell.params unnamed .unplaced = .ok slots := by
  intro unnamed
  have hcategory : placeCell.category ≠ .property := by decide
  have hbind : ∃ slots, bind placeCell.params cellArguments .unplaced = .ok slots :=
    ⟨[.argument 0, .argument 1, .default (.int 4), .gathered []], by decide +kernel⟩
  have harity := ((acceptsArity_agrees_bind placeCell hcategory cellArguments .unplaced).1 hbind).1
  have hunnamed : ∀ arg ∈ unnamed, arg.name = none := by decide
  -- What the two arguments do not reach are the layer, which has a default, and the tags.
  have hdefaults : ∀ position param, placeCell.params[position]? = some param → 2 ≤ position →
      tailPosition? placeCell.params ≠ some position → param.default.isSome = true := by
    intro position param hparam hafter htail
    have hlt : position < 4 := (List.getElem?_eq_some_iff.1 hparam).1
    obtain rfl | rfl : position = 2 ∨ position = 3 := by omega
    · obtain rfl := Option.some.inj hparam
      rfl
    · exact absurd rfl htail
  exact ⟨hcategory, hbind, harity, hunnamed,
    ((acceptsArity_agrees_bind placeCell hcategory unnamed .unplaced).2 hunnamed).2
      ⟨harity, hdefaults⟩⟩

end ExtensionMembers
