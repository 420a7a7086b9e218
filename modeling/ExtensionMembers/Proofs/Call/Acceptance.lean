import ExtensionMembers.Proofs.Call.Placement
import Mathlib.Data.List.Induction

/-!
# Which calls can be bound

Whether the arguments of a call fit a list of parameters is decided by where they want to go:
those without a name to the first parameters, those with a name to the parameter of that name. A
call binds if no two of them want the same place and the parameters left over can do without, and
then the slots are known from the places alone.

## Main definitions

* `positionalCount`, `addressed`: where the arguments of a call want to go.
* `Placeable`, `Accepts`: the arguments have a place each, and the other parameters need none.
* `Placement.ofArguments`: the placement of arguments that have a place each.
* `Fills`: what the slot of a parameter is.

## Main results

* `placeAll_eq_ok_iff`: which arguments have a place each, and which one.
* `bind_ok_iff_accepts`: which calls bind, and to what.
-/

namespace ExtensionMembers

/-- The number of arguments without a name, which `placePositional` places. -/
def positionalCount (args : List Argument) : Nat := args.countP (·.name.isNone)

/-- The position of the parameter that an argument names (`positionOf?`). -/
def Argument.position? (params : List Param) (arg : Argument) : Option Nat :=
  arg.name.bind (positionOf? params)

/-- The positions of the parameters that some arguments name (`Argument.position?`), in the order of
the arguments. -/
def addressed (params : List Param) (args : List Argument) : List Nat :=
  args.filterMap (·.position? params)

/-- The number of parameters that the arguments without a name fill one by one, of `fixedCount` at
most. -/
def filledInOrder (params : List Param) (args : List Argument) : Nat :=
  min (positionalCount args) (fixedCount params)

/-- Each argument of a call has a place of its own in `params`. -/
structure Placeable (params : List Param) (args : List Argument) : Prop where
  /-- No argument without a name comes after one with a name. -/
  ordered : args.Pairwise fun arg after => arg.name.isSome = true → after.name.isSome = true
  /-- The arguments without a name are no more than the parameters that they fill one by one,
  unless the last parameter gathers. -/
  room : positionalCount args ≤ fixedCount params ∨ hasTail params = true
  /-- Every name is that of a parameter. -/
  known : ∀ arg ∈ args, arg.name.isSome = true → (arg.position? params).isSome = true
  /-- No parameter is named twice. -/
  distinct : (addressed params args).Nodup
  /-- No parameter is named that an argument without a name fills. -/
  unfilled : ∀ position ∈ addressed params args, filledInOrder params args ≤ position
  /-- A last parameter that gathers an argument is not named. -/
  ungathered : fixedCount params < positionalCount args →
    ∀ position ∈ addressed params args, tailPosition? params ≠ some position

/-- A call fits its parameters: each argument has a place of its own (`Placeable`), and each
parameter left over has a default, unless it gathers. -/
structure Accepts (params : List Param) (args : List Argument) : Prop
    extends Placeable params args where
  /-- What is left over has a default. -/
  complete : ∀ param ∈ params.zipIdx, filledInOrder params args ≤ param.2 →
    param.2 ∉ addressed params args → tailPosition? params ≠ some param.2 →
    param.1.default.isSome = true

/-! ## One more argument -/

section Concat

variable {params : List Param} {args : List Argument} {arg : Argument}

theorem positionalCount_concat_of_none (h : arg.name = none) :
    positionalCount (args ++ [arg]) = positionalCount args + 1 := by
  simp [positionalCount, h]

theorem positionalCount_concat_of_some {name : String} (h : arg.name = some name) :
    positionalCount (args ++ [arg]) = positionalCount args := by
  simp [positionalCount, h]

theorem addressed_concat :
    addressed params (args ++ [arg]) =
      addressed params args ++ (arg.position? params).toList := by
  rw [addressed, List.filterMap_append]
  cases h : arg.position? params with
  | none => rw [List.filterMap_cons_none h]; rfl
  | some position => rw [List.filterMap_cons_some h]; rfl

/-- Without names no parameter is `addressed`. -/
theorem addressed_eq_nil (h : ∀ arg ∈ args, arg.name = none) : addressed params args = [] := by
  refine List.filterMap_eq_nil_iff.2 fun arg harg => ?_
  rw [Argument.position?, h arg harg]
  rfl

/-- Where no argument has a name, `positionalCount` counts each of them. -/
theorem positionalCount_eq_length (h : ∀ arg ∈ args, arg.name = none) :
    positionalCount args = args.length := by
  refine List.countP_eq_length.2 fun arg harg => ?_
  rw [h arg harg]
  rfl

/-- Arguments without names are `Placeable` if there is room for them. -/
theorem placeable_of_unnamed (h : ∀ arg ∈ args, arg.name = none)
    (hroom : positionalCount args ≤ fixedCount params ∨ hasTail params = true) :
    Placeable params args := by
  -- Nothing is addressed, and what is asked of names holds of no argument.
  have hnil : addressed params args = [] := addressed_eq_nil h
  have hsome : ∀ arg ∈ args, ¬ arg.name.isSome = true := fun arg hin => by simp [h arg hin]
  exact
    { ordered := List.pairwise_of_forall_mem_list fun arg hin _ _ hnamed =>
        absurd hnamed (hsome arg hin)
      room := hroom
      known := fun arg hin hnamed => absurd hnamed (hsome arg hin)
      distinct := by simp [hnil]
      unfilled := by simp [hnil]
      ungathered := by simp [hnil] }

/-- `Placeable` with one more argument, without a name: none before it has one and there is room. -/
theorem placeable_concat_of_none (hname : arg.name = none) :
    Placeable params (args ++ [arg]) ↔ Placeable params args ∧
      (∀ earlier ∈ args, earlier.name = none) ∧
      (positionalCount args < fixedCount params ∨ hasTail params = true) := by
  constructor
  · intro h
    have hearlier : ∀ earlier ∈ args, earlier.name = none := by
      intro earlier hin
      have hordered := (List.pairwise_append.1 h.ordered).2.2 earlier hin arg (by simp)
      simpa [hname] using hordered
    have hroom := h.room
    rw [positionalCount_concat_of_none hname] at hroom
    exact ⟨placeable_of_unnamed hearlier (hroom.imp_left Nat.le_of_succ_le), hearlier, hroom⟩
  · rintro ⟨_, hearlier, hroom⟩
    refine placeable_of_unnamed (List.forall_mem_append.2 ⟨hearlier, by simpa using hname⟩) ?_
    rw [positionalCount_concat_of_none hname]
    exact hroom

/-- An argument with a name adds its parameter to those `addressed`. -/
theorem addressed_concat_of_some {position : Nat} (h : arg.position? params = some position) :
    addressed params (args ++ [arg]) = addressed params args ++ [position] := by
  rw [addressed_concat, h]
  rfl

/-- An argument with a name leaves `filledInOrder` as it is. -/
theorem filledInOrder_concat_of_some {name : String} (hname : arg.name = some name) :
    filledInOrder params (args ++ [arg]) = filledInOrder params args := by
  rw [filledInOrder, positionalCount_concat_of_some hname, filledInOrder]

/-- `Placeable` arguments, and one more with a name whose parameter is still free, are
`Placeable`. -/
theorem Placeable.concat_of_some (h : Placeable params args) {name : String}
    (hname : arg.name = some name) {position : Nat}
    (hposition : arg.position? params = some position)
    (hunfilled : filledInOrder params args ≤ position) (hfree : position ∉ addressed params args)
    (hungathered : fixedCount params < positionalCount args →
      tailPosition? params ≠ some position) : Placeable params (args ++ [arg]) where
  ordered := by
    refine List.pairwise_append.2 ⟨h.ordered, List.pairwise_singleton _ _, ?_⟩
    intro earlier _ last hlast _
    rw [List.mem_singleton.1 hlast, hname]
    rfl
  room := by
    rw [positionalCount_concat_of_some hname]
    exact h.room
  known := by
    intro other hin hsome
    rcases List.mem_append.1 hin with hin | hin
    · exact h.known other hin hsome
    · rw [List.mem_singleton.1 hin, hposition]
      rfl
  -- The position of the name comes in addition to those addressed before.
  distinct := by
    rw [addressed_concat_of_some hposition, ← List.concat_eq_append]
    exact .concat hfree h.distinct
  unfilled := by
    rw [addressed_concat_of_some hposition, filledInOrder_concat_of_some hname,
      List.forall_mem_append]
    exact ⟨h.unfilled, by simpa using hunfilled⟩
  ungathered := by
    rw [addressed_concat_of_some hposition, positionalCount_concat_of_some hname]
    intro hgathers
    rw [List.forall_mem_append]
    exact ⟨h.ungathered hgathers, by simpa using hungathered hgathers⟩

/-- `Placeable` with one more argument, with a name: there is such a parameter, and it is still
free. -/
theorem placeable_concat_of_some {name : String} (hname : arg.name = some name) :
    Placeable params (args ++ [arg]) ↔ Placeable params args ∧
      ∃ position, positionOf? params name = some position ∧
        filledInOrder params args ≤ position ∧ position ∉ addressed params args ∧
        (fixedCount params < positionalCount args → tailPosition? params ≠ some position) := by
  have hposition : arg.position? params = positionOf? params name := by
    rw [Argument.position?, hname]
    rfl
  constructor
  · intro h
    obtain ⟨position, hfound⟩ := Option.isSome_iff_exists.1
      (h.known arg (by simp) (by rw [hname]; rfl))
    have hroom := h.room
    have hdistinct := h.distinct
    have hunfilled := h.unfilled
    have hungathered := h.ungathered
    -- What holds with the argument, in terms of those before it and its position.
    rw [positionalCount_concat_of_some hname] at hroom hungathered
    rw [addressed_concat_of_some hfound] at hdistinct hunfilled hungathered
    rw [filledInOrder_concat_of_some hname] at hunfilled
    refine ⟨⟨(List.pairwise_append.1 h.ordered).1, hroom,
      fun other hin => h.known other (List.mem_append_left _ hin),
      (List.nodup_append.1 hdistinct).1, fun other hin => hunfilled other (by simp [hin]),
      fun hgathers other hin => hungathered hgathers other (by simp [hin])⟩,
      position, hposition ▸ hfound, hunfilled position (by simp), fun hin => ?_,
      fun hgathers => hungathered hgathers position (by simp)⟩
    exact (List.nodup_append.1 hdistinct).2.2 position hin position (by simp) rfl
  · rintro ⟨h, position, hfound, hunfilled, hfree, hungathered⟩
    exact h.concat_of_some hname (hposition.trans hfound) hunfilled hfree hungathered

end Concat

/-! ## The placement of a call -/

/-- The arguments with a name, each with the position of its parameter in front, as
`Placement.filled` has them. -/
def namedEntries (params : List Param) (args : List Argument) : List (Nat × Nat) :=
  args.zipIdx.filterMap fun arg => (arg.1.position? params).map (·, arg.2)

namespace Placement

/-- The placement of `Placeable` arguments: those without a name in order, then those with a name at
their parameters (`namedEntries`). -/
def ofArguments (params : List Param) (args : List Argument) : Placement where
  filled := (positional params (positionalCount args)).filled ++ namedEntries params args
  gathered := (positional params (positionalCount args)).gathered
  named := args.any (·.name.isSome)

end Placement

section Concat

variable {params : List Param} {args : List Argument} {arg : Argument}

theorem namedEntries_concat :
    namedEntries params (args ++ [arg]) =
      namedEntries params args ++ ((arg.position? params).map (·, args.length)).toList := by
  rw [namedEntries, List.zipIdx_append, List.filterMap_append, Nat.zero_add, List.zipIdx_singleton]
  cases h : arg.position? params with
  | none => rw [List.filterMap_cons_none (by simp [h])]; rfl
  | some position => rw [List.filterMap_cons_some (b := (position, args.length)) (by simp [h])]; rfl

/-- The parameters of `namedEntries` are those `addressed`. -/
theorem map_fst_namedEntries : (namedEntries params args).map (·.1) = addressed params args := by
  induction args using List.reverseRecOn with
  | nil => rfl
  | append_singleton args arg ih =>
    rw [namedEntries_concat, addressed_concat, List.map_append, ih]
    cases arg.position? params <;> rfl

namespace Placement

/-- `ofArguments` places arguments without a name in order, as `positional` does. -/
theorem ofArguments_eq_positional (h : ∀ arg ∈ args, arg.name = none) :
    ofArguments params args = positional params args.length := by
  have hentries : namedEntries params args = [] := by
    rw [← List.map_eq_nil_iff (f := (·.1)), map_fst_namedEntries, addressed_eq_nil h]
  have hnamed : args.any (·.name.isSome) = false := by
    refine List.any_eq_false.2 fun arg harg => ?_
    simp [h arg harg]
  rw [ofArguments, positionalCount_eq_length h, hentries, hnamed, List.append_nil]
  rfl

/-- `ofArguments` fills the first parameters and those `addressed`. -/
theorem positions_ofArguments (params : List Param) (args : List Argument) :
    (ofArguments params args).positions =
      List.range (filledInOrder params args) ++ addressed params args := by
  rw [positions, ofArguments, List.map_append, map_fst_namedEntries, positional, List.map_map]
  exact congrArg (· ++ _) (List.map_id _)

/-- `ofArguments` gathers nothing if there are parameters for all arguments without a name. -/
theorem gathered_ofArguments_eq_nil_iff :
    (ofArguments params args).gathered = [] ↔ positionalCount args ≤ fixedCount params := by
  rw [ofArguments, positional, List.range'_eq_nil_iff]
  omega

end Placement

/-- `placePositional` succeeds as long as no argument was named, and a parameter is left for the
argument or the last one gathers. -/
theorem placePositional_eq_ok_iff {count index : Nat} {placement after : Placement} {span : Span} :
    placePositional params count placement index span = .ok after ↔ placement.named = false ∧
      (placement.filled.length < fixedCount params ∨ hasTail params = true) ∧
      after = if placement.filled.length < fixedCount params
        then placement.fill placement.filled.length index else placement.gather index := by
  unfold placePositional
  cases placement.named with
  | true => simp
  | false =>
    rw [eq_comm (a := after)]
    by_cases hnext : placement.filled.length < fixedCount params
    · simp [hnext]
    · cases htail : hasTail params with
      | false => simp [hnext]
      | true => simp [hnext]

/-- `placeNamed` succeeds if the parameter of the name is free. -/
theorem placeNamed_eq_ok_iff {index : Nat} {name : String} {placement after : Placement}
    {span : Span} :
    placeNamed params placement index name span = .ok after ↔ ∃ position,
      positionOf? params name = some position ∧ placement.isTaken params position = false ∧
        after = { placement.fill position index with named := true } := by
  simp only [placeNamed, eq_comm (a := after)]
  cases hposition : positionOf? params name with
  | none => simp
  | some position =>
    cases htaken : placement.isTaken params position with
    | true => simp [htaken]
    | false => simp [htaken]

/-- `placePositional` succeeds after positional arguments if a parameter is left for one more or the
last one gathers. -/
theorem placePositional_positional_eq_ok_iff {count read : Nat} {span : Span}
    {after : Placement} :
    placePositional params count (.positional params read) read span = .ok after ↔
      (read < fixedCount params ∨ hasTail params = true) ∧
        after = .positional params (read + 1) := by
  have hlength : (Placement.positional params read).filled.length =
      min read (fixedCount params) := by simp [Placement.positional]
  have hplaced (hroom : read < fixedCount params ∨ hasTail params = true) :
      placePositional params count (.positional params read) read span =
        .ok (.positional params (read + 1)) :=
    Placement.placePositional_positional span
      (hroom.symm.imp_right (Nat.lt_of_lt_of_le · (fixedCount_le_length params)))
  constructor
  · intro hplace
    have hroom := (placePositional_eq_ok_iff.1 hplace).2.1
    rw [hlength] at hroom
    have hroom' : read < fixedCount params ∨ hasTail params = true := hroom.imp_left (by omega)
    rw [hplaced hroom'] at hplace
    exact ⟨hroom', (Except.ok.inj hplace).symm⟩
  · rintro ⟨hroom, rfl⟩
    exact hplaced hroom

/-- `place` succeeds on one more argument without a name if all are `Placeable`, and the placement
is then theirs. -/
theorem place_ofArguments_of_none (h : Placeable params args) (hname : arg.name = none)
    (count : Nat) {after : Placement} :
    place params count (.ofArguments params args) (arg, args.length) = .ok after ↔
      Placeable params (args ++ [arg]) ∧ after = .ofArguments params (args ++ [arg]) := by
  rw [placeable_concat_of_none hname]
  simp only [place, hname]
  by_cases hearlier : ∀ earlier ∈ args, earlier.name = none
  · -- None before it has one either, so they are placed in order.
    have hall : ∀ other ∈ args ++ [arg], other.name = none :=
      List.forall_mem_append.2 ⟨hearlier, by simpa using hname⟩
    rw [Placement.ofArguments_eq_positional hearlier, Placement.ofArguments_eq_positional hall,
      positionalCount_eq_length hearlier, List.length_append, List.length_singleton,
      placePositional_positional_eq_ok_iff]
    exact and_congr_left fun _ => ⟨fun hroom => ⟨h, hearlier, hroom⟩, fun hplace => hplace.2.2⟩
  · -- An argument before has a name, so this one comes too late.
    have hnamed : (Placement.ofArguments params args).named = true := by
      obtain ⟨earlier, hin, hsome⟩ : ∃ earlier ∈ args, earlier.name ≠ none := by
        simpa using hearlier
      exact List.any_eq_true.2 ⟨earlier, hin, Option.isSome_iff_ne_none.2 hsome⟩
    rw [placePositional_eq_ok_iff, hnamed]
    simp [hearlier]

/-- `isTaken` is false of a parameter if nothing before fills it or gathers for it. -/
theorem isTaken_ofArguments_eq_false_iff {position : Nat} :
    (Placement.ofArguments params args).isTaken params position = false ↔
      filledInOrder params args ≤ position ∧ position ∉ addressed params args ∧
      (fixedCount params < positionalCount args → tailPosition? params ≠ some position) := by
  rw [Placement.isTaken_eq_false_iff, Placement.positions_ofArguments,
    Placement.gathered_ofArguments_eq_nil_iff, List.mem_append, not_or, List.mem_range,
    Nat.not_lt, and_assoc, imp_not_comm, Nat.not_lt]

/-- `place` succeeds on one more argument with a name if all are `Placeable`, and the placement is
then theirs. -/
theorem place_ofArguments_of_some (h : Placeable params args) {name : String}
    (hname : arg.name = some name) (count : Nat) {after : Placement} :
    place params count (.ofArguments params args) (arg, args.length) = .ok after ↔
      Placeable params (args ++ [arg]) ∧ after = .ofArguments params (args ++ [arg]) := by
  have hposition : arg.position? params = positionOf? params name := by
    rw [Argument.position?, hname]
    rfl
  have hafter : ∀ position, positionOf? params name = some position →
      { (Placement.ofArguments params args).fill position args.length with named := true } =
        Placement.ofArguments params (args ++ [arg]) := by
    intro position hfound
    rw [Placement.ofArguments, Placement.ofArguments, namedEntries_concat,
      positionalCount_concat_of_some hname, hposition, hfound]
    simp [Placement.fill, hname]
  rw [placeable_concat_of_some hname]
  simp only [place, hname, placeNamed_eq_ok_iff]
  constructor
  · rintro ⟨position, hfound, htaken, rfl⟩
    exact ⟨⟨h, position, hfound, isTaken_ofArguments_eq_false_iff.1 htaken⟩,
      hafter position hfound⟩
  · rintro ⟨⟨_, position, hfound, hplace⟩, rfl⟩
    exact ⟨position, hfound, isTaken_ofArguments_eq_false_iff.2 hplace,
      (hafter position hfound).symm⟩

/-- `place` succeeds on one more argument if all are `Placeable`, and the placement is then
theirs. -/
theorem place_ofArguments_eq_ok_iff (h : Placeable params args) (count : Nat) {after : Placement} :
    place params count (.ofArguments params args) (arg, args.length) = .ok after ↔
      Placeable params (args ++ [arg]) ∧ after = .ofArguments params (args ++ [arg]) := by
  cases hname : arg.name with
  | none => exact place_ofArguments_of_none h hname count
  | some name => exact place_ofArguments_of_some h hname count

/-- `Placeable` arguments still are if the last one is left out. -/
theorem Placeable.of_concat (h : Placeable params (args ++ [arg])) : Placeable params args := by
  cases hname : arg.name with
  | none => exact ((placeable_concat_of_none hname).1 h).1
  | some name => exact ((placeable_concat_of_some hname).1 h).1

end Concat

section Bind

variable {params : List Param} {args : List Argument}

/-- No arguments are `Placeable`. -/
theorem placeable_nil (params : List Param) : Placeable params [] :=
  placeable_of_unnamed (by simp) (.inl (Nat.zero_le _))

/-- `place`, over the arguments of a call or the first of them, succeeds if they are `Placeable`,
and it is then known where they go (`ofArguments`). The number of arguments that a fault would tell
stays that of the whole call. -/
theorem foldlM_place_eq_ok_iff {count : Nat} {placement : Placement} :
    args.zipIdx.foldlM (place params count) .empty = .ok placement ↔
      Placeable params args ∧ placement = .ofArguments params args := by
  induction args using List.reverseRecOn generalizing placement with
  | nil =>
    have hempty : Placement.ofArguments params [] = .empty := by
      simp [Placement.ofArguments, Placement.positional, Placement.empty, positionalCount,
        namedEntries]
    rw [hempty]
    simp [placeable_nil, pure, Except.pure, eq_comm]
  | append_singleton args arg ih =>
    rw [List.zipIdx_append, List.foldlM_append, bind_eq_ok_iff, Nat.zero_add,
      List.zipIdx_singleton]
    simp only [List.foldlM_cons, List.foldlM_nil, bind_pure]
    constructor
    · rintro ⟨before, hbefore, hplace⟩
      obtain ⟨hplaceable, rfl⟩ := ih.1 hbefore
      exact (place_ofArguments_eq_ok_iff hplaceable count).1 hplace
    · rintro ⟨hplaceable, rfl⟩
      have hbefore := hplaceable.of_concat
      exact ⟨_, ih.2 ⟨hbefore, rfl⟩,
        (place_ofArguments_eq_ok_iff hbefore count).2 ⟨hplaceable, rfl⟩⟩

/-- `placeAll` succeeds if the arguments are `Placeable`, and it is then known where they go
(`ofArguments`). -/
theorem placeAll_eq_ok_iff {placement : Placement} :
    placeAll params args = .ok placement ↔
      Placeable params args ∧ placement = .ofArguments params args :=
  foldlM_place_eq_ok_iff

/-! ## What fills the parameters -/

/-- What the slot of a parameter is, the parameter known with its position in `params`. -/
structure Fills (params : List Param) (args : List Argument) (param : Param × Nat)
    (slot : BoundSlot) : Prop where
  /-- The first parameters have the arguments without a name, in order. -/
  inOrder : param.2 < filledInOrder params args → slot = .argument param.2
  /-- A parameter that is named has the argument with its name. -/
  byName : ∀ index arg, args[index]? = some arg → arg.position? params = some param.2 →
    slot = .argument index
  /-- A last parameter that gathers has what the others leave over, unless it is named. -/
  byGathering : tailPosition? params = some param.2 → param.2 ∉ addressed params args →
    slot = .gathered
      (List.range' (fixedCount params) (positionalCount args - fixedCount params))
  /-- Any other parameter has its default. -/
  byDefault : filledInOrder params args ≤ param.2 → param.2 ∉ addressed params args →
    tailPosition? params ≠ some param.2 → ∃ value, param.1.default = some value ∧
      slot = .default value

/-- One of the `namedEntries` is that of the argument that names its parameter. -/
theorem mem_namedEntries_iff {position index : Nat} :
    (position, index) ∈ namedEntries params args ↔
      ∃ arg, args[index]? = some arg ∧ arg.position? params = some position := by
  rw [namedEntries, List.mem_filterMap]
  constructor
  · rintro ⟨⟨arg, found⟩, hin, hentry⟩
    obtain ⟨position', hposition, heq⟩ := Option.map_eq_some_iff.1 hentry
    obtain ⟨rfl, rfl⟩ := Prod.mk.inj heq
    exact ⟨arg, List.mem_zipIdx_iff_getElem?.1 hin, hposition⟩
  · rintro ⟨arg, hfound, hposition⟩
    exact ⟨(arg, index), List.mem_zipIdx_iff_getElem?.2 hfound, by rw [hposition]; rfl⟩

/-- `argument?` of a parameter that is not filled in order is the argument that names it. -/
theorem Placeable.argument?_eq_some_iff (h : Placeable params args) {position index : Nat} :
    (Placement.ofArguments params args).argument? position = some index ↔
      (position < filledInOrder params args ∧ index = position) ∨
        ∃ arg, args[index]? = some arg ∧ arg.position? params = some position := by
  rw [← mem_namedEntries_iff, Placement.argument?, Placement.ofArguments, List.lookup_append,
    ← Placement.argument?, Placement.argument?_positional, ← filledInOrder]
  have haddressed : ∀ index, (position, index) ∈ namedEntries params args →
      position ∈ addressed params args := fun index hin =>
    map_fst_namedEntries ▸ List.mem_map_of_mem hin
  by_cases hfilled : position < filledInOrder params args
  · have hout : (position, index) ∉ namedEntries params args := fun hin =>
      Nat.not_lt_of_le (h.unfilled position (haddressed index hin)) hfilled
    simp [hfilled, hout, eq_comm]
  · rw [if_neg hfilled, Option.none_or, lookup_eq_some_iff_mem (map_fst_namedEntries ▸ h.distinct)]
    simp [hfilled]

/-- `argument?` is none for a parameter that is neither filled in order nor named. -/
theorem argument?_ofArguments_eq_none_iff {position : Nat} :
    (Placement.ofArguments params args).argument? position = none ↔
      filledInOrder params args ≤ position ∧ position ∉ addressed params args := by
  rw [Placement.argument?_eq_none_iff, Placement.positions_ofArguments, List.mem_append, not_or,
    List.mem_range, Nat.not_lt]

/-- The `argument?` of a parameter `Fills` it. -/
theorem Placeable.fills_argument (h : Placeable params args) {param : Param × Nat} {index : Nat}
    (hargument : (Placement.ofArguments params args).argument? param.2 = some index) :
    Fills params args param (.argument index) := by
  -- There is only one argument that the parameter can have.
  have hunique : ∀ other, (Placement.ofArguments params args).argument? param.2 = some other →
      BoundSlot.argument index = .argument other := by
    intro other hother
    rw [Option.some.inj (hargument.symm.trans hother)]
  have hsome : ¬ (filledInOrder params args ≤ param.2 ∧ param.2 ∉ addressed params args) := by
    rw [← argument?_ofArguments_eq_none_iff, hargument]
    exact Option.some_ne_none index
  refine ⟨fun hlt => hunique _ (h.argument?_eq_some_iff.2 (.inl ⟨hlt, rfl⟩)),
    fun other arg hfound hposition =>
      hunique _ (h.argument?_eq_some_iff.2 (.inr ⟨arg, hfound, hposition⟩)),
    fun htail hout => absurd ⟨?_, hout⟩ hsome, fun hrest hout _ => absurd ⟨hrest, hout⟩ hsome⟩
  -- The last parameter comes after all that are filled in order.
  rw [(tailPosition?_eq_some_iff.1 htail).2.1]
  exact Nat.min_le_right _ _

/-- What `Fills` a parameter without an argument: it gathers, or has its default. -/
theorem fills_of_argument?_eq_none {param : Param × Nat} {slot : BoundSlot}
    (hnone : (Placement.ofArguments params args).argument? param.2 = none)
    (hgathering : tailPosition? params = some param.2 →
      slot = .gathered (Placement.ofArguments params args).gathered)
    (hdefault : tailPosition? params ≠ some param.2 →
      ∃ value, param.1.default = some value ∧ slot = .default value) :
    Fills params args param slot := by
  obtain ⟨hrest, hout⟩ := argument?_ofArguments_eq_none_iff.1 hnone
  refine ⟨fun hlt => absurd hlt (Nat.not_lt_of_le hrest), fun index arg hfound hposition => ?_,
    fun htail _ => hgathering htail, fun _ _ hne => hdefault hne⟩
  -- An argument with the name of the parameter would address it.
  exact absurd (List.mem_filterMap.2 ⟨arg, List.mem_of_getElem? hfound, hposition⟩) hout

/-- A slot that `slotOf` finds `Fills` its parameter. -/
theorem Placeable.fills_of_slotOf (h : Placeable params args) {span : Span} {param : Param × Nat}
    {slot : BoundSlot}
    (hslot : slotOf params (.ofArguments params args) span param = .ok slot) :
    Fills params args param slot := by
  rcases slotOf_cases hslot with ⟨index, hargument, rfl⟩ | ⟨hnone, htail, rfl⟩ |
    ⟨value, hnone, htail, hdefault, rfl⟩
  · exact h.fills_argument hargument
  · exact fills_of_argument?_eq_none hnone (fun _ => rfl) fun hne => absurd htail hne
  · exact fills_of_argument?_eq_none hnone (fun hposition => absurd hposition htail)
      fun _ => ⟨value, hdefault, rfl⟩

/-- `slotOf` succeeds if the parameter has an argument, gathers, or has a default. -/
theorem exists_slotOf_iff {placement : Placement} {span : Span} {param : Param × Nat} :
    (∃ slot, slotOf params placement span param = .ok slot) ↔
      (placement.argument? param.2 = none → tailPosition? params ≠ some param.2 →
        param.1.default.isSome = true) := by
  unfold slotOf
  cases placement.argument? param.2 with
  | some index => simp
  | none =>
    by_cases htail : tailPosition? params = some param.2
    · simp [htail]
    · cases param.1.default <;> simp [htail]

/-- `bind` succeeds if each argument has a place of its own and what is left over has a default
(`Accepts`). Then each parameter has its slot (`Fills`), and each argument is in one of them. -/
theorem bind_ok_iff_accepts (params : List Param) (args : List Argument) (span : Span) :
    ((∃ slots, bind params args span = .ok slots) ↔ Accepts params args) ∧
      ∀ slots, bind params args span = .ok slots →
        slots.length = params.length ∧
        List.Forall₂ (Fills params args) params.zipIdx slots ∧
        ∀ index, (slots.flatMap BoundSlot.indices).count index =
          if index < args.length then 1 else 0 := by
  refine ⟨?_, fun slots h => ⟨length_of_bind h, ?_, fun index => ?_⟩⟩
  · simp only [bind_eq_ok_iff_forall₂, placeAll_eq_ok_iff]
    constructor
    · rintro ⟨slots, _, ⟨hplaceable, rfl⟩, hslots⟩
      refine ⟨hplaceable, fun param hparam hrest hout => ?_⟩
      exact exists_slotOf_iff.1 (exists_forall₂_iff.1 ⟨slots, hslots⟩ param hparam)
        (argument?_ofArguments_eq_none_iff.2 ⟨hrest, hout⟩)
    · intro h
      obtain ⟨slots, hslots⟩ := exists_forall₂_iff.2 fun param hparam =>
        exists_slotOf_iff.2 fun hnone => by
          obtain ⟨hrest, hout⟩ := argument?_ofArguments_eq_none_iff.1 hnone
          exact h.complete param hparam hrest hout
      exact ⟨slots, _, ⟨h.toPlaceable, rfl⟩, hslots⟩
  · obtain ⟨placement, hplace, hslots⟩ := bind_eq_ok_iff_forall₂.1 h
    obtain ⟨hplaceable, rfl⟩ := placeAll_eq_ok_iff.1 hplace
    exact hslots.imp fun param slot => hplaceable.fills_of_slotOf
  · rw [(perm_indices_of_bind h).count_eq, List.nodup_range.count]
    simp

end Bind

/-- The parameters of a cell: a row, a column, a layer that can be left out, and tags. -/
def cellParams : List Param :=
  [⟨"row", default, none, false, false⟩, ⟨"column", default, none, false, false⟩,
    ⟨"layer", default, some (.int 4), false, false⟩, ⟨"tags", default, none, true, false⟩]

/-- A cell given by its row and then, by name, its column. -/
def cellArguments : List Argument :=
  [⟨none, ⟨10⟩, .unplaced⟩, ⟨some "column", ⟨11⟩, .unplaced⟩]

/-- Of `cellArguments` the layer is left out, and there are no tags. -/
theorem bind_ok_iff_accepts_cell :
    Accepts cellParams cellArguments ∧
      ∃ slots, bind cellParams cellArguments .unplaced = .ok slots ∧
        slots = [.argument 0, .argument 1, .default (.int 4), .gathered []] ∧
        List.Forall₂ (Fills cellParams cellArguments) cellParams.zipIdx slots ∧
        ∀ index, (slots.flatMap BoundSlot.indices).count index = if index < 2 then 1 else 0 := by
  have hbind : bind cellParams cellArguments .unplaced =
      .ok [.argument 0, .argument 1, .default (.int 4), .gathered []] := by decide +kernel
  obtain ⟨haccepts, hslots⟩ := bind_ok_iff_accepts cellParams cellArguments .unplaced
  exact ⟨haccepts.1 ⟨_, hbind⟩, _, hbind, rfl, (hslots _ hbind).2⟩

end ExtensionMembers
