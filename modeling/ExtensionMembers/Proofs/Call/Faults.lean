import ExtensionMembers.Proofs.Call.Acceptance
import ExtensionMembers.Proofs.Lookup.Priority

/-!
# The fault of a call

A call that does not fit its parameters has one fault, however many there would be to find. An
argument is out of place or not because of the arguments before it alone, so the first one that is
decides, and nothing that comes after it changes that. Only a call without such an argument can
lack one, and it is then the first parameter left without that is named.

## Main definitions

* `Misplacement`, `Misplaced`: the ways in which an argument can be out of place after others.
* `InPlace`: no argument of a call is out of place.
* `Lacks`: a parameter is left without argument and default.

## Main results

* `inPlace_iff_placeable`: the arguments are in place if they have a place each.
* `placeAll_eq_error_iff`: the first argument out of place ends the walk.
* `bind_reports_earliest`: which fault a call has, and that more arguments keep it.
-/

namespace ExtensionMembers

/-- The ways in which an argument can be out of place after those before it, one for each
`CallFault.Cause` of an argument. -/
inductive Misplacement where
  /-- It has no name and comes after one that has. -/
  | late
  /-- It has no name, and no parameter is left for it. -/
  | surplus
  /-- No parameter has its name. -/
  | unknown (name : String)
  /-- The parameter of its name is occupied. -/
  | taken (name : String)
deriving DecidableEq

/-- The `CallFault.Cause` told about an argument out of place, in a call of `count` arguments. -/
def Misplacement.cause (params : List Param) (count : Nat) : Misplacement → CallFault.Cause
  | late => .positionalAfterNamed
  | surplus => .tooManyArguments params.length count
  | unknown name => .unknownParameter name
  | taken name => .duplicateArgument name

/-- Some arguments leave no place at a parameter: one of them fills it, in order or by name, or it
gathers one of them (`tailPosition?`). -/
def IsOccupied (params : List Param) (args : List Argument) (position : Nat) : Prop :=
  position < filledInOrder params args ∨ position ∈ addressed params args ∨
    tailPosition? params = some position ∧ fixedCount params < positionalCount args

/-- An argument is out of place after those `before` it. -/
inductive Misplaced (params : List Param) (before : List Argument) (arg : Argument) :
    Misplacement → Prop where
  /-- It has no name and comes after one that has. -/
  | late (hname : arg.name = none) (hnamed : ∃ earlier ∈ before, earlier.name.isSome = true) :
    Misplaced params before arg .late
  /-- Those before it fill all parameters, and the last one does not gather. -/
  | surplus (hname : arg.name = none) (hunnamed : ∀ earlier ∈ before, earlier.name = none)
    (hfull : params.length ≤ before.length) (htail : hasTail params = false) :
    Misplaced params before arg .surplus
  /-- No parameter has its name. -/
  | unknown {name : String} (hname : arg.name = some name)
    (hnone : ∀ param ∈ params, param.name ≠ name) : Misplaced params before arg (.unknown name)
  /-- The parameter of its name is occupied. -/
  | taken {name : String} {position : Nat} (hname : arg.name = some name)
    (hposition : positionOf? params name = some position)
    (hoccupied : IsOccupied params before position) : Misplaced params before arg (.taken name)

/-- No argument of a call is out of place (`Misplaced`) after those before it. -/
def InPlace (params : List Param) (args : List Argument) : Prop :=
  ∀ before arg after, args = before ++ arg :: after →
    ∀ misplacement, ¬ Misplaced params before arg misplacement

/-- The arguments of a call leave `param`, known with its position, without an argument, it has no
default, and it does not gather. -/
structure Lacks (params : List Param) (args : List Argument) (param : Param × Nat) : Prop where
  /-- No argument without a name fills it. -/
  unfilled : filledInOrder params args ≤ param.2
  /-- No argument has its name. -/
  unnamed : param.2 ∉ addressed params args
  /-- It does not gather. -/
  ungathered : tailPosition? params ≠ some param.2
  /-- It has no default. -/
  undefaulted : param.1.default = none

/-! ## One more argument -/

section Concat

variable {params : List Param} {before : List Argument} {arg : Argument}

/-- A parameter is not `IsOccupied` if the arguments do not reach it in any way. -/
theorem not_isOccupied_iff {position : Nat} :
    ¬ IsOccupied params before position ↔
      filledInOrder params before ≤ position ∧ position ∉ addressed params before ∧
      (fixedCount params < positionalCount before → tailPosition? params ≠ some position) := by
  rw [IsOccupied, not_or, not_or, Nat.not_lt, not_and, imp_not_comm]

/-- `positionOf?` finds no position exactly if no parameter has the name. -/
theorem positionOf?_eq_none_iff {name : String} :
    positionOf? params name = none ↔ ∀ param ∈ params, param.name ≠ name := by
  simp [positionOf?, List.findIdx?_eq_none_iff]

/-- Where no argument has a name, all are without. -/
theorem not_exists_named_iff :
    (¬ ∃ earlier ∈ before, earlier.name.isSome = true) ↔
      ∀ earlier ∈ before, earlier.name = none := by
  simp

/-- An argument without a name is `Misplaced` by coming late or by being one too many. -/
theorem misplaced_iff_of_none (hname : arg.name = none) {misplacement : Misplacement} :
    Misplaced params before arg misplacement ↔
      (misplacement = .late ∧ ∃ earlier ∈ before, earlier.name.isSome = true) ∨
      (misplacement = .surplus ∧ (∀ earlier ∈ before, earlier.name = none) ∧
        params.length ≤ before.length ∧ hasTail params = false) := by
  constructor
  · intro h
    cases h with
    | late _ hnamed => exact .inl ⟨rfl, hnamed⟩
    | surplus _ hunnamed hfull htail => exact .inr ⟨rfl, hunnamed, hfull, htail⟩
    | unknown hsome _ => simp [hname] at hsome
    | taken hsome _ _ => simp [hname] at hsome
  · rintro (⟨rfl, hnamed⟩ | ⟨rfl, hunnamed, hfull, htail⟩)
    · exact .late hname hnamed
    · exact .surplus hname hunnamed hfull htail

/-- An argument with a name is `Misplaced` by a name that no parameter has or an occupied one. -/
theorem misplaced_iff_of_some {name : String} (hname : arg.name = some name)
    {misplacement : Misplacement} :
    Misplaced params before arg misplacement ↔
      (misplacement = .unknown name ∧ positionOf? params name = none) ∨
      (misplacement = .taken name ∧ ∃ position, positionOf? params name = some position ∧
        IsOccupied params before position) := by
  rw [positionOf?_eq_none_iff]
  constructor
  · intro h
    cases h with
    | late hnone _ => simp [hname] at hnone
    | surplus hnone _ _ _ => simp [hname] at hnone
    | unknown hsome hnone =>
      obtain rfl := Option.some.inj (hname.symm.trans hsome)
      exact .inl ⟨rfl, hnone⟩
    | taken hsome hposition hoccupied =>
      obtain rfl := Option.some.inj (hname.symm.trans hsome)
      exact .inr ⟨rfl, _, hposition, hoccupied⟩
  · rintro (⟨rfl, hnone⟩ | ⟨rfl, position, hposition, hoccupied⟩)
    · exact .unknown hname hnone
    · exact .taken hname hposition hoccupied

/-- After `Placeable` arguments, one more has a place if it is not `Misplaced`. -/
theorem placeable_concat_iff :
    Placeable params (before ++ [arg]) ↔
      Placeable params before ∧ ∀ misplacement, ¬ Misplaced params before arg misplacement := by
  cases hname : arg.name with
  | none =>
    rw [placeable_concat_of_none hname]
    refine and_congr_right fun _ => ⟨?_, fun h => ?_⟩
    · rintro ⟨hunnamed, hroom⟩ misplacement h
      rcases (misplaced_iff_of_none hname).1 h with ⟨_, hnamed⟩ | ⟨_, _, hfull, htail⟩
      · exact not_exists_named_iff.2 hunnamed hnamed
      · rw [positionalCount_eq_length hunnamed, fixedCount_of_not_hasTail htail] at hroom
        exact hroom.elim (Nat.not_lt_of_le hfull) (by simp [htail])
    · have hunnamed := not_exists_named_iff.1 fun hnamed => h .late (.late hname hnamed)
      refine ⟨hunnamed, ?_⟩
      rw [positionalCount_eq_length hunnamed]
      -- A last parameter that gathers has room for any number of arguments.
      cases htail : hasTail params with
      | true => exact .inr rfl
      | false =>
        rw [fixedCount_of_not_hasTail htail]
        exact .inl (Nat.lt_of_not_le fun hfull => h .surplus (.surplus hname hunnamed hfull htail))
  | some name =>
    rw [placeable_concat_of_some hname]
    refine and_congr_right fun _ => ⟨?_, fun h => ?_⟩
    · rintro ⟨position, hposition, hfree⟩ misplacement h
      rcases (misplaced_iff_of_some hname).1 h with ⟨_, hnone⟩ | ⟨_, found, hfound, hoccupied⟩
      · rw [hnone] at hposition
        cases hposition
      · obtain rfl := Option.some.inj (hposition.symm.trans hfound)
        exact not_isOccupied_iff.2 hfree hoccupied
    · cases hposition : positionOf? params name with
      | none => exact absurd ((misplaced_iff_of_some hname).2 (.inl ⟨rfl, hposition⟩)) (h _)
      | some position =>
        exact ⟨position, rfl, not_isOccupied_iff.1 fun hoccupied =>
          h _ (.taken hname hposition hoccupied)⟩

/-- `placePositional` fails if an argument before has a name, or if there is neither a parameter
left nor one that gathers. -/
theorem placePositional_eq_error_iff {count index : Nat} {placement : Placement} {span : Span}
    {fault : CallFault} :
    placePositional params count placement index span = .error fault ↔
      (placement.named = true ∧ fault = ⟨span, .positionalAfterNamed⟩) ∨
      (placement.named = false ∧ fixedCount params ≤ placement.filled.length ∧
        hasTail params = false ∧ fault = ⟨span, .tooManyArguments params.length count⟩) := by
  unfold placePositional
  rw [eq_comm (a := fault), eq_comm (a := fault)]
  cases placement.named with
  | true => simp
  | false =>
    by_cases hnext : placement.filled.length < fixedCount params
    · simp [hnext, Nat.not_le_of_lt hnext]
    · cases htail : hasTail params with
      | false => simp [hnext, Nat.le_of_not_lt hnext]
      | true => simp [hnext]

/-- `placeNamed` fails if no parameter has the name, or if the parameter that has it is not free. -/
theorem placeNamed_eq_error_iff {index : Nat} {name : String} {placement : Placement}
    {span : Span} {fault : CallFault} :
    placeNamed params placement index name span = .error fault ↔
      (positionOf? params name = none ∧ fault = ⟨span, .unknownParameter name⟩) ∨
      ∃ position, positionOf? params name = some position ∧
        placement.isTaken params position = true ∧ fault = ⟨span, .duplicateArgument name⟩ := by
  simp only [placeNamed, eq_comm (a := fault)]
  cases hposition : positionOf? params name with
  | none => simp
  | some position =>
    cases htaken : placement.isTaken params position with
    | true => simp [htaken]
    | false => simp [htaken]

/-- `Placement.named` tells whether an argument that is placed has a name. -/
theorem named_ofArguments_eq_true_iff :
    (Placement.ofArguments params before).named = true ↔
      ∃ earlier ∈ before, earlier.name.isSome = true := by
  rw [Placement.ofArguments, List.any_eq_true]

/-- `isTaken` is true of a parameter exactly if it `IsOccupied`. -/
theorem isTaken_ofArguments_eq_true_iff {position : Nat} :
    (Placement.ofArguments params before).isTaken params position = true ↔
      IsOccupied params before position := by
  rw [← not_iff_not, Bool.not_eq_true, isTaken_ofArguments_eq_false_iff, not_isOccupied_iff]

/-- `place` fails on an argument exactly if it is `Misplaced` after those before it. -/
theorem place_ofArguments_eq_error_iff {count : Nat} {fault : CallFault} :
    place params count (.ofArguments params before) (arg, before.length) = .error fault ↔
      ∃ misplacement, Misplaced params before arg misplacement ∧
        fault = ⟨arg.span, misplacement.cause params count⟩ := by
  cases hname : arg.name with
  | none =>
    -- Where no argument before has a name, those that fill parameters are the first ones.
    have hfilled (hunnamed : ∀ earlier ∈ before, earlier.name = none)
        (htail : hasTail params = false) :
        params.length ≤ (Placement.ofArguments params before).filled.length ↔
          params.length ≤ before.length := by
      rw [Placement.ofArguments_eq_positional hunnamed, Placement.positional, List.length_map,
        List.length_range, fixedCount_of_not_hasTail htail, Nat.le_min,
        and_iff_left (Nat.le_refl _)]
    simp only [place, hname, placePositional_eq_error_iff, misplaced_iff_of_none hname]
    constructor
    · rintro (⟨hnamed, rfl⟩ | ⟨hnamed, hfull, htail, rfl⟩)
      · exact ⟨.late, .inl ⟨rfl, named_ofArguments_eq_true_iff.1 hnamed⟩, rfl⟩
      · rw [← Bool.not_eq_true, named_ofArguments_eq_true_iff, not_exists_named_iff] at hnamed
        rw [fixedCount_of_not_hasTail htail, hfilled hnamed htail] at hfull
        exact ⟨.surplus, .inr ⟨rfl, hnamed, hfull, htail⟩, rfl⟩
    · rintro ⟨_, ⟨rfl, hnamed⟩ | ⟨rfl, hunnamed, hfull, htail⟩, rfl⟩
      · exact .inl ⟨named_ofArguments_eq_true_iff.2 hnamed, rfl⟩
      · refine .inr ⟨?_, ?_, htail, rfl⟩
        · rw [Placement.ofArguments_eq_positional hunnamed, Placement.positional]
        · rwa [fixedCount_of_not_hasTail htail, hfilled hunnamed htail]
  | some name =>
    simp only [place, hname, placeNamed_eq_error_iff, isTaken_ofArguments_eq_true_iff,
      misplaced_iff_of_some hname]
    constructor
    · rintro (⟨hnone, rfl⟩ | ⟨position, hposition, hoccupied, rfl⟩)
      · exact ⟨.unknown name, .inl ⟨rfl, hnone⟩, rfl⟩
      · exact ⟨.taken name, .inr ⟨rfl, position, hposition, hoccupied⟩, rfl⟩
    · rintro ⟨_, ⟨rfl, hnone⟩ | ⟨rfl, position, hposition, hoccupied⟩, rfl⟩
      · exact .inl ⟨hnone, rfl⟩
      · exact .inr ⟨position, hposition, hoccupied, rfl⟩

end Concat

/-! ## The first argument out of place -/

section Call

variable {params : List Param} {args : List Argument}

/-- `InPlace` with one more argument: the call was, and the argument is not `Misplaced`. -/
theorem inPlace_concat_iff {arg : Argument} :
    InPlace params (args ++ [arg]) ↔
      InPlace params args ∧ ∀ misplacement, ¬ Misplaced params args arg misplacement := by
  constructor
  · intro h
    exact ⟨fun before other after hsplit => h before other (after ++ [arg]) (by simp [hsplit]),
      h args arg [] rfl⟩
  · rintro ⟨hargs, harg⟩ before other after hsplit
    -- The argument is the last one, or among those before.
    rcases List.eq_nil_or_concat after with rfl | ⟨rest, last, rfl⟩
    · obtain ⟨rfl, hother⟩ := List.append_inj' hsplit rfl
      obtain rfl := List.singleton_inj.1 hother
      exact harg
    · rw [List.concat_eq_append, ← List.cons_append, ← List.append_assoc] at hsplit
      exact hargs before other rest (List.append_inj' hsplit rfl).1

/-- The arguments of a call are `InPlace` if they are `Placeable`. -/
theorem inPlace_iff_placeable : InPlace params args ↔ Placeable params args := by
  -- Both grow by the same condition on the last argument.
  induction args using List.reverseRecOn with
  | nil => exact iff_of_true (fun before _ _ hsplit => by simp at hsplit) (placeable_nil params)
  | append_singleton args arg ih => rw [inPlace_concat_iff, placeable_concat_iff, ih]

/-- `placeAll` fails at the first argument that is `Misplaced`. -/
theorem placeAll_eq_error_iff {fault : CallFault} :
    placeAll params args = .error fault ↔
      ∃ before arg after misplacement, args = before ++ arg :: after ∧ InPlace params before ∧
        Misplaced params before arg misplacement ∧
        fault = ⟨arg.span, misplacement.cause params args.length⟩ := by
  rw [placeAll, foldlM_zipIdx_eq_error_iff]
  -- The walk reaches the placement that the arguments before make, if they have a place each.
  simp only [foldlM_place_eq_ok_iff, Nat.zero_add, inPlace_iff_placeable]
  constructor
  · rintro ⟨before, arg, after, _, hsplit, ⟨hbefore, rfl⟩, hplace⟩
    obtain ⟨misplacement, hmisplaced, hfault⟩ := place_ofArguments_eq_error_iff.1 hplace
    exact ⟨before, arg, after, misplacement, hsplit, hbefore, hmisplaced, hfault⟩
  · rintro ⟨before, arg, after, misplacement, hsplit, hbefore, hmisplaced, hfault⟩
    exact ⟨before, arg, after, _, hsplit, ⟨hbefore, rfl⟩,
      place_ofArguments_eq_error_iff.2 ⟨misplacement, hmisplaced, hfault⟩⟩

/-- `slotOf` fails exactly if the parameter is left without argument and default (`Lacks`). -/
theorem slotOf_ofArguments_eq_error_iff {span : Span} {param : Param × Nat} {fault : CallFault} :
    slotOf params (.ofArguments params args) span param = .error fault ↔
      Lacks params args param ∧ fault = ⟨span, .missingArgument param.1.name⟩ := by
  have hlacks : Lacks params args param ↔
      (Placement.ofArguments params args).argument? param.2 = none ∧
        tailPosition? params ≠ some param.2 ∧ param.1.default = none := by
    rw [argument?_ofArguments_eq_none_iff]
    exact ⟨fun h => ⟨⟨h.unfilled, h.unnamed⟩, h.ungathered, h.undefaulted⟩,
      fun ⟨⟨hunfilled, hunnamed⟩, hungathered, hundefaulted⟩ =>
        ⟨hunfilled, hunnamed, hungathered, hundefaulted⟩⟩
  rw [hlacks, slotOf, eq_comm (a := fault)]
  cases (Placement.ofArguments params args).argument? param.2 with
  | some index => simp
  | none =>
    by_cases htail : tailPosition? params = some param.2
    · simp [htail]
    · cases param.1.default <;> simp [htail]

/-- Where all arguments are placed, `slotOf` fails at the first parameter that the call `Lacks`. -/
theorem mapM_slotOf_eq_error_iff {span : Span} {fault : CallFault} :
    params.zipIdx.mapM (slotOf params (.ofArguments params args) span) = .error fault ↔
      ∃ param, IsFirst (Lacks params args) params.zipIdx param ∧
        fault = ⟨span, .missingArgument param.1.name⟩ := by
  have hfilled : ∀ param, (∃ slot, slotOf params (.ofArguments params args) span param = .ok slot) ↔
      ¬ Lacks params args param := by
    intro param
    constructor
    · rintro ⟨slot, hslot⟩ hlacks
      rw [slotOf_ofArguments_eq_error_iff.2 ⟨hlacks, rfl⟩] at hslot
      cases hslot
    · intro hnot
      cases hslot : slotOf params (.ofArguments params args) span param with
      | ok slot => exact ⟨slot, rfl⟩
      | error other => exact absurd (slotOf_ofArguments_eq_error_iff.1 hslot).1 hnot
  rw [mapM_eq_error_iff]
  -- The parameters before have slots, so none of them lacks an argument.
  simp only [hfilled, slotOf_ofArguments_eq_error_iff]
  constructor
  · rintro ⟨before, param, after, hsplit, hbefore, hlacks, hfault⟩
    exact ⟨param, ⟨before, after, hsplit, hlacks, hbefore⟩, hfault⟩
  · rintro ⟨param, ⟨before, after, hsplit, hlacks, hbefore⟩, hfault⟩
    exact ⟨before, param, after, hsplit, hbefore, hlacks, hfault⟩

/-- `bind` fails for the first argument that is `Misplaced`, or, if none is, for the first parameter
that the call `Lacks`. -/
theorem bind_eq_error_iff_first {span : Span} {fault : CallFault} :
    bind params args span = .error fault ↔
      (∃ before arg after misplacement, args = before ++ arg :: after ∧ InPlace params before ∧
        Misplaced params before arg misplacement ∧
        fault = ⟨arg.span, misplacement.cause params args.length⟩) ∨
      (InPlace params args ∧ ∃ param, IsFirst (Lacks params args) params.zipIdx param ∧
        fault = ⟨span, .missingArgument param.1.name⟩) := by
  rw [bind, bind_eq_error_iff, placeAll_eq_error_iff]
  refine or_congr_right ⟨?_, ?_⟩
  · rintro ⟨placement, hplace, hslots⟩
    obtain ⟨hplaceable, rfl⟩ := placeAll_eq_ok_iff.1 hplace
    exact ⟨inPlace_iff_placeable.2 hplaceable, mapM_slotOf_eq_error_iff.1 hslots⟩
  · rintro ⟨hinPlace, hmissing⟩
    exact ⟨_, placeAll_eq_ok_iff.2 ⟨inPlace_iff_placeable.1 hinPlace, rfl⟩,
      mapM_slotOf_eq_error_iff.2 hmissing⟩

/-- Where `CallFault.Cause.tooManyArguments` is told, there are more arguments than parameters. -/
theorem Misplaced.lt_length {before after : List Argument} {arg : Argument}
    {misplacement : Misplacement} {expected found : Nat}
    (h : Misplaced params before arg misplacement) (hsplit : args = before ++ arg :: after)
    (hcause : misplacement.cause params args.length = .tooManyArguments expected found) :
    expected < found := by
  -- Only a surplus argument is told by a number, and the number counts it.
  cases h with
  | surplus _ _ hfull _ =>
    obtain ⟨rfl, rfl⟩ := CallFault.Cause.tooManyArguments.inj hcause
    rw [hsplit, List.length_append, List.length_cons]
    omega
  | late _ _ => cases hcause
  | unknown _ _ => cases hcause
  | taken _ _ _ => cases hcause

/-- `bind` fails with the fault of the first argument that is `Misplaced`, which is told in the same
way however the call goes on, and only without such an argument (`InPlace`) with that of the first
parameter that the call `Lacks`. -/
theorem bind_reports_earliest (params : List Param) (args : List Argument) (span : Span) :
    (∀ fault, bind params args span = .error fault ↔
      (∃ before arg after misplacement, args = before ++ arg :: after ∧ InPlace params before ∧
        Misplaced params before arg misplacement ∧
        fault = ⟨arg.span, misplacement.cause params args.length⟩) ∨
      (InPlace params args ∧ ∃ param, IsFirst (Lacks params args) params.zipIdx param ∧
        fault = ⟨span, .missingArgument param.1.name⟩)) ∧
      (∀ before arg after misplacement, args = before ++ arg :: after → InPlace params before →
        Misplaced params before arg misplacement → ∀ more span, bind params (args ++ more) span =
          .error ⟨arg.span, misplacement.cause params (args.length + more.length)⟩) ∧
      ∀ place expected found,
        bind params args span = .error ⟨place, .tooManyArguments expected found⟩ →
          expected < found := by
  refine ⟨fun fault => bind_eq_error_iff_first, ?_, fun place expected found h => ?_⟩
  -- The call that goes on has the same arguments before the one out of place.
  · intro before arg after misplacement hsplit hbefore hmisplaced more span
    refine bind_eq_error_iff_first.2 (.inl ⟨before, arg, after ++ more, misplacement, ?_, hbefore,
      hmisplaced, ?_⟩)
    · rw [hsplit, List.append_assoc, List.cons_append]
    · rw [List.length_append]
  · rcases bind_eq_error_iff_first.1 h with
      ⟨before, arg, after, misplacement, hsplit, _, hmisplaced, hfault⟩ | ⟨_, param, _, hfault⟩
    · exact hmisplaced.lt_length hsplit (CallFault.mk.inj hfault).2.symm
    · cases (CallFault.mk.inj hfault).2

end Call

/-- After `cellArguments` the row is given a second time, by name, and then comes an argument
without a name. -/
theorem bind_reports_earliest_cell :
    let row : Argument := ⟨some "row", ⟨12⟩, ⟨⟨0⟩, 1, 20, 3⟩⟩
    let tag : Argument := ⟨none, ⟨13⟩, ⟨⟨0⟩, 1, 30, 3⟩⟩
    InPlace cellParams cellArguments ∧ Misplaced cellParams cellArguments row (.taken "row") ∧
      (∀ more span, bind cellParams ((cellArguments ++ [row, tag]) ++ more) span =
        .error ⟨row.span, .duplicateArgument "row"⟩) ∧
      bind (cellParams.take 1) [tag, tag] .unplaced = .error ⟨tag.span, .tooManyArguments 1 2⟩ ∧
      1 < 2 := by
  intro row tag
  have hplaced : placeAll cellParams cellArguments = .ok ⟨[(0, 0), (1, 1)], [], true⟩ := by
    decide +kernel
  have hbefore : InPlace cellParams cellArguments :=
    inPlace_iff_placeable.2 (placeAll_eq_ok_iff.1 hplaced).1
  have hposition : positionOf? cellParams "row" = some 0 := by decide +kernel
  have hrow : Misplaced cellParams cellArguments row (.taken "row") :=
    .taken rfl hposition (.inl (by decide))
  have hsurplus : bind (cellParams.take 1) [tag, tag] .unplaced =
      .error ⟨tag.span, .tooManyArguments 1 2⟩ := by decide +kernel
  exact ⟨hbefore, hrow,
    (bind_reports_earliest cellParams _ .unplaced).2.1 _ row [tag] _ rfl hbefore hrow, hsurplus,
    (bind_reports_earliest (cellParams.take 1) _ .unplaced).2.2 _ _ _ hsurplus⟩

end ExtensionMembers
