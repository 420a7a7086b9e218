import ExtensionMembers.Proofs.Call.Signature
import ExtensionMembers.Proofs.Lookup.Slots

/-!
# Binding in slots

Arguments can also be bound in a list with one slot for each parameter, read and written by
position as the arguments are met, and the temporaries of the arguments be looked up by position
afterwards. Positions come from a counter, from the names of parameters, from the last parameter,
and from the slots that binding made. Each of these steps fails if a position is out of range; none
ever does, and what comes out is the same.

## Main definitions

* `SlotState`: the slots with what else is kept while arguments are read.
* `placeInSlots?`, `bindInSlots?`: binding by position.
* `SlotState.Mirrors`: the slots hold the arguments that a placement has.
* `argumentTemps`, `BoundSlot.operandAt?`: temporaries looked up by position.
* `Registry.lowerSiteAt?`: a use lowered by positions.

## Main results

* `SlotState.Mirrors.follows_place`: one argument is placed within range.
* `bindInSlots?_eq_some`: binding in slots stays in range and binds.
* `operandsAt?_eq_some`: so does looking up the temporaries of what was bound.
* `Registry.Slotted.lowerSiteAt?_eq_some`: so does lowering a use.
-/

namespace ExtensionMembers

/-! ## Slots -/

/-- One slot for each parameter, and what else the engine's `bind` keeps while arguments are
read. -/
structure SlotState where
  /-- What fills each parameter so far. -/
  slots : List (Option BoundSlot)
  /-- The arguments left for the last parameter. -/
  extra : List Nat
  /-- The parameter that the next positional argument is for. -/
  next : Nat
  /-- Whether an argument was named. -/
  named : Bool

namespace SlotState

/-- The `SlotState` before any argument is read. -/
def start (params : List Param) : SlotState := ⟨List.replicate params.length none, [], 0, false⟩

/-- The `SlotState` with one slot written; none if the position is out of range. -/
def write? (state : SlotState) (position : Nat) (slot : BoundSlot) : Option SlotState := do
  let _ ← state.slots[position]?
  return { state with slots := state.slots.set position (some slot) }

end SlotState

/-- `place` in slots: the state with one more argument, in a call of `count` arguments; none if a
position is out of range. -/
def placeInSlots? (params : List Param) (count : Nat) (state : SlotState) (arg : Argument × Nat) :
    Option (Except CallFault SlotState) :=
  match arg.1.name with
  | none =>
    if state.named then some (.error ⟨arg.1.span, .positionalAfterNamed⟩)
    else if state.next < fixedCount params then do
      let written ← state.write? state.next (.argument arg.2)
      return .ok { written with next := state.next + 1 }
    else if hasTail params then some (.ok { state with extra := state.extra ++ [arg.2] })
    else some (.error ⟨arg.1.span, .tooManyArguments params.length count⟩)
  | some name =>
    match positionOf? params name with
    | none => some (.error ⟨arg.1.span, .unknownParameter name⟩)
    | some position => do
      let slot ← state.slots[position]?
      if slot.isSome || (tailPosition? params == some position && !state.extra.isEmpty) then
        return .error ⟨arg.1.span, .duplicateArgument name⟩
      let written ← state.write? position (.argument arg.2)
      return .ok { written with named := true }

/-- `placeInSlots?` for all of some arguments. -/
def placeAllInSlots? (params : List Param) (count : Nat) (state : SlotState) :
    List (Argument × Nat) → Option (Except CallFault SlotState)
  | [] => some (.ok state)
  | arg :: rest => do
    match ← placeInSlots? params count state arg with
    | .error fault => return .error fault
    | .ok next => placeAllInSlots? params count next rest

/-- The slots with what is left, `extra`, given to the last parameter, if it gathers and has no
argument. -/
def gatherInSlots? (params : List Param) (state : SlotState) : Option SlotState :=
  match tailPosition? params with
  | none => some state
  | some tail => do
    let slot ← state.slots[tail]?
    if slot.isNone then state.write? tail (.gathered state.extra) else return state

/-- What fills a parameter: its slot, else its default; `slotOf` on a slot. -/
def fillSlot (span : Span) (param : Param × Option BoundSlot) : Except CallFault BoundSlot :=
  match param.2, param.1.default with
  | some slot, _ => .ok slot
  | none, some value => .ok (.default value)
  | none, none => .error ⟨span, .missingArgument param.1.name⟩

/-- `bind` in slots: what fills each parameter; none if a position is out of range. -/
def bindInSlots? (params : List Param) (args : List Argument) (span : Span) :
    Option (Except CallFault (List BoundSlot)) := do
  match ← placeAllInSlots? params args.length (.start params) args.zipIdx with
  | .error fault => return .error fault
  | .ok state =>
    let gathered ← gatherInSlots? params state
    return (params.zip gathered.slots).mapM (fillSlot span)

/-! ## Slots and placements -/

/-- After `fill`, a parameter filled for the first time has its argument, and no other one
changes. -/
theorem Placement.argument?_fill {placement : Placement} {position : Nat}
    (hfree : placement.argument? position = none) (index other : Nat) :
    (placement.fill position index).argument? other =
      if other = position then some index else placement.argument? other := by
  rw [argument?, fill, List.lookup_append, ← argument?]
  by_cases hother : other = position
  · rw [hother, hfree, if_pos rfl]
    simp
  · rw [if_neg hother]
    simp [List.lookup_cons, beq_eq_false_iff_ne.2 hother]

/-- What fills a parameter by `slotOf`, the defaults apart. -/
def Placement.slot? (placement : Placement) (params : List Param) (position : Nat) :
    Option BoundSlot :=
  match placement.argument? position with
  | some index => some (.argument index)
  | none =>
    if tailPosition? params = some position then some (.gathered placement.gathered) else none

/-- Where nothing is gathered, `slot?` is the argument of the parameter. -/
theorem Placement.slot?_eq_argument {placement : Placement} {params : List Param} {position : Nat}
    (h : tailPosition? params ≠ some position ∨ (placement.argument? position).isSome = true) :
    placement.slot? params position = (placement.argument? position).map .argument := by
  unfold slot?
  cases hfilled : placement.argument? position with
  | some index => rfl
  | none =>
    rw [hfilled] at h
    exact if_neg (h.resolve_right Bool.false_ne_true)

/-- `fillSlot` fills a parameter as `slotOf` does from the placement. -/
theorem fillSlot_slot? (params : List Param) (placement : Placement) (span : Span)
    (param : Param × Nat) :
    fillSlot span (param.1, placement.slot? params param.2) =
      slotOf params placement span param := by
  unfold fillSlot Placement.slot? slotOf
  cases placement.argument? param.2 with
  | some index => rfl
  | none =>
    by_cases htail : tailPosition? params = some param.2
    · simp [htail]
    · cases hdefault : param.1.default <;> simp [htail]

namespace SlotState

variable {params : List Param} {placement : Placement} {state : SlotState} {position : Nat}

/-- The slots of `state` hold the arguments that `placement` has, and the rest is the same. -/
structure Mirrors (params : List Param) (placement : Placement) (state : SlotState) : Prop where
  /-- There is a slot for each parameter, with its argument. -/
  slots_eq : state.slots = (List.range params.length).map fun position =>
    (placement.argument? position).map .argument
  /-- What is gathered is the same. -/
  extra_eq : state.extra = placement.gathered
  /-- So is whether an argument was named. -/
  named_eq : state.named = placement.named
  /-- Until then the counter is the number of parameters filled. -/
  next_eq : placement.named = false → state.next = placement.filled.length

/-- The steps in slots, `checked`, fail where those of the placement do, and never by a position. -/
def Follows (params : List Param) (checked : Option (Except CallFault SlotState)) :
    Except CallFault Placement → Prop
  | .error fault => checked = some (.error fault)
  | .ok placement => ∃ state, checked = some (.ok state) ∧ Mirrors params placement state

theorem mirrors_start (params : List Param) : Mirrors params .empty (start params) where
  slots_eq := by
    have hnone : ∀ position, (Placement.empty.argument? position).map BoundSlot.argument = none :=
      fun _ => rfl
    simp only [hnone, List.map_const', List.length_range, start]
  extra_eq := rfl
  named_eq := rfl
  next_eq _ := rfl

namespace Mirrors

/-- Under `Mirrors`, the slot of a parameter is in range and holds its argument. -/
theorem getElem?_slots (h : Mirrors params placement state) (hlt : position < params.length) :
    state.slots[position]? = some ((placement.argument? position).map .argument) := by
  rw [h.slots_eq, List.getElem?_map, List.getElem?_range hlt]
  rfl

/-- Under `Mirrors`, the slot of a parameter is in range and can be written. -/
theorem write?_eq_some (h : Mirrors params placement state) (hlt : position < params.length)
    (slot : BoundSlot) :
    state.write? position slot = some { state with
      slots := (List.range params.length).map fun other =>
        if other = position then some slot else (placement.argument? other).map .argument } := by
  rw [write?, h.getElem?_slots hlt, ← set_map_range, ← h.slots_eq]
  rfl

/-- Under `Mirrors`, an argument written into a free slot fills the parameter. -/
theorem write?_argument (h : Mirrors params placement state) (hlt : position < params.length)
    (hfree : placement.argument? position = none) (index : Nat) :
    state.write? position (.argument index) = some { state with
      slots := (List.range params.length).map fun other =>
        ((placement.fill position index).argument? other).map .argument } := by
  have hfill : ∀ other, (if other = position then some (BoundSlot.argument index)
      else (placement.argument? other).map .argument) =
        ((placement.fill position index).argument? other).map .argument := by
    intro other
    rw [Placement.argument?_fill hfree]
    by_cases hother : other = position <;> simp [hother]
  rw [h.write?_eq_some hlt]
  simp only [hfill]

variable {read : Nat} {arg : Argument}

/-- `placeInSlots?` stays in range on a positional argument: the counter stays below the number of
parameters that are filled one by one (`fixedCount`). -/
theorem follows_positional (h : Mirrors params placement state)
    (hsound : placement.Sound params read) (hname : arg.name = none) (count : Nat) :
    Follows params (placeInSlots? params count state (arg, read))
      (place params count placement (arg, read)) := by
  rw [placeInSlots?, place]
  simp only [hname, placePositional, h.named_eq]
  cases hnamed : placement.named with
  | true => rfl
  | false =>
    simp only [Bool.false_eq_true, if_false, h.next_eq hnamed]
    by_cases hnext : placement.filled.length < fixedCount params
    · -- The parameters filled are those before the next one, which is free.
      have hfree : placement.argument? placement.filled.length = none := by
        rw [Placement.argument?_eq_none_iff, (hsound.inOrder hnamed).1]
        exact List.not_mem_range_self
      have hlt : placement.filled.length < params.length :=
        Nat.lt_of_lt_of_le hnext (fixedCount_le_length params)
      rw [if_pos hnext, if_pos hnext, h.write?_argument hlt hfree]
      refine ⟨_, rfl, rfl, h.extra_eq, h.named_eq, fun _ => ?_⟩
      show placement.filled.length + 1 = (placement.filled ++ [_]).length
      rw [List.length_append, List.length_singleton]
    · -- No parameter is left: the argument is gathered, or there are too many.
      rw [if_neg hnext, if_neg hnext]
      cases htail : hasTail params with
      | false => rfl
      | true =>
        refine ⟨_, rfl, h.slots_eq, ?_, hnamed.symm, fun _ => rfl⟩
        exact congrArg (· ++ [read]) h.extra_eq

/-- `placeInSlots?` stays in range on a named argument: its position is that of a parameter
(`positionOf?`). -/
theorem follows_named (h : Mirrors params placement state) {name : String}
    (hname : arg.name = some name) (count : Nat) :
    Follows params (placeInSlots? params count state (arg, read))
      (place params count placement (arg, read)) := by
  rw [placeInSlots?, place]
  simp only [hname, placeNamed]
  cases hposition : positionOf? params name with
  | none => rfl
  | some position =>
    have hlt := lt_length_of_positionOf? hposition
    -- The test reads the slot where the placement asks for the argument.
    have htaken : (((placement.argument? position).map BoundSlot.argument).isSome ||
        (tailPosition? params == some position && !state.extra.isEmpty)) =
          placement.isTaken params position := by
      rw [Option.isSome_map, h.extra_eq, Placement.isTaken]
    simp only [h.getElem?_slots hlt, Option.bind_eq_bind, Option.bind_some, htaken]
    cases hfree : placement.isTaken params position with
    | true => rfl
    | false =>
      have hargument := Placement.argument?_eq_none_iff.2 (Placement.isTaken_eq_false_iff.1 hfree).1
      simp only [Bool.false_eq_true, if_false, h.write?_argument hlt hargument]
      exact ⟨_, rfl, rfl, h.extra_eq, rfl, fun hnamed => by cases hnamed⟩

/-- `placeInSlots?` follows `place`, and stays in range. -/
theorem follows_place (h : Mirrors params placement state) (hsound : placement.Sound params read)
    (arg : Argument) (count : Nat) :
    Follows params (placeInSlots? params count state (arg, read))
      (place params count placement (arg, read)) := by
  cases hname : arg.name with
  | none => exact h.follows_positional hsound hname count
  | some name => exact h.follows_named hname count

/-- `placeAllInSlots?` follows `place` over all arguments, and stays in range. -/
theorem follows_placeAll (h : Mirrors params placement state)
    (hsound : placement.Sound params read) (args : List Argument) (count : Nat) :
    Follows params (placeAllInSlots? params count state (args.zipIdx read))
      ((args.zipIdx read).foldlM (place params count) placement) := by
  induction args generalizing placement state read with
  | nil => exact ⟨state, rfl, h⟩
  | cons arg rest ih =>
    -- After a fault neither walk goes on, else both go on from states that mirror each other.
    have hstep := h.follows_place hsound arg count
    rw [List.zipIdx_cons, placeAllInSlots?, List.foldlM_cons]
    cases hplace : place params count placement (arg, read) with
    | error fault =>
      rw [hplace] at hstep
      rw [show placeInSlots? params count state (arg, read) = some (.error fault) from hstep]
      rfl
    | ok after =>
      rw [hplace] at hstep
      obtain ⟨next, hnext, hmirrors⟩ := hstep
      rw [hnext]
      exact ih hmirrors (hsound.place hplace)

/-- Where no last parameter is left to gather, the slots are those of `Placement.slot?`. -/
theorem slots_eq_slot? (h : Mirrors params placement state)
    (htaken : ∀ tail, tailPosition? params = some tail →
      (placement.argument? tail).isSome = true) :
    state.slots = (List.range params.length).map (placement.slot? params) := by
  rw [h.slots_eq]
  refine List.map_congr_left fun position _ => ?_
  rw [Placement.slot?_eq_argument]
  by_cases htail : tailPosition? params = some position
  · exact .inr (htaken position htail)
  · exact .inl htail

/-- `gatherInSlots?` stays in range. -/
theorem gatherInSlots?_eq_some (h : Mirrors params placement state) :
    ∃ gathered, gatherInSlots? params state = some gathered ∧
      gathered.slots = (List.range params.length).map (placement.slot? params) := by
  unfold gatherInSlots?
  cases htail : tailPosition? params with
  | none => exact ⟨state, rfl, h.slots_eq_slot? fun tail hsome => by simp [htail] at hsome⟩
  | some tail =>
    have hlt : tail < params.length := by
      have := (tailPosition?_eq_some_iff.1 htail).2.2
      omega
    simp only [h.getElem?_slots hlt, Option.bind_eq_bind, Option.bind_some, Option.isNone_map]
    cases hfilled : placement.argument? tail with
    | some index =>
      -- An argument was given to it by name, and stays.
      refine ⟨state, rfl, h.slots_eq_slot? fun position hposition => ?_⟩
      obtain rfl : tail = position := Option.some.inj (htail.symm.trans hposition)
      rw [hfilled]
      rfl
    | none =>
      refine ⟨_, h.write?_eq_some hlt _, List.map_congr_left fun position _ => ?_⟩
      by_cases hposition : position = tail
      · subst hposition
        simp [Placement.slot?, hfilled, htail, h.extra_eq]
      · rw [if_neg hposition, Placement.slot?_eq_argument]
        exact .inl (by simpa [htail] using Ne.symm hposition)

end Mirrors

end SlotState

/-- `bindInSlots?` stays in range, and gives what `bind` does. -/
theorem bindInSlots?_eq_some (params : List Param) (args : List Argument) (span : Span) :
    bindInSlots? params args span = some (bind params args span) := by
  have hfollows := (SlotState.mirrors_start params).follows_placeAll
    (Placement.sound_empty params) args args.length
  rw [bindInSlots?, bind, placeAll]
  -- A fault is found by the same argument; otherwise the slots are read off the same placement.
  cases hplace : args.zipIdx.foldlM (place params args.length) .empty with
  | error fault =>
    rw [hplace] at hfollows
    rw [show placeAllInSlots? params args.length (.start params) args.zipIdx =
      some (.error fault) from hfollows]
    rfl
  | ok placement =>
    rw [hplace] at hfollows
    obtain ⟨state, hstate, hmirrors⟩ := hfollows
    obtain ⟨gathered, hgathered, hslots⟩ := hmirrors.gatherInSlots?_eq_some
    have hfilled : (params.zip gathered.slots).mapM (fillSlot span) =
        params.zipIdx.mapM (slotOf params placement span) := by
      rw [hslots, zip_map_range, List.mapM_map]
      simp only [Function.comp_def, fillSlot_slot?]
    simp only [hstate, hgathered, Option.bind_eq_bind, Option.bind_some, hfilled]
    rfl

/-! ## Temporaries -/

/-- The temporaries of `count` arguments, of which the one at position `first` of a prelude is the
first. -/
def argumentTemps (temps : List Temp) (first count : Nat) : List TempId :=
  ((temps.drop first).take count).map (·.id)

/-- `BoundSlot.operand` with the temporaries of the arguments looked up by position; none if one is
out of range. -/
def BoundSlot.operandAt? (temps : List TempId) : BoundSlot → Option Operand
  | argument index => temps[index]?.map .temp
  | default value => some (.default value)
  | gathered indices => (indices.mapM (temps[·]?)).map .sequence

/-- In a `prelude` that holds the arguments from some position on, each has its temporary. -/
theorem getElem?_argumentTemps {sources : List TempSource} {first count index : Nat}
    (hcount : first + count ≤ sources.length) (hindex : index < count) :
    (argumentTemps (prelude sources) first count)[index]? = some ⟨first + index⟩ := by
  have hlt : first + index < sources.length := by omega
  rw [argumentTemps, List.getElem?_map, List.getElem?_take_of_lt hindex, List.getElem?_drop,
    getElem?_prelude, List.getElem?_eq_getElem hlt]
  rfl

/-- `operandAt?` is in range if the arguments of the slot have temporaries. -/
theorem BoundSlot.operandAt?_eq_some {slot : BoundSlot} {temps : List TempId} {first : Nat}
    (h : ∀ index ∈ slot.indices, temps[index]? = some ⟨first + index⟩) :
    slot.operandAt? temps = some (slot.operand first) := by
  cases slot with
  | argument index =>
    rw [operandAt?, h index (List.mem_singleton_self index)]
    rfl
  | default value => rfl
  | gathered indices =>
    have hall : indices.mapM (temps[·]?) = some (indices.map fun index => ⟨first + index⟩) :=
      mapM_eq_some_map h
    rw [operandAt?, hall]
    rfl

/-- `operandAt?` is in range for a call on which `bind` succeeds: `bind` only hands out positions of
arguments. -/
theorem operandsAt?_eq_some {params : List Param} {args : List Argument} {span : Span}
    {slots : List BoundSlot} (h : bind params args span = .ok slots)
    {sources : List TempSource} {first : Nat} (hcount : first + args.length ≤ sources.length) :
    slots.mapM (·.operandAt? (argumentTemps (prelude sources) first args.length)) =
      some (slots.map (·.operand first)) := by
  refine mapM_eq_some_map fun slot hslot => BoundSlot.operandAt?_eq_some fun index hindex => ?_
  exact getElem?_argumentTemps hcount (lt_length_of_mem_indices h hslot hindex)

/-! ## Uses -/

/-- `Member.operands`, by positions. -/
def Member.operandsAt? (member : Member) (site : AccessSite) :
    Option (Except CallFault (List Operand)) :=
  if site.shape.kind = .methodGroup || member.category = .property then some (.ok [])
  else do
    let temps := argumentTemps (prelude site.sources) site.firstArgument site.shape.args.length
    match ← bindInSlots? member.params site.shape.args site.span with
    | .error fault => return .error fault
    | .ok slots => return .ok (← slots.mapM (·.operandAt? temps))

namespace Registry

/-- `formOf`, by positions. -/
def formAt? (registry : Registry) (site : AccessSite) (resolution : Resolution) :
    Option (Except Fault CallForm) :=
  match resolution.member? with
  | none => some (.error (registry.siteFault site resolution))
  | some member =>
    match member.missingAccessor? site.shape.kind with
    | some accessor => some (.error (.lookup ⟨site.span, .accessorMissing member.name accessor⟩))
    | none => do
      match ← member.operandsAt? site with
      | .error fault => return .error (.call fault)
      | .ok operands => return .ok (.ofResolution site.shape.kind site.receiverOperand?
          (operands ++ site.assignedOperand?.toList) resolution)

/-- `lowerSite`, by positions. -/
def lowerSiteAt? (registry : Registry) (slots : Table ExtensionId Nat) (site : AccessSite) :
    Option (LoweredAccess × Report) := do
  let resolution ← registry.resolveAt? slots (.ofSite site) (registry.chain site.scope)
  match ← registry.formAt? site resolution with
  | .ok form => return (⟨site.id, prelude site.sources, form⟩, .empty)
  | .error fault => return (⟨site.id, prelude site.sources, .error⟩, ⟨[fault.diagnostic]⟩)

end Registry

/-- `operandsAt?` is in range: the prelude of a use holds its arguments. -/
theorem Member.operandsAt?_eq_some (member : Member) (site : AccessSite) :
    member.operandsAt? site = some (member.operands site) := by
  have hcount : site.firstArgument + site.shape.args.length ≤ site.sources.length := by
    rw [site.length_sources]
    exact Nat.le_add_right _ _
  rw [operandsAt?, operands]
  split
  · rfl
  · rw [bindInSlots?_eq_some, Option.bind_eq_bind, Option.bind_some]
    cases hbind : bind member.params site.shape.args site.span with
    | error fault => rfl
    | ok slots =>
      simp only [ExtensionMembers.operandsAt?_eq_some hbind hcount]
      rfl

namespace Registry

theorem formAt?_eq_some (registry : Registry) (site : AccessSite) (resolution : Resolution) :
    registry.formAt? site resolution = some (registry.formOf site resolution) := by
  unfold formAt? formOf
  cases resolution.member? with
  | none => rfl
  | some member =>
    dsimp only
    cases member.missingAccessor? site.shape.kind with
    | some accessor => rfl
    | none =>
      dsimp only
      rw [member.operandsAt?_eq_some, Option.bind_eq_bind, Option.bind_some]
      cases member.operands site <;> rfl

/-- `lowerSiteAt?` stays in range, and gives what `lowerSite` does. -/
theorem Slotted.lowerSiteAt?_eq_some {registry : Registry} {slots : Table ExtensionId Nat}
    (h : registry.Slotted slots) (site : AccessSite) :
    registry.lowerSiteAt? slots site = some (registry.lowerSite site) := by
  rw [lowerSiteAt?, h.resolveAt?_eq_some, Option.bind_eq_bind, Option.bind_some,
    formAt?_eq_some, Option.bind_eq_bind, Option.bind_some, lowerSite, lowerAccess]
  cases registry.formOf site (registry.resolve (.ofSite site) (registry.chain site.scope)) <;> rfl

end Registry

end ExtensionMembers
