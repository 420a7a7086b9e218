import ExtensionMembers.Call.Binding
import ExtensionMembers.Proofs.Collection.Traversal
import Mathlib.Data.List.Nodup

/-!
# Where arguments go

Binding walks the arguments once and keeps a placement of those read so far. Whatever the mix of
positional and named arguments, each argument read is in exactly one place, no parameter has two,
and only a parameter that gathers holds several; so the slots of a successful binding use every
argument of the call once.

## Main definitions

* `BoundSlot.indices`: the arguments that fill a parameter.
* `BoundSlot.Fits`: what fills a parameter is an argument of the call or declared with it.
* `Placement.Sound`: what holds of a placement after some arguments.
* `Placement.positional`: the placement of arguments that are all positional.

## Main results

* `sound_of_placeAll`: the placement of a call is sound.
* `perm_indices_of_bind`: the slots use each argument once.
* `fits_of_bind`: one slot for each parameter, and it fits.
* `placeAll_positional`, `bind_positional`: calls without named arguments.
-/

namespace ExtensionMembers

/-- The arguments that a `BoundSlot` has, in order. -/
def BoundSlot.indices : BoundSlot → List Nat
  | argument index => [index]
  | default _ => []
  | gathered indices => indices

/-- A slot fits a parameter, known with its position, if it takes arguments of the call or the
default that the parameter declares, and several arguments only where the last parameter gathers
them (`tailPosition?`). -/
def BoundSlot.Fits (params : List Param) (count : Nat) (param : Param × Nat) : BoundSlot → Prop
  | argument index => index < count
  | default value => param.1.default = some value
  | gathered indices => tailPosition? params = some param.2 ∧ ∀ index ∈ indices, index < count

/-! ## The parameters that positional arguments fill -/

/-- `tailPosition?` comes right after the parameters that are filled one by one. -/
theorem tailPosition?_eq_some_iff {params : List Param} {position : Nat} :
    tailPosition? params = some position ↔
      hasTail params = true ∧ position = fixedCount params ∧ position + 1 = params.length := by
  have hpos : hasTail params = true → 0 < params.length := by
    intro htail
    cases params with
    | nil => simp [hasTail] at htail
    | cons param rest => simp
  by_cases htail : hasTail params = true
  · have := hpos htail
    simp only [tailPosition?, fixedCount, htail, if_true, Option.some.injEq, Option.getD_some,
      true_and]
    omega
  · simp [tailPosition?, htail]

/-- The parameter at `tailPosition?` is marked as one that gathers. -/
theorem isVariadic_of_tailPosition? {params : List Param} {position : Nat}
    (h : tailPosition? params = some position) (hlt : position < params.length) :
    params[position].isVariadic = true := by
  obtain ⟨htail, _, hlast⟩ := tailPosition?_eq_some_iff.1 h
  have hposition : params.length - 1 = position := by omega
  rw [hasTail, List.getLast?_eq_getElem?, hposition, List.getElem?_eq_getElem hlt] at htail
  exact htail

/-- Without a parameter that gathers, `fixedCount` counts every parameter. -/
theorem fixedCount_of_not_hasTail {params : List Param} (htail : hasTail params = false) :
    fixedCount params = params.length := by
  simp [fixedCount, tailPosition?, htail]

/-- A parameter that gathers is the only one that `fixedCount` does not count. -/
theorem fixedCount_of_hasTail {params : List Param} (htail : hasTail params = true) :
    tailPosition? params = some (fixedCount params) ∧ fixedCount params + 1 = params.length := by
  have hsome : tailPosition? params = some (fixedCount params) := by
    simp [fixedCount, tailPosition?, htail]
  exact ⟨hsome, (tailPosition?_eq_some_iff.1 hsome).2.2⟩

/-- `fixedCount` is at most the number of parameters. -/
theorem fixedCount_le_length (params : List Param) : fixedCount params ≤ params.length := by
  cases htail : hasTail params with
  | false => exact Nat.le_of_eq (fixedCount_of_not_hasTail htail)
  | true =>
    have := (fixedCount_of_hasTail htail).2
    omega

/-- `positionOf?` gives the position of one of the parameters. -/
theorem lt_length_of_positionOf? {params : List Param} {name : String} {position : Nat}
    (h : positionOf? params name = some position) : position < params.length :=
  (List.findIdx?_eq_some_iff_findIdx_eq.1 h).1

/-! ## Steps of the walk -/

/-- What `place` can do: the argument goes to the next parameter, to those that are gathered, or to
the parameter of its name. -/
theorem place_cases {params : List Param} {count index : Nat} {placement after : Placement}
    {arg : Argument} (h : place params count placement (arg, index) = .ok after) :
    (arg.name = none ∧ placement.named = false ∧ placement.filled.length < fixedCount params ∧
        after = placement.fill placement.filled.length index) ∨
      (arg.name = none ∧ placement.named = false ∧
        fixedCount params ≤ placement.filled.length ∧ hasTail params = true ∧
        after = placement.gather index) ∨
      ∃ name position, arg.name = some name ∧ positionOf? params name = some position ∧
        placement.isTaken params position = false ∧
        after = { placement.fill position index with named := true } := by
  unfold place at h
  -- The cases follow the tests in their order; where one fails there is no placement after.
  cases hname : arg.name with
  | none =>
    simp only [hname, placePositional] at h
    cases hnamed : placement.named with
    | true => simp [hnamed] at h
    | false =>
      by_cases hnext : placement.filled.length < fixedCount params
      · simp only [hnamed, hnext, Bool.false_eq_true, if_true, if_false] at h
        exact .inl ⟨rfl, rfl, hnext, (Except.ok.inj h).symm⟩
      · cases htail : hasTail params with
        | false => simp [hnamed, hnext, htail] at h
        | true =>
          simp only [hnamed, hnext, htail, Bool.false_eq_true, if_true, if_false] at h
          exact .inr (.inl ⟨rfl, rfl, Nat.le_of_not_lt hnext, rfl, (Except.ok.inj h).symm⟩)
  | some name =>
    simp only [hname, placeNamed] at h
    cases hposition : positionOf? params name with
    | none => simp [hposition] at h
    | some position =>
      cases htaken : placement.isTaken params position with
      | true => simp [hposition, htaken] at h
      | false =>
        simp only [hposition, htaken, Bool.false_eq_true, if_false] at h
        exact .inr (.inr ⟨name, position, rfl, hposition, htaken, (Except.ok.inj h).symm⟩)

namespace Placement

/-- The arguments placed, those of `filled` before the `gathered` ones. -/
def indices (placement : Placement) : List Nat :=
  placement.filled.map (·.2) ++ placement.gathered

/-- The positions of the parameters `filled`. -/
def positions (placement : Placement) : List Nat := placement.filled.map (·.1)

/-- `Placement.fill` adds the position of the parameter. -/
@[simp]
theorem positions_fill (placement : Placement) (position index : Nat) :
    (placement.fill position index).positions = placement.positions ++ [position] := by
  simp [positions, fill]

/-- What holds of the placement of the first `read` arguments. -/
structure Sound (params : List Param) (read : Nat) (placement : Placement) : Prop where
  /-- Each of the arguments has one place. -/
  complete : placement.indices.Perm (List.range read)
  /-- No parameter is filled twice. -/
  distinct : placement.positions.Nodup
  /-- What is filled are parameters. -/
  bounded : ∀ position ∈ placement.positions, position < params.length
  /-- Until an argument is named, the first parameters are filled. -/
  inOrder : placement.named = false → placement.positions = List.range placement.filled.length ∧
    placement.filled.length ≤ fixedCount params
  /-- Arguments are gathered for a last parameter that has no argument of its own. -/
  gathers : placement.gathered ≠ [] →
    hasTail params = true ∧ fixedCount params ∉ placement.positions

/-- `argument?` is none for a parameter that is not among those filled. -/
theorem argument?_eq_none_iff {placement : Placement} {position : Nat} :
    placement.argument? position = none ↔ position ∉ placement.positions := by
  rw [argument?, List.lookup_eq_none_iff, positions, List.mem_map]
  constructor
  · rintro h ⟨entry, hentry, rfl⟩
    simpa using h entry hentry
  · intro h entry hentry
    have hne : position ≠ entry.1 := fun heq => h ⟨entry, hentry, heq.symm⟩
    simpa using hne

/-- The `argument?` of a parameter is placed. -/
theorem mem_indices_of_argument? {placement : Placement} {position index : Nat}
    (h : placement.argument? position = some index) : index ∈ placement.indices := by
  obtain ⟨before, after, hfilled, _⟩ := List.lookup_eq_some_iff.1 h
  simp [indices, hfilled]

/-- `isTaken` is false of a parameter that is neither filled nor gathers. -/
theorem isTaken_eq_false_iff {placement : Placement} {params : List Param} {position : Nat} :
    placement.isTaken params position = false ↔ position ∉ placement.positions ∧
      (tailPosition? params = some position → placement.gathered = []) := by
  rw [isTaken, Bool.or_eq_false_iff, Option.isSome_eq_false_iff, Option.isNone_iff_eq_none,
    argument?_eq_none_iff, Bool.and_eq_false_imp, beq_iff_eq, Bool.not_eq_false',
    List.isEmpty_iff]

/-- `Placement.empty` is `Sound` before the first argument. -/
theorem sound_empty (params : List Param) : empty.Sound params 0 where
  complete := .refl _
  distinct := List.nodup_nil
  bounded := by simp [empty, positions]
  inOrder := by simp [empty, positions]
  gathers := by simp [empty]

/-- `Placement.fill` places one more argument. -/
theorem indices_fill_perm {placement : Placement} {read : Nat}
    (h : placement.indices.Perm (List.range read)) (position : Nat) :
    (placement.fill position read).indices.Perm (List.range (read + 1)) := by
  rw [List.range_succ, indices, fill, List.map_append, List.append_assoc]
  refine (List.perm_append_comm.append_left _).trans ?_
  rw [← List.append_assoc]
  exact h.append_right [read]

/-- `Placement.gather` places one more argument. -/
theorem indices_gather_perm {placement : Placement} {read : Nat}
    (h : placement.indices.Perm (List.range read)) :
    (placement.gather read).indices.Perm (List.range (read + 1)) := by
  rw [List.range_succ, indices, gather, ← List.append_assoc]
  exact h.append_right [read]

/-- `Placement.fill` at a parameter that is not filled yet keeps the positions distinct. -/
theorem nodup_positions_fill {placement : Placement} (h : placement.positions.Nodup)
    {position : Nat} (hfree : position ∉ placement.positions) (index : Nat) :
    (placement.fill position index).positions.Nodup := by
  rw [positions_fill, ← List.concat_eq_append]
  exact .concat hfree h

/-- A parameter that gathers, at `fixedCount`, does not also get an argument of its own. -/
theorem fixedCount_notMem_positions_fill {params : List Param} {placement : Placement}
    (hout : fixedCount params ∉ placement.positions) {position : Nat}
    (hne : fixedCount params ≠ position) (index : Nat) :
    fixedCount params ∉ (placement.fill position index).positions := by
  rw [positions_fill, List.mem_append, List.mem_singleton, not_or]
  exact ⟨hout, hne⟩

namespace Sound

variable {params : List Param} {read : Nat} {placement : Placement}
  (hsound : placement.Sound params read)

include hsound

/-- `Placement.fill` fills parameters only. -/
theorem bounded_fill {position : Nat} (hlt : position < params.length) :
    ∀ other ∈ (placement.fill position read).positions, other < params.length := by
  rw [positions_fill]
  exact List.forall_mem_append.2 ⟨hsound.bounded, List.forall_mem_singleton.2 hlt⟩

/-- `Sound` after the next parameter is filled. -/
theorem fill_next (hnamed : placement.named = false)
    (hnext : placement.filled.length < fixedCount params) :
    (placement.fill placement.filled.length read).Sound params (read + 1) := by
  -- The next parameter is free, since those filled are the ones before it.
  obtain ⟨horder, _⟩ := hsound.inOrder hnamed
  have hfree : placement.filled.length ∉ placement.positions := by simp [horder]
  have hlength : (placement.fill placement.filled.length read).filled.length =
      placement.filled.length + 1 := by simp [fill]
  refine ⟨indices_fill_perm hsound.complete _, nodup_positions_fill hsound.distinct hfree _,
    hsound.bounded_fill (Nat.lt_of_lt_of_le hnext (fixedCount_le_length params)), fun _ => ?_,
    fun hgathered => ?_⟩
  · rw [positions_fill, horder, hlength, List.range_succ]
    exact ⟨rfl, hnext⟩
  · obtain ⟨htail, hout⟩ := hsound.gathers hgathered
    exact ⟨htail, fixedCount_notMem_positions_fill hout (Nat.ne_of_gt hnext) _⟩

/-- `Sound` after one more argument is gathered, once all parameters before the last one are
filled. -/
theorem gather (hnamed : placement.named = false)
    (hfull : fixedCount params ≤ placement.filled.length) (htail : hasTail params = true) :
    (placement.gather read).Sound params (read + 1) := by
  obtain ⟨horder, _⟩ := hsound.inOrder hnamed
  -- No more than these are filled, so the last one may gather.
  have hout : fixedCount params ∉ placement.positions := by
    rw [horder, List.mem_range]
    omega
  exact ⟨indices_gather_perm hsound.complete, hsound.distinct, hsound.bounded, hsound.inOrder,
    fun _ => ⟨htail, hout⟩⟩

/-- `Sound` after the parameter of a name is filled, if it was free. -/
theorem fill_named {position : Nat} (hlt : position < params.length)
    (hfree : placement.isTaken params position = false) :
    Sound params (read + 1) { placement.fill position read with named := true } := by
  obtain ⟨hout, hgather⟩ := isTaken_eq_false_iff.1 hfree
  refine ⟨indices_fill_perm hsound.complete _, nodup_positions_fill hsound.distinct hout _,
    hsound.bounded_fill hlt, nofun, fun hgathered => ?_⟩
  obtain ⟨htail, htailOut⟩ := hsound.gathers hgathered
  -- The test covers the parameter that gathers, too, if anything is gathered.
  have hne : fixedCount params ≠ position := by
    rintro rfl
    exact hgathered (hgather (fixedCount_of_hasTail htail).1)
  exact ⟨htail, fixedCount_notMem_positions_fill htailOut hne _⟩

/-- `Sound` after `place` places the next argument. -/
theorem place {count : Nat} {after : Placement} {arg : Argument}
    (h : ExtensionMembers.place params count placement (arg, read) = .ok after) :
    after.Sound params (read + 1) := by
  rcases place_cases h with ⟨_, hnamed, hnext, rfl⟩ | ⟨_, hnamed, hfull, htail, rfl⟩ |
    ⟨name, position, _, hposition, hfree, rfl⟩
  · exact hsound.fill_next hnamed hnext
  · exact hsound.gather hnamed hfull htail
  · exact hsound.fill_named (lt_length_of_positionOf? hposition) hfree

end Sound

end Placement

/-- The placement that `placeAll` gives is `Sound`. -/
theorem sound_of_placeAll {params : List Param} {args : List Argument} {placement : Placement}
    (h : placeAll params args = .ok placement) : placement.Sound params args.length := by
  have hwalk := foldlM_zipIdx_invariant (fun read placement => placement.Sound params read)
    (fun _ _ _ _ hsound hplace => hsound.place hplace) (Placement.sound_empty params) h
  rwa [Nat.zero_add] at hwalk

/-! ## What fills the parameters -/

/-- `bind` succeeds if all arguments have a place (`placeAll`) and each parameter is filled
(`slotOf`). -/
theorem bind_eq_ok_iff_forall₂ {params : List Param} {args : List Argument} {span : Span}
    {slots : List BoundSlot} :
    bind params args span = .ok slots ↔ ∃ placement, placeAll params args = .ok placement ∧
      List.Forall₂ (fun param slot => slotOf params placement span param = .ok slot)
        params.zipIdx slots := by
  rw [bind, bind_eq_ok_iff]
  simp only [mapM_eq_ok_iff_forall₂]

/-- What `slotOf` can give: the argument of the parameter, what it gathers, or its default. -/
theorem slotOf_cases {params : List Param} {placement : Placement} {span : Span}
    {param : Param × Nat} {slot : BoundSlot}
    (h : slotOf params placement span param = .ok slot) :
    (∃ index, placement.argument? param.2 = some index ∧ slot = .argument index) ∨
      (placement.argument? param.2 = none ∧ tailPosition? params = some param.2 ∧
        slot = .gathered placement.gathered) ∨
      ∃ value, placement.argument? param.2 = none ∧ tailPosition? params ≠ some param.2 ∧
        param.1.default = some value ∧ slot = .default value := by
  unfold slotOf at h
  cases hargument : placement.argument? param.2 with
  | some index =>
    rw [hargument] at h
    exact .inl ⟨index, rfl, (Except.ok.inj h).symm⟩
  | none =>
    simp only [hargument] at h
    by_cases htail : tailPosition? params = some param.2
    · rw [if_pos htail] at h
      exact .inr (.inl ⟨rfl, htail, (Except.ok.inj h).symm⟩)
    · rw [if_neg htail] at h
      cases hdefault : param.1.default with
      | none => simp [hdefault] at h
      | some value =>
        rw [hdefault] at h
        exact .inr (.inr ⟨value, rfl, htail, rfl, (Except.ok.inj h).symm⟩)

/-- The arguments of a slot that `slotOf` gives are those that the placement has for its
parameter. -/
theorem indices_of_slotOf {params : List Param} {placement : Placement} {read : Nat}
    {span : Span} {param : Param × Nat} {slot : BoundSlot} (hsound : placement.Sound params read)
    (h : slotOf params placement span param = .ok slot) :
    slot.indices = (placement.argument? param.2).toList ++
      if tailPosition? params = some param.2 then placement.gathered else [] := by
  rcases slotOf_cases h with ⟨index, hargument, rfl⟩ | ⟨hargument, htail, rfl⟩ |
    ⟨value, hargument, htail, _, rfl⟩
  · -- A last parameter with an argument of its own has nothing left to gather.
    have hnone : tailPosition? params = some param.2 → placement.gathered = [] := by
      intro htail
      by_contra hgathered
      have hout := (hsound.gathers hgathered).2
      rw [← (tailPosition?_eq_some_iff.1 htail).2.1, ← Placement.argument?_eq_none_iff,
        hargument] at hout
      cases hout
    by_cases htail : tailPosition? params = some param.2
    · simp [BoundSlot.indices, hargument, hnone htail]
    · simp [BoundSlot.indices, hargument, htail]
  · simp [BoundSlot.indices, hargument, htail]
  · simp [BoundSlot.indices, hargument, htail]

/-- Of all parameters the last one alone has `gathered` arguments, if any does. -/
theorem Placement.Sound.flatMap_gathered {params : List Param} {placement : Placement} {read : Nat}
    (h : placement.Sound params read) :
    ((List.range params.length).flatMap fun position =>
      if tailPosition? params = some position then placement.gathered else []) =
      placement.gathered := by
  by_cases hnil : placement.gathered = []
  · simp [hnil]
  · obtain ⟨htail, hlast⟩ := fixedCount_of_hasTail (h.gathers hnil).1
    have hrange : List.range params.length =
        List.range (fixedCount params) ++ [fixedCount params] := by
      rw [← hlast, List.range_succ]
    have hbefore : ((List.range (fixedCount params)).flatMap fun position =>
        if tailPosition? params = some position then placement.gathered else []) = [] := by
      refine List.flatMap_eq_nil_iff.2 fun position hin => ?_
      have hne : fixedCount params ≠ position := Nat.ne_of_gt (List.mem_range.1 hin)
      simp [htail, hne]
    rw [hrange, List.flatMap_append, hbefore]
    simp [htail]

/-- A `Sound` placement has all arguments at the parameters. -/
theorem Placement.Sound.perm_flatMap {params : List Param} {placement : Placement} {read : Nat}
    (h : placement.Sound params read) :
    ((List.range params.length).flatMap fun position =>
      (placement.argument? position).toList ++
        if tailPosition? params = some position then placement.gathered else []).Perm
      (List.range read) := by
  -- What fills a parameter and what is gathered are collected apart.
  have hfilled : ((List.range params.length).flatMap fun position =>
      (placement.argument? position).toList).Perm (placement.filled.map (·.2)) :=
    flatMap_lookup_perm List.nodup_range h.distinct fun position hin =>
      List.mem_range.2 (h.bounded position hin)
  refine (List.flatMap_append_perm _ _ _).symm.trans ?_
  rw [h.flatMap_gathered]
  exact (hfilled.append_right _).trans h.complete

/-- The slots that `bind` gives use each argument of the call once. -/
theorem perm_indices_of_bind {params : List Param} {args : List Argument} {span : Span}
    {slots : List BoundSlot} (h : bind params args span = .ok slots) :
    (slots.flatMap BoundSlot.indices).Perm (List.range args.length) := by
  obtain ⟨placement, hplace, hslots⟩ := bind_eq_ok_iff_forall₂.1 h
  have hsound := sound_of_placeAll hplace
  have hindices : params.zipIdx.map (fun param => (placement.argument? param.2).toList ++
      if tailPosition? params = some param.2 then placement.gathered else []) =
      slots.map BoundSlot.indices := by
    rw [← List.forall₂_eq_eq_eq, List.forall₂_map_left_iff, List.forall₂_map_right_iff]
    exact hslots.imp fun param slot hslot => (indices_of_slotOf hsound hslot).symm
  have hpositions : params.zipIdx.map (·.2) = List.range params.length := by
    rw [List.zipIdx_map_snd, List.range_eq_range']
  have hperm := hsound.perm_flatMap
  rwa [← hpositions, List.flatMap_map, List.flatMap_def, hindices, ← List.flatMap_def] at hperm

/-- `bind` refers to arguments of the call only. -/
theorem lt_length_of_mem_indices {params : List Param} {args : List Argument} {span : Span}
    {slots : List BoundSlot} (h : bind params args span = .ok slots) {slot : BoundSlot}
    (hslot : slot ∈ slots) {index : Nat} (hindex : index ∈ slot.indices) :
    index < args.length :=
  List.mem_range.1 ((perm_indices_of_bind h).subset (List.mem_flatMap.2 ⟨slot, hslot, hindex⟩))

/-- `bind` fills each parameter, and with something that `Fits`. -/
theorem fits_of_bind {params : List Param} {args : List Argument} {span : Span}
    {slots : List BoundSlot} (h : bind params args span = .ok slots) :
    List.Forall₂ (BoundSlot.Fits params args.length) params.zipIdx slots := by
  obtain ⟨placement, hplace, hslots⟩ := bind_eq_ok_iff_forall₂.1 h
  have hcomplete := (sound_of_placeAll hplace).complete
  have hin : ∀ index ∈ placement.indices, index < args.length := fun index hindex =>
    List.mem_range.1 (hcomplete.subset hindex)
  refine hslots.imp fun param slot hslot => ?_
  rcases slotOf_cases hslot with ⟨index, hargument, rfl⟩ | ⟨_, htail, rfl⟩ |
    ⟨value, _, _, hdefault, rfl⟩
  · exact hin index (Placement.mem_indices_of_argument? hargument)
  · exact ⟨htail, fun index hindex => hin index (List.mem_append_right _ hindex)⟩
  · exact hdefault

/-- `bind` gives one slot for each parameter. -/
theorem length_of_bind {params : List Param} {args : List Argument} {span : Span}
    {slots : List BoundSlot} (h : bind params args span = .ok slots) :
    slots.length = params.length := by
  rw [← (fits_of_bind h).length_eq, List.length_zipIdx]

/-! ## Calls without named arguments -/

namespace Placement

/-- The placement of `count` positional arguments: the first parameters have one each, and what
remains is gathered. -/
def positional (params : List Param) (count : Nat) : Placement where
  filled := (List.range (min count (fixedCount params))).map fun index => (index, index)
  gathered := List.range' (fixedCount params) (count - fixedCount params)
  named := false

/-- `positional` has the arguments at the parameters of their own position. -/
theorem argument?_positional (params : List Param) (count position : Nat) :
    (positional params count).argument? position =
      if position < min count (fixedCount params) then some position else none := by
  unfold argument? positional
  induction min count (fixedCount params) with
  | zero => rfl
  | succ filled ih =>
    rw [List.range_succ, List.map_append, List.lookup_append, ih]
    rcases Nat.lt_trichotomy position filled with hlt | rfl | hgt
    · simp [hlt, Nat.lt_succ_of_lt hlt]
    · simp
    · have hne : (position == filled) = false := beq_eq_false_iff_ne.2 (Nat.ne_of_gt hgt)
      simp [hne, Nat.not_lt_of_gt hgt, Nat.not_lt_of_ge hgt]

/-- `placePositional` puts one more positional argument at the next parameter, or gathers it. -/
theorem placePositional_positional {params : List Param} {total read : Nat} (span : Span)
    (hroom : hasTail params = true ∨ read < params.length) :
    placePositional params total (positional params read) read span =
      .ok (positional params (read + 1)) := by
  have hlength : (positional params read).filled.length = min read (fixedCount params) := by
    simp [positional]
  unfold placePositional
  rw [if_neg (by simp [positional]), hlength]
  by_cases hnext : read < fixedCount params
  · have hbefore : min read (fixedCount params) = read := by omega
    have hafter : min (read + 1) (fixedCount params) = read + 1 := by omega
    have hnothing : read + 1 - fixedCount params = read - fixedCount params := by omega
    rw [if_pos (by omega)]
    simp [positional, fill, hbefore, hafter, hnothing, List.range_succ]
  · -- The fixed parameters are full, so there is room only if the last one gathers.
    have htail : hasTail params = true := by
      by_contra hnot
      have hfixed := fixedCount_of_not_hasTail (Bool.not_eq_true _ ▸ hnot)
      exact hnext (hfixed ▸ hroom.resolve_left hnot)
    have hbefore : min read (fixedCount params) = fixedCount params := by omega
    have hafter : min (read + 1) (fixedCount params) = fixedCount params := by omega
    have hmore : read + 1 - fixedCount params = read - fixedCount params + 1 := by omega
    have hread : fixedCount params + (read - fixedCount params) = read := by omega
    rw [if_neg (by omega), if_pos htail]
    simp [positional, gather, hbefore, hafter, hmore, List.range'_concat, hread]

end Placement

/-- `place` goes on with positional arguments from any number of them as long as there is room. -/
theorem foldlM_place_positional {params : List Param} {total read : Nat} {rest : List Argument}
    (hrest : ∀ arg ∈ rest, arg.name = none)
    (hroom : hasTail params = true ∨ read + rest.length ≤ params.length) :
    (rest.zipIdx read).foldlM (place params total) (.positional params read) =
      .ok (.positional params (read + rest.length)) := by
  induction rest generalizing read with
  | nil => rfl
  | cons arg rest ih =>
    rw [List.length_cons] at hroom ⊢
    have hplace : place params total (.positional params read) (arg, read) =
        .ok (.positional params (read + 1)) := by
      simp only [place, hrest arg (by simp)]
      exact Placement.placePositional_positional arg.span (hroom.imp_right (by omega))
    rw [List.zipIdx_cons, List.foldlM_cons, hplace]
    refine (ih (fun other hother => hrest other (by simp [hother]))
      (hroom.imp_right (by omega))).trans ?_
    rw [Nat.add_assoc, Nat.add_comm 1]

/-- `placeAll` succeeds on positional arguments as long as there are parameters, or one that
gathers. -/
theorem placeAll_positional {params : List Param} {args : List Argument}
    (hargs : ∀ arg ∈ args, arg.name = none)
    (hroom : hasTail params = true ∨ args.length ≤ params.length) :
    placeAll params args = .ok (.positional params args.length) := by
  have hstart : Placement.positional params 0 = .empty := by
    simp [Placement.positional, Placement.empty]
  have hwalk : args.zipIdx.foldlM (place params args.length) (.positional params 0) =
      .ok (.positional params (0 + args.length)) :=
    foldlM_place_positional hargs (by rwa [Nat.zero_add])
  rwa [hstart, Nat.zero_add] at hwalk

/-- `bind` gives positional arguments, one for each parameter, in order. -/
theorem bind_positional {params : List Param} {args : List Argument} (span : Span)
    (hargs : ∀ arg ∈ args, arg.name = none) (htail : hasTail params = false)
    (hcount : args.length = params.length) :
    bind params args span = .ok ((List.range params.length).map .argument) := by
  refine bind_eq_ok_iff_forall₂.2
    ⟨_, placeAll_positional hargs (.inr (Nat.le_of_eq hcount)), ?_⟩
  refine List.forall₂_iff_get.2 ⟨by simp, fun position hparam hslot => ?_⟩
  have hlt : position < min args.length (fixedCount params) := by
    rw [fixedCount_of_not_hasTail htail, hcount, Nat.min_self]
    simpa using hslot
  simp [slotOf, Placement.argument?_positional, hlt]

/-- `bind` gives a last parameter that gathers no positional argument of its own. -/
theorem exists_gathered_of_bind {params : List Param} {args : List Argument} {span : Span}
    {slots : List BoundSlot} (hargs : ∀ arg ∈ args, arg.name = none)
    (htail : hasTail params = true) (h : bind params args span = .ok slots) :
    ∃ indices, slots[fixedCount params]? = some (.gathered indices) := by
  obtain ⟨placement, hplace, hslots⟩ := bind_eq_ok_iff_forall₂.1 h
  rw [placeAll_positional hargs (.inl htail)] at hplace
  obtain rfl := Except.ok.inj hplace
  obtain ⟨hposition, hlast⟩ := fixedCount_of_hasTail htail
  obtain ⟨hlength, hslot⟩ := List.forall₂_iff_get.1 hslots
  have hlt : fixedCount params < params.zipIdx.length := by
    rw [List.length_zipIdx]
    omega
  have hfilled := hslot (fixedCount params) hlt (hlength ▸ hlt)
  simp only [List.get_eq_getElem, List.getElem_zipIdx, Nat.zero_add] at hfilled
  rcases slotOf_cases hfilled with ⟨index, hargument, _⟩ | ⟨_, _, hgathered⟩ | ⟨_, _, hne, _⟩
  · rw [Placement.argument?_positional, if_neg (by omega)] at hargument
    cases hargument
  · exact ⟨_, List.getElem?_eq_some_iff.2 ⟨_, hgathered⟩⟩
  · exact absurd hposition hne

end ExtensionMembers
