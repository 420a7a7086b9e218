import ExtensionMembers.Proofs.Call.Evaluation

/-!
# Signatures of lowered calls

The entry point of a member of an extension and the operands of a call to it are made apart from
each other. They agree all the same: the receiver of an instance member comes first, then one
operand for each declared parameter, then the assigned value where an indexer is assigned.

## Main definitions

* `CallTarget.HasSignature`: the receiver-explicit signature of a member.
* `LoweredAccess.HoldsAt`: a temporary of a lowered use, with what it holds.
* `LoweredAccess.Passes`: the operand of a parameter is the one that its slot calls for.
* `LoweredAccess.PassesAll`: the operands of a call, from the receiver to the assigned value.

## Main results

* `Registry.lowerSite_matches_signature`: a call has one operand for each parameter of its entry
  point, and it is the right one.
-/

namespace ExtensionMembers

/-! ## What temporaries hold -/

/-- The temporary at a position of `prelude` holds the value evaluated there. -/
theorem getElem?_prelude (sources : List TempSource) (position : Nat) :
    (prelude sources)[position]? = sources[position]?.map fun source => ⟨⟨position⟩, source⟩ := by
  simp [prelude, Function.comp_def]

/-- The temporary with this number is part of the prelude and holds `source`. -/
def LoweredAccess.HoldsAt (lowered : LoweredAccess) (id : TempId) (source : TempSource) : Prop :=
  lowered.prelude[id.index]? = some ⟨id, source⟩

/-- The temporary holds the argument at position `index` of the use: it is the one that comes as
many places after the receiver. -/
def LoweredAccess.HoldsArgument (lowered : LoweredAccess) (site : AccessSite) (index : Nat)
    (id : TempId) : Prop :=
  id.index = site.firstArgument + index ∧
    ∃ arg, site.shape.args[index]? = some arg ∧ lowered.HoldsAt id (.argument arg.value)

/-- The operand is what a `BoundSlot` calls for: the temporary of the argument, the default that the
parameter declares, or the temporaries of the gathered arguments. -/
def LoweredAccess.Passes (lowered : LoweredAccess) (site : AccessSite) (param : Param) :
    BoundSlot → Operand → Prop
  | .argument index, operand => ∃ id, operand = .temp id ∧ lowered.HoldsArgument site index id
  | .default value, operand => param.default = some value ∧ operand = .default value
  | .gathered indices, operand => param.isVariadic = true ∧
      ∃ ids, operand = .sequence ids ∧ List.Forall₂ (lowered.HoldsArgument site) indices ids

/-- The operands `args` of a call: the receiver of an instance member, the operands of the
parameters with these `slots`, and the value that an indexer is assigned. -/
structure LoweredAccess.PassesAll (lowered : LoweredAccess) (site : AccessSite) (member : Member)
    (slots : List BoundSlot) (args : List Operand) : Prop where
  /-- There is one slot for each parameter. -/
  slots_length : slots.length = member.params.length
  /-- The operands are those of the receiver, of the parameters and of the assigned value. -/
  parts : ∃ receiver passed assigned, args = receiver ++ passed ++ assigned ∧
    (if member.isStatic then receiver = []
      else ∃ id value, site.access.receiver? = some value ∧ receiver = [.temp id] ∧
        lowered.HoldsAt id (.receiver value)) ∧
    List.Forall₂ (fun filled operand => lowered.Passes site filled.1 filled.2 operand)
      (member.params.zip slots) passed ∧
    (if site.shape.kind = .indexSet then
        ∃ id value, site.shape.assigned? = some value ∧ assigned = [.temp id] ∧
          lowered.HoldsAt id (.assigned value)
      else assigned = [])

/-- The signature of the entry point of `member`: its own parameters, after the extended type if it
is an instance member, and before the type of the assigned value if an indexer is assigned; such an
assignment returns nothing. -/
structure CallTarget.HasSignature (target : CallTarget) (extension : Extension) (member : Member)
    (kind : AccessKind) : Prop where
  owner : target.owner = extension.hash
  params : target.params = (if member.isStatic then [] else [extension.extended.getD .void]) ++
    member.params.map (·.type) ++ if kind = .indexSet then [member.result] else []
  result : target.result = if kind = .indexSet then .void else member.result

/-- The kinds of use for which `Member.operands` binds arguments to the parameters of a member. -/
def AccessKind.BindsArguments (kind : AccessKind) : Prop :=
  kind = .invoke ∨ kind = .indexGet ∨ kind = .indexSet

/-- Among the uses that bind arguments (`BindsArguments`), only the assignment of an indexer
assigns. -/
theorem AccessKind.accessor?_eq_set_iff {kind : AccessKind} (h : kind.BindsArguments) :
    kind.accessor? = some .set ↔ kind = .indexSet := by
  rcases h with rfl | rfl | rfl <;> simp [AccessKind.accessor?]

/-- The assignment of an indexer, `AccessKind.indexSet`, assigns a value. -/
theorem AccessShape.exists_assigned {shape : AccessShape} (h : shape.kind = .indexSet) :
    ∃ value, shape.assigned? = some value := by
  cases shape with
  | indexSet args value => exact ⟨value, rfl⟩
  | _ => cases h

/-- The other uses with `BindsArguments` assign nothing. -/
theorem AccessShape.assigned?_eq_none {shape : AccessShape} (h : shape.kind.BindsArguments)
    (hset : shape.kind ≠ .indexSet) : shape.assigned? = none := by
  cases shape with
  | indexSet args value => exact absurd rfl hset
  | set value => rcases h with h | h | h <;> cases h
  | _ => rfl

/-- `CallTarget.ofMember` has the signature of the member (`HasSignature`). -/
theorem CallTarget.hasSignature_ofMember (extension : Extension) (member : Member)
    {kind : AccessKind} (h : kind.BindsArguments) :
    (ofMember extension member kind).HasSignature extension member kind := by
  refine ⟨rfl, ?_, ?_⟩ <;> simp [ofMember, AccessKind.accessor?_eq_set_iff h]

/-! ## Where the values of a use are -/

namespace AccessSite

variable {site : AccessSite}

/-- The receiver comes first among the `sources`. -/
theorem sources_receiver {value : ExprId} (h : site.access.receiver? = some value) :
    site.sources[0]? = some (.receiver value) := by
  simp [sources, h]

/-- The arguments come after the receiver among the `sources`. -/
theorem sources_argument {index : Nat} {arg : Argument} (h : site.shape.args[index]? = some arg) :
    site.sources[site.firstArgument + index]? = some (.argument arg.value) := by
  have hlt : index < site.shape.args.length := (List.getElem?_eq_some_iff.1 h).1
  rw [sources, List.append_assoc, ← length_receiver site,
    List.getElem?_append_right (Nat.le_add_right _ _), Nat.add_sub_cancel_left,
    List.getElem?_append_left (by simpa [argumentSources] using hlt)]
  simp [argumentSources, h]

/-- The assigned value comes last among the `sources`. -/
theorem sources_assigned {value : ExprId} (h : site.shape.assigned? = some value) :
    site.sources[site.firstArgument + site.shape.args.length]? = some (.assigned value) := by
  have hlength : ((site.access.receiver?.map TempSource.receiver).toList ++
      argumentSources site.shape.args).length =
      site.firstArgument + site.shape.args.length := by
    rw [List.length_append, length_receiver, argumentSources, List.length_map]
  rw [sources, ← hlength, List.getElem?_append_right (Nat.le_refl _), Nat.sub_self, h]
  rfl

end AccessSite

section Lowered

variable {lowered : LoweredAccess} {site : AccessSite}
  (hprelude : lowered.prelude = ExtensionMembers.prelude site.sources)

include hprelude

/-- `HoldsAt` of a temporary of a use: it holds what the use evaluates at its place. -/
theorem LoweredAccess.holdsAt_iff {id : TempId} {source : TempSource} :
    lowered.HoldsAt id source ↔ site.sources[id.index]? = some source := by
  rw [HoldsAt, hprelude, getElem?_prelude, Option.map_eq_some_iff]
  constructor
  · rintro ⟨found, hfound, heq⟩
    rwa [← (Temp.mk.inj heq).2]
  · intro hsource
    exact ⟨source, hsource, rfl⟩

/-- The temporaries of the arguments are numbered from `firstArgument` on. -/
theorem LoweredAccess.holdsArgument_of_lt {index : Nat} (h : index < site.shape.args.length) :
    lowered.HoldsArgument site index ⟨site.firstArgument + index⟩ := by
  have harg : site.shape.args[index]? = some site.shape.args[index] := List.getElem?_eq_getElem h
  exact ⟨rfl, _, harg, (holdsAt_iff hprelude).2 (AccessSite.sources_argument harg)⟩

/-- `BoundSlot.operand` of a slot that `Fits` its parameter is what the slot calls for
(`Passes`). -/
theorem LoweredAccess.passes_operand {params : List Param} {position : Nat} {slot : BoundSlot}
    (hlt : position < params.length)
    (hfits : slot.Fits params site.shape.args.length (params[position], position)) :
    lowered.Passes site params[position] slot (slot.operand site.firstArgument) := by
  cases slot with
  | argument index => exact ⟨_, rfl, holdsArgument_of_lt hprelude hfits⟩
  | default value => exact ⟨hfits, rfl⟩
  | gathered indices =>
    obtain ⟨htail, hindices⟩ := hfits
    refine ⟨isVariadic_of_tailPosition? htail hlt, _, rfl, ?_⟩
    rw [List.forall₂_map_right_iff, List.forall₂_same]
    exact fun index hindex => holdsArgument_of_lt hprelude (hindices index hindex)

/-- The operands of a call on which `bind` succeeds are those that the slots call for
(`PassesAll`). -/
theorem LoweredAccess.passesAll_of_bind {member : Member} {slots : List BoundSlot}
    (hkind : site.shape.kind.BindsArguments) (hstatic : member.isStatic = site.access.isStatic)
    (hslots : bind member.params site.shape.args site.span = .ok slots) :
    lowered.PassesAll site member slots
      ((if member.isStatic then none else site.receiverOperand?).toList ++
        (slots.map (·.operand site.firstArgument) ++ site.assignedOperand?.toList)) := by
  refine ⟨length_of_bind hslots, _, _, _, (List.append_assoc _ _ _).symm, ?_, ?_, ?_⟩
  · -- An instance member is found only through a value, which is evaluated first.
    rw [hstatic]
    cases haccess : site.access with
    | onType qualifier => rfl
    | onValue value type =>
      refine ⟨⟨0⟩, value, rfl, by simp [AccessSite.receiverOperand?, haccess, Access.isStatic], ?_⟩
      exact (holdsAt_iff hprelude).2 (AccessSite.sources_receiver (by rw [haccess]; rfl))
  · -- Each slot fits the parameter at its position, so its operand is what that calls for.
    obtain ⟨hlength, hfits⟩ := List.forall₂_iff_get.1 (fits_of_bind hslots)
    rw [List.length_zipIdx] at hlength
    refine List.forall₂_iff_get.2 ⟨by simp [hlength], fun position hpair hslot => ?_⟩
    have hparam : position < member.params.length := by
      rw [List.length_zip] at hpair
      omega
    have hfit := hfits position (by simpa using hparam) (by simpa using hslot)
    simp only [List.get_eq_getElem, List.getElem_zipIdx, Nat.zero_add] at hfit
    simp only [List.get_eq_getElem, List.getElem_zip, List.getElem_map]
    exact passes_operand hprelude hparam hfit
  · -- Of the uses that bind arguments, the assignment of an indexer alone has a value to assign.
    by_cases hset : site.shape.kind = .indexSet
    · obtain ⟨value, hassigned⟩ := AccessShape.exists_assigned hset
      rw [if_pos hset]
      refine ⟨_, value, hassigned, by rw [AccessSite.assignedOperand?, hassigned]; rfl, ?_⟩
      exact (holdsAt_iff hprelude).2 (AccessSite.sources_assigned hassigned)
    · rw [if_neg hset, AccessSite.assignedOperand?, AccessShape.assigned?_eq_none hkind hset]
      rfl

end Lowered

/-! ## Operands and parameters -/

/-- Under `PassesAll` there is one operand for the receiver of an instance member, one for each
parameter, and one for a value that is assigned. -/
theorem LoweredAccess.PassesAll.length_eq {lowered : LoweredAccess} {site : AccessSite}
    {member : Member} {slots : List BoundSlot} {args : List Operand}
    (h : lowered.PassesAll site member slots args) :
    args.length = (if member.isStatic then 0 else 1) + member.params.length +
      if site.shape.kind = .indexSet then 1 else 0 := by
  obtain ⟨receiver, passed, assigned, hargs, hreceiver, hpassed, hassigned⟩ := h.parts
  have hcount : passed.length = member.params.length := by
    rw [← hpassed.length_eq, List.length_zip, h.slots_length, Nat.min_self]
  have hfirst : receiver.length = if member.isStatic then 0 else 1 := by
    by_cases hstatic : member.isStatic = true
    · rw [if_pos hstatic] at hreceiver ⊢
      rw [hreceiver, List.length_nil]
    · rw [if_neg hstatic] at hreceiver ⊢
      obtain ⟨_, _, _, hreceiver, _⟩ := hreceiver
      rw [hreceiver, List.length_singleton]
  have hlast : assigned.length = if site.shape.kind = .indexSet then 1 else 0 := by
    by_cases hset : site.shape.kind = .indexSet
    · rw [if_pos hset] at hassigned ⊢
      obtain ⟨_, _, _, hassigned, _⟩ := hassigned
      rw [hassigned, List.length_singleton]
    · rw [if_neg hset] at hassigned ⊢
      rw [hassigned, List.length_nil]
  rw [hargs, List.length_append, List.length_append, hfirst, hcount, hlast]

/-- `HasSignature` gives the entry point as many parameters. -/
theorem CallTarget.HasSignature.length_params {target : CallTarget} {extension : Extension}
    {member : Member} {kind : AccessKind} (h : target.HasSignature extension member kind) :
    target.params.length = (if member.isStatic then 0 else 1) + member.params.length +
      if kind = .indexSet then 1 else 0 := by
  rw [h.params, List.length_append, List.length_append, List.length_map]
  congr 1
  · congr 1
    split <;> rfl
  · split <;> rfl

/-- `Member.operands` of a method or an indexer is made of the slots that `bind` gives. -/
theorem Member.exists_slots_of_operands {member : Member} {site : AccessSite}
    {operands : List Operand} (hkind : site.shape.kind.BindsArguments)
    (hcategory : member.category = site.shape.category)
    (h : member.operands site = .ok operands) :
    ∃ slots, bind member.params site.shape.args site.span = .ok slots ∧
      operands = slots.map (·.operand site.firstArgument) := by
  -- Neither of the two cases without binding applies.
  have hbinds : ¬ (site.shape.kind = .methodGroup || member.category = .property) = true := by
    rw [hcategory]
    cases hshape : site.shape <;>
      simp_all [AccessKind.BindsArguments, AccessShape.kind, AccessShape.category]
  rw [Member.operands, if_neg hbinds] at h
  obtain ⟨slots, hslots, hoperands⟩ := bind_eq_ok_iff.1 h
  exact ⟨slots, hslots, (Except.ok.inj hoperands).symm⟩

namespace Registry

/-- A call, or a use of an indexer, that `lowerSite` lowers to a member of an extension, calls the
entry point of that member (`HasSignature`), with one operand for each of its parameters: the
receiver of an instance member, then what `bind` has for each declared parameter, then the assigned
value (`PassesAll`). -/
theorem lowerSite_matches_signature {registry : Registry} {site : AccessSite}
    {extension : Extension} {member : Member} (hkind : site.shape.kind.BindsArguments)
    (hsupplied : registry.resolve (.ofSite site) (registry.chain site.scope) =
      .supplied extension member)
    (hform : (registry.lowerSite site).1.form ≠ .error) :
    ∃ target args slots,
      (∀ entry, member.foreign = some entry →
        (registry.lowerSite site).1.form = .foreign target entry args) ∧
      (member.foreign = none → (registry.lowerSite site).1.form = .static target args) ∧
      target.HasSignature extension member site.shape.kind ∧
      bind member.params site.shape.args site.span = .ok slots ∧
      (registry.lowerSite site).1.PassesAll site member slots args ∧
      args.length = target.params.length := by
  obtain ⟨found, operands, hfound, _, hoperands, hlowered⟩ :=
    formOf_eq_ok_iff.1 (formOf_of_lowerAccess hform)
  rw [hsupplied] at hfound
  obtain rfl := Option.some.inj hfound
  obtain ⟨_, hcategory, hstatic⟩ := wants_of_resolve_supplied hsupplied
  obtain ⟨slots, hslots, rfl⟩ := Member.exists_slots_of_operands hkind hcategory hoperands
  have hprelude : (registry.lowerSite site).1.prelude = prelude site.sources :=
    prelude_lowerAccess registry site _
  have hpasses := LoweredAccess.passesAll_of_bind hprelude hkind hstatic hslots
  have hsignature := CallTarget.hasSignature_ofMember extension member hkind
  have hdelegate : site.shape.kind ≠ .methodGroup := by
    rcases hkind with hkind | hkind | hkind <;> simp [hkind]
  have hcall := hlowered.trans (congrArg (CallForm.ofResolution _ _ _) hsupplied)
  rw [CallForm.ofResolution, CallForm.ofSupplied, if_neg hdelegate] at hcall
  refine ⟨_, _, slots, fun entry hforeign => ?_, fun hforeign => ?_, hsignature, hslots, hpasses,
    hpasses.length_eq.trans hsignature.length_params.symm⟩
  · rw [hforeign] at hcall
    exact hcall
  · rw [hforeign] at hcall
    exact hcall

/-- `cellAssignment` with two tags. -/
def taggedAssignment : AccessSite :=
  { cellAssignment with shape := .indexSet ((List.range 5).map fun index =>
      ⟨none, ⟨20 + index⟩, .unplaced⟩) ⟨30⟩ }

/-- In `taggedAssignment` the entry point has a parameter for the sheet and one for the value,
around the four declared parameters, of which the last takes both tags. -/
theorem lowerSite_matches_signature_tagged :
    let registry := (assemble [layeredSheet] .standard).registry
    let extension := registry.extensions.headD default
    let member := extension.members.headD default
    let lowered := (registry.lowerSite taggedAssignment).1
    (taggedAssignment.shape.kind.BindsArguments ∧
      registry.resolve (.ofSite taggedAssignment) (registry.chain taggedAssignment.scope) =
        .supplied extension member ∧
      lowered.form ≠ .error) ∧
    bind member.params taggedAssignment.shape.args taggedAssignment.span =
      .ok [.argument 0, .argument 1, .argument 2, .gathered [3, 4]] ∧
    ∃ target args slots,
      (∀ entry, member.foreign = some entry → lowered.form = .foreign target entry args) ∧
      (member.foreign = none → lowered.form = .static target args) ∧
      target.HasSignature extension member taggedAssignment.shape.kind ∧
      bind member.params taggedAssignment.shape.args taggedAssignment.span = .ok slots ∧
      lowered.PassesAll taggedAssignment member slots args ∧
      args.length = target.params.length := by
  intro registry extension member lowered
  have hkind : taggedAssignment.shape.kind.BindsArguments := .inr (.inr rfl)
  have hsupplied : registry.resolve (.ofSite taggedAssignment)
      (registry.chain taggedAssignment.scope) = .supplied extension member := by decide +kernel
  have hform : lowered.form ≠ .error := by decide +kernel
  exact ⟨⟨hkind, hsupplied, hform⟩, by decide +kernel,
    lowerSite_matches_signature hkind hsupplied hform⟩

end Registry

end ExtensionMembers
