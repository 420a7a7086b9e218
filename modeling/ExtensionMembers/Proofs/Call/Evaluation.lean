import ExtensionMembers.Build.Assembly
import ExtensionMembers.Call.Lowering
import ExtensionMembers.Proofs.Call.Placement
import ExtensionMembers.Proofs.Lookup.Priority

/-!
# Evaluation of a use

The prelude of a use evaluates its receiver, its arguments and the assigned value, in the order
written. A use that succeeds refers to each of these temporaries once: binding permutes the
arguments but neither drops nor repeats one, members used without binding have no arguments, and
a receiver is passed on exactly where there is one.

## Main definitions

* `Operand.temps`, `CallForm.operands`, `CallForm.temps`: the temporaries that a call refers to.

## Main results

* `Registry.lowerSite_evaluates_once`: what is evaluated, and that each value is used once.
* `Registry.formOf_eq_ok_iff`: how the form of a use that succeeds is made.
* `perm_temps_of_operands`: the operands for the parameters use each argument once.
-/

namespace ExtensionMembers

/-- The temporaries that an `Operand` refers to. -/
def Operand.temps : Operand → List TempId
  | temp id => [id]
  | sequence ids => ids
  | default _ | slot _ => []

namespace CallForm

/-- The operands of a `CallForm`, the receiver first. -/
def operands : CallForm → List Operand
  | declared _ _ _ receiver args => receiver.toList ++ args
  | static _ args | foreign _ _ args => args
  | delegate _ receiver => receiver.toList
  | error => []

/-- The temporaries that a `CallForm` refers to, in the order of its `operands`. -/
def temps (form : CallForm) : List TempId := form.operands.flatMap Operand.temps

/-- The `temps` of `CallForm.ofResolution` are those of its receiver and of its arguments, if a
delegate takes no arguments and a static member has no receiver. -/
theorem temps_ofResolution {resolution : Resolution} {member : Member} {kind : AccessKind}
    {receiver : Option Operand} {args : List Operand} (hfound : resolution.member? = some member)
    (hdelegate : kind = .methodGroup → args = [])
    (hstatic : ∀ extension, resolution = .supplied extension member → member.isStatic = true →
      receiver = none) :
    (ofResolution kind receiver args resolution).temps =
      receiver.toList.flatMap Operand.temps ++ args.flatMap Operand.temps := by
  rcases Resolution.cases_of_member? hfound with ⟨owner, rfl⟩ | ⟨extension, rfl⟩
  · simp [ofResolution, temps, operands]
  · -- A static member has no receiver to leave out.
    have hreceiver : (if member.isStatic then none else receiver) = receiver := by
      split
      next h => exact (hstatic extension rfl h).symm
      next => rfl
    simp only [ofResolution, ofSupplied, hreceiver]
    by_cases hkind : kind = .methodGroup
    · simp [hkind, hdelegate hkind, temps, operands]
    · cases hforeign : member.foreign <;> simp [hkind, temps, operands]

end CallForm

/-! ## The temporaries of a use -/

/-- Except for a delegate, `AccessShape.arity` is the number of arguments. -/
theorem AccessShape.arity_eq {shape : AccessShape} (h : shape.kind ≠ .methodGroup) :
    shape.arity = some shape.args.length := by
  cases shape <;> simp_all [AccessShape.arity, AccessShape.args, AccessShape.kind]

/-- A delegate, `AccessKind.methodGroup`, is made without arguments. -/
theorem AccessShape.args_eq_nil {shape : AccessShape} (h : shape.kind = .methodGroup) :
    shape.args = [] ∧ shape.assigned? = none := by
  cases shape <;> simp_all [AccessShape.args, AccessShape.assigned?, AccessShape.kind]

/-- `prelude` numbers the temporaries as the values come. -/
theorem ids_prelude (sources : List TempSource) :
    (prelude sources).map (·.id) = (List.range sources.length).map TempId.mk := by
  rw [← map_id_prelude, List.map_map]
  rfl

namespace AccessSite

/-- `firstArgument` counts the receiver, if there is one: the arguments come after it. -/
theorem length_receiver (site : AccessSite) :
    (site.access.receiver?.map TempSource.receiver).toList.length = site.firstArgument := by
  unfold firstArgument
  cases site.access <;> rfl

/-- The `sources` of a use are its receiver, its arguments and the assigned value. -/
theorem length_sources (site : AccessSite) :
    site.sources.length =
      site.firstArgument + site.shape.args.length + site.shape.assigned?.toList.length := by
  rw [sources, List.length_append, List.length_append, length_receiver, argumentSources,
    List.length_map, Option.toList_map, List.length_map]

/-- The temporaries of the receiver, the arguments and the assigned value are all that `prelude`
has. -/
theorem ids_prelude_sources (site : AccessSite) :
    (prelude site.sources).map (·.id) =
      site.receiverOperand?.toList.flatMap Operand.temps ++
        ((List.range site.shape.args.length).map fun index => ⟨site.firstArgument + index⟩) ++
        site.assignedOperand?.toList.flatMap Operand.temps := by
  rw [ids_prelude, length_sources, List.range_add, List.range_add]
  simp only [List.map_append, List.map_map]
  congr 1
  · congr 1
    unfold firstArgument receiverOperand?
    cases site.access.isStatic <;> rfl
  · unfold assignedOperand?
    cases site.shape.assigned? <;> simp [Operand.temps]

end AccessSite

/-! ## Lowered uses -/

/-- `BoundSlot.operand` refers to the temporaries of the arguments of the slot. -/
theorem temps_operand (first : Nat) (slot : BoundSlot) :
    (slot.operand first).temps = slot.indices.map fun index => ⟨first + index⟩ := by
  cases slot <;> rfl

/-- The operands for the slots that `bind` makes use each argument once. -/
theorem perm_temps_of_bind {params : List Param} {args : List Argument} {span : Span}
    {slots : List BoundSlot} (h : bind params args span = .ok slots) (first : Nat) :
    ((slots.map (·.operand first)).flatMap Operand.temps).Perm
      ((List.range args.length).map fun index => ⟨first + index⟩) := by
  rw [List.flatMap_map]
  simp only [temps_operand]
  rw [← List.map_flatMap]
  exact (perm_indices_of_bind h).map _

/-- `Member.operands` uses each argument once, if the member has the arity looked up. -/
theorem perm_temps_of_operands {member : Member} {site : AccessSite} {operands : List Operand}
    (harity : ∀ count, site.shape.arity = some count → member.acceptsArity count = true)
    (h : member.operands site = .ok operands) :
    (operands.flatMap Operand.temps).Perm
      ((List.range site.shape.args.length).map fun index => ⟨site.firstArgument + index⟩) := by
  unfold Member.operands at h
  split at h
  next hunbound =>
    -- Neither a delegate nor a property takes arguments, so none is lost.
    have hargs : site.shape.args = [] := by
      by_cases hkind : site.shape.kind = .methodGroup
      · exact (AccessShape.args_eq_nil hkind).1
      · have hproperty : member.category = .property := by simpa [hkind] using hunbound
        have hcount := harity _ (AccessShape.arity_eq hkind)
        simpa [Member.acceptsArity, hproperty] using hcount
    obtain rfl := Except.ok.inj h
    simp [hargs]
  next =>
    obtain ⟨slots, hslots, hoperands⟩ := bind_eq_ok_iff.1 h
    obtain rfl := Except.ok.inj hoperands
    exact perm_temps_of_bind hslots site.firstArgument

namespace Registry

/-- `formOf` succeeds if one member is found, has the accessor needed and takes the arguments. -/
theorem formOf_eq_ok_iff {registry : Registry} {site : AccessSite} {resolution : Resolution}
    {form : CallForm} :
    registry.formOf site resolution = .ok form ↔ ∃ member operands,
      resolution.member? = some member ∧ member.missingAccessor? site.shape.kind = none ∧
        member.operands site = .ok operands ∧
        form = .ofResolution site.shape.kind site.receiverOperand?
          (operands ++ site.assignedOperand?.toList) resolution := by
  unfold formOf
  cases resolution.member? with
  | none => simp
  | some member =>
    cases haccessor : member.missingAccessor? site.shape.kind with
    | some accessor => simp [haccessor]
    | none =>
      cases hoperands : member.operands site with
      | error fault => simp [haccessor, hoperands]
      | ok operands => simp [haccessor, hoperands, eq_comm]

/-- The form that `lowerAccess` gives, unless it is `CallForm.error`, is that of `formOf`. -/
theorem formOf_of_lowerAccess {registry : Registry} {site : AccessSite} {resolution : Resolution}
    (h : (registry.lowerAccess site resolution).1.form ≠ .error) :
    registry.formOf site resolution = .ok (registry.lowerAccess site resolution).1.form := by
  unfold lowerAccess at h ⊢
  cases hform : registry.formOf site resolution with
  | error fault => simp [hform] at h
  | ok form => simp

/-- `lowerAccess` makes the same prelude whether or not the use fails. -/
theorem prelude_lowerAccess (registry : Registry) (site : AccessSite) (resolution : Resolution) :
    (registry.lowerAccess site resolution).1.prelude = prelude site.sources := by
  unfold lowerAccess
  cases registry.formOf site resolution <;> rfl

/-- The form that `formOf` gives refers to the temporaries of the prelude, each once. -/
theorem perm_temps_of_formOf {registry : Registry} {site : AccessSite} {chain : ScopeChain}
    {form : CallForm}
    (h : registry.formOf site (registry.resolve (.ofSite site) chain) = .ok form) :
    form.temps.Perm ((prelude site.sources).map (·.id)) := by
  obtain ⟨member, operands, hfound, _, hoperands, rfl⟩ := formOf_eq_ok_iff.1 h
  have hnames := names_of_resolve hfound
  -- A delegate would drop operands, but there are none where one is made.
  have hdelegate : site.shape.kind = .methodGroup →
      operands ++ site.assignedOperand?.toList = [] := by
    intro hkind
    have hassigned : site.assignedOperand? = none := by
      simp [AccessSite.assignedOperand?, (AccessShape.args_eq_nil hkind).2]
    simp only [Member.operands, hkind, decide_true, Bool.true_or, if_true] at hoperands
    rw [← Except.ok.inj hoperands, hassigned]
    rfl
  -- A static member would drop the receiver, but it is found only where there is none.
  have hstatic : ∀ extension,
      registry.resolve (.ofSite site) chain = .supplied extension member →
        member.isStatic = true → site.receiverOperand? = none := by
    intro extension hsupplied hmember
    have hwanted := (wants_of_resolve_supplied hsupplied).2.2
    rw [hmember] at hwanted
    exact if_pos hwanted.symm
  rw [CallForm.temps_ofResolution hfound hdelegate hstatic, List.flatMap_append,
    AccessSite.ids_prelude_sources, List.append_assoc]
  exact ((perm_temps_of_operands hnames.2 hoperands).append_right _).append_left _

/-- `lowerSite` evaluates the receiver, the arguments and the assigned value in the order written,
whether or not the use fails, and if it does not fail, its call uses each of these values once
(`CallForm.temps`). -/
theorem lowerSite_evaluates_once (registry : Registry) (site : AccessSite) :
    let lowered := (registry.lowerSite site).1
    lowered.prelude.map (·.id.index) = List.range lowered.prelude.length ∧
      lowered.prelude.map (·.source) =
        site.access.receiver?.toList.map TempSource.receiver ++
          site.shape.args.map (fun arg => TempSource.argument arg.value) ++
          site.shape.assigned?.toList.map TempSource.assigned ∧
      (lowered.form ≠ .error →
        (∀ temp ∈ lowered.prelude, lowered.form.temps.count temp.id = 1) ∧
          ∀ id ∈ lowered.form.temps, ∃ temp ∈ lowered.prelude, temp.id = id) := by
  intro lowered
  have hprelude : lowered.prelude = prelude site.sources := prelude_lowerAccess registry site _
  refine ⟨?_, ?_, fun hform => ?_⟩
  · rw [hprelude, map_id_prelude]
    simp [prelude]
  · rw [hprelude, map_source_prelude, AccessSite.sources, argumentSources, Option.toList_map,
      Option.toList_map]
  · have hperm : lowered.form.temps.Perm (lowered.prelude.map (·.id)) := by
      rw [hprelude]
      exact perm_temps_of_formOf (formOf_of_lowerAccess hform)
    -- The numbers in the prelude are distinct, so a permutation of them has each one once.
    have hdistinct : (lowered.prelude.map (·.id)).Nodup := by
      rw [hprelude, ids_prelude]
      exact List.nodup_range.map fun first second heq => by simpa using heq
    refine ⟨fun temp htemp => ?_, fun id hid => List.mem_map.1 (hperm.subset hid)⟩
    rw [hperm.count_eq]
    exact List.count_eq_one_of_mem hdistinct (List.mem_map_of_mem htemp)

/-- A class with an extension that gives it an indexer: by row, by a column and a layer that can be
left out, and by tags that are gathered. -/
def layeredSheet : SourceFile where
  id := ⟨0⟩
  name := "sheet"
  items :=
    [.type ⟨.plainClass, "Sheet", none, [], .unplaced⟩,
      .extension ⟨"Cells", some (.named ["Sheet"] .unplaced), [], [cell], .unplaced⟩]
where
  int : TypeExpr := .named ["int"] .unplaced
  tags : WrittenParam := WrittenParam.gathering ⟨"tags", int, none, false, false⟩
  cell : WrittenMember :=
    { (default : WrittenMember) with
      category := .indexer
      name := indexerName
      params := [⟨"row", int, none, false, false⟩, ⟨"column", int, some (.int 0), false, false⟩,
        ⟨"layer", int, some (.int 4), false, false⟩, tags]
      result := some (.named ["string"] .unplaced)
      accessors := ⟨true, true⟩ }

/-- The assignment of a cell, the column given before the row. -/
def cellAssignment : AccessSite where
  id := ⟨0⟩
  span := .unplaced
  scope := ⟨0⟩
  access := .onValue ⟨10⟩ (QualifiedName.global "Sheet").hash
  member := indexerName
  shape := .indexSet
    [⟨some "column", ⟨11⟩, .unplaced⟩, ⟨some "row", ⟨12⟩, .unplaced⟩] ⟨13⟩

/-- In `cellAssignment` the row and the column change places; receiver and assigned value stay first
and last. -/
theorem lowerSite_evaluates_once_cell :
    let registry := (assemble [layeredSheet] .standard).registry
    let lowered := (registry.lowerSite cellAssignment).1
    lowered.form.operands = [.temp ⟨0⟩, .temp ⟨2⟩, .temp ⟨1⟩, .default (.int 4), .sequence [],
        .temp ⟨3⟩] ∧
      lowered.form ≠ .error ∧
      lowered.prelude.map (·.source) =
        [.receiver ⟨10⟩, .argument ⟨11⟩, .argument ⟨12⟩, .assigned ⟨13⟩] ∧
      ∀ temp ∈ lowered.prelude, lowered.form.temps.count temp.id = 1 := by
  intro registry lowered
  have hform : lowered.form ≠ .error := by decide +kernel
  obtain ⟨_, hsources, honce⟩ := lowerSite_evaluates_once registry cellAssignment
  exact ⟨by decide +kernel, hform, hsources, (honce hform).1⟩

end Registry

end ExtensionMembers
