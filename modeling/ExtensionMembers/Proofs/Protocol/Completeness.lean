import ExtensionMembers.Build.Assembly
import ExtensionMembers.Proofs.Call.Placement
import ExtensionMembers.Proofs.Protocol.Discovery

/-!
# Completeness of protocol calls

A step of a protocol is looked up by its number of arguments, so a member with more parameters
turns up for it as well, if they have defaults or gather. Its call passes what the protocol
supplies and nothing else, where a use of the same member would have its parameters filled. The
calls of a plan are therefore complete exactly if no step has found such a member.

## Main definitions

* `CallForm.passesEach`: a call has one operand for each parameter of its entry point.
* `FoundStep.CompletedBy`: a call passes what a use of the member found would pass.

## Main results

* `Registry.lowerProtocol_complete_iff`: the plans whose calls are complete.
-/

namespace ExtensionMembers

/-- The `Protocol` of a loop and of a wait. -/
def ProtocolUse.protocol? : ProtocolUse → Option Protocol
  | iterate => some .iteration
  | await => some .await
  | addElements _ => none

namespace CallForm

/-- The entry point that a `CallForm.static` or `CallForm.foreign` has, with the operands. -/
def call? : CallForm → Option (CallTarget × List Operand)
  | static target args | foreign target _ args => some (target, args)
  | declared .. | delegate .. | error => none

/-- Whether a call (`call?`) passes one operand for each parameter of its entry point. -/
def passesEach (form : CallForm) : Bool :=
  form.call?.all fun call => call.2.length == call.1.params.length

end CallForm

/-- The operand is what a slot calls for, where `supplied` is what the arguments are. -/
def BoundSlot.TakesFrom (supplied : List Operand) : BoundSlot → Operand → Prop
  | argument index, operand => supplied[index]? = some operand
  | default value, operand => operand = .default value
  | gathered indices, operand => ∃ ids, operand = .sequence ids ∧ ids.length = indices.length

/-- The call passes, after a receiver, what `bind` calls for in a use of the member found with as
many positional arguments as the step supplies. -/
def FoundStep.CompletedBy (found : FoundStep) (form : CallForm) : Prop :=
  ∀ extension member, found.resolution = .supplied extension member →
    ∃ target receiver operands, form.call? = some (target, receiver :: operands) ∧
      operands.length + 1 = target.params.length ∧
      ∃ args span slots, args.length = found.step.arity ∧ (∀ arg ∈ args, arg.name = none) ∧
        bind member.params args span = .ok slots ∧
        List.Forall₂ (BoundSlot.TakesFrom found.step.supplied) slots operands

/-! ## The call of one step -/

namespace FoundStep

/-- `FoundStep.form` of a step whose member a type declares, or that found none, has no entry point
to call. -/
theorem call?_form_eq_none {found : FoundStep} (subject : TempId)
    (h : ∀ extension member, found.resolution ≠ .supplied extension member) :
    (found.form subject).call? = none := by
  unfold form
  cases hanswer : found.resolution with
  | supplied extension member => exact absurd hanswer (h extension member)
  | declared owner member => rfl
  | ambiguous candidates => rfl
  | notFound => rfl

/-- `FoundStep.form` calls the entry point of the member found, with the receiver and what is
supplied (`ProtocolStep.supplied`). -/
theorem call?_form {found : FoundStep} {extension : Extension} {member : Member}
    (h : found.resolution = .supplied extension member) (hinstance : member.isStatic = false)
    (subject : TempId) :
    (found.form subject).call? =
      some (.ofMember extension member found.step.kind,
        found.step.receiver subject :: found.step.supplied) := by
  have hkind : found.step.kind ≠ .methodGroup := by
    unfold ProtocolStep.kind
    split <;> simp
  rw [form, h, CallForm.ofResolution, CallForm.ofSupplied, if_neg hkind, hinstance]
  cases member.foreign <;> rfl

/-- `CallTarget.ofMember` of an instance member has the receiver besides the declared parameters. -/
theorem length_params_ofMember (found : FoundStep) (extension : Extension) {member : Member}
    (hinstance : member.isStatic = false) :
    (CallTarget.ofMember extension member found.step.kind).params.length =
      member.params.length + 1 := by
  have hkind : found.step.kind.accessor? ≠ some .set := by
    unfold ProtocolStep.kind
    split <;> simp [AccessKind.accessor?]
  simp [CallTarget.ofMember, hinstance, hkind]

variable {found : FoundStep}
  (hinstance : ∀ extension member, found.resolution = .supplied extension member →
    member.isStatic = false) (subject : TempId)

include hinstance

/-- `passesEach` holds of a step if its member declares as many parameters as are supplied. -/
theorem passesEach_form_iff :
    (found.form subject).passesEach = true ↔ ∀ extension member,
      found.resolution = .supplied extension member →
        member.params.length = found.step.arity := by
  by_cases hsupplied : ∃ extension member, found.resolution = .supplied extension member
  · obtain ⟨extension, member, hsupplied⟩ := hsupplied
    have hmember := hinstance extension member hsupplied
    rw [CallForm.passesEach, call?_form hsupplied hmember, Option.all_some, beq_iff_eq,
      length_params_ofMember found extension hmember, List.length_cons, ProtocolStep.supplied,
      List.length_replicate, Nat.add_right_cancel_iff]
    constructor
    · intro hcount other otherMember hother
      obtain ⟨-, rfl⟩ := Resolution.supplied.inj (hsupplied.symm.trans hother)
      exact hcount.symm
    · intro hcount
      exact (hcount extension member hsupplied).symm
  · have hnone : ∀ extension member, found.resolution ≠ .supplied extension member := by
      intro extension member h
      exact hsupplied ⟨extension, member, h⟩
    rw [CallForm.passesEach, call?_form_eq_none subject hnone]
    exact iff_of_true rfl fun extension member h => absurd h (hnone extension member)

/-- `CompletedBy` holds of a step if its member declares as many parameters as are supplied, and
gathers none. -/
theorem completedBy_form_iff :
    found.CompletedBy (found.form subject) ↔ ∀ extension member,
      found.resolution = .supplied extension member →
        member.params.length = found.step.arity ∧ hasTail member.params = false := by
  refine forall_congr' fun extension => forall_congr' fun member => forall_congr' fun h => ?_
  have hmember := hinstance extension member h
  have hcall := call?_form h hmember subject
  have hsupplied : found.step.supplied.length = found.step.arity := List.length_replicate
  constructor
  · rintro ⟨target, receiver, operands, hform, _, args, span, slots, hcount, hargs, hslots, htakes⟩
    rw [hform, Option.some.injEq, Prod.mk.injEq, List.cons.injEq] at hcall
    obtain ⟨-, -, rfl⟩ := hcall
    have hlength : member.params.length = found.step.arity := by
      rw [← length_of_bind hslots, htakes.length_eq, hsupplied]
    refine ⟨hlength, ?_⟩
    -- What a protocol supplies is no sequence, so nothing of it is gathered.
    by_contra htail
    obtain ⟨indices, hgathered⟩ :=
      exists_gathered_of_bind hargs (Bool.not_eq_false _ ▸ htail) hslots
    obtain ⟨hlt, hslot⟩ := List.getElem?_eq_some_iff.1 hgathered
    have htake := (List.forall₂_iff_get.1 htakes).2 _ hlt (htakes.length_eq ▸ hlt)
    rw [List.get_eq_getElem, List.get_eq_getElem, hslot] at htake
    obtain ⟨ids, hoperand, _⟩ := htake
    simp [ProtocolStep.supplied] at hoperand
  · rintro ⟨hlength, htail⟩
    -- Any positional arguments will do, since what binding makes of them is their positions.
    refine ⟨_, _, _, hcall, ?_, List.replicate found.step.arity ⟨none, default, default⟩, default,
      (List.range member.params.length).map .argument, List.length_replicate, ?_, ?_, ?_⟩
    · rw [length_params_ofMember found extension hmember, hsupplied, hlength]
    · intro arg harg
      rw [List.eq_of_mem_replicate harg]
    · refine bind_positional _ (fun arg harg => ?_) htail ?_
      · rw [List.eq_of_mem_replicate harg]
      · rw [List.length_replicate, hlength]
    · refine List.forall₂_iff_get.2 ⟨?_, fun position hslot hoperand => ?_⟩
      · rw [List.length_map, List.length_range, hsupplied, hlength]
      · simp only [List.get_eq_getElem, List.getElem_map, List.getElem_range]
        exact List.getElem?_eq_getElem hoperand

end FoundStep

namespace Registry

/-- The members of `FoundFor` are instance members: protocols look for no others. -/
theorem isStatic_of_foundFor {registry : Registry} {chain : ScopeChain}
    {steps : List ProtocolStep} {found : List FoundStep}
    (h : FoundFor registry chain steps found) {step : FoundStep} (hstep : step ∈ found)
    {extension : Extension} {member : Member}
    (hsupplied : step.resolution = .supplied extension member) : member.isStatic = false := by
  rw [h.resolution_eq step hstep] at hsupplied
  exact (wants_of_resolve_supplied hsupplied).2.2

/-- A loop or a wait whose plan by `lowerProtocol` did not fail has found its protocol
(`discover`). -/
theorem plan_lowerProtocol {registry : Registry} {site : ProtocolSite} {protocol : Protocol}
    (hprotocol : site.construct.protocol? = some protocol)
    (hplan : (registry.lowerProtocol site).1.plan ≠ .error) :
    ∃ found, registry.discover protocol site.type (registry.chain site.scope) site.span =
        .ok found ∧
      (registry.lowerProtocol site).1.plan = found.plan protocol ⟨0⟩ := by
  have hsteps : (registry.lowerProtocol site).1.plan = (registry.lowerSteps site protocol).1 := by
    unfold lowerProtocol planOf
    cases hconstruct : site.construct <;> rw [hconstruct] at hprotocol <;> cases hprotocol <;> rfl
  rw [hsteps] at hplan ⊢
  unfold lowerSteps at hplan ⊢
  cases hfound : registry.discover protocol site.type (registry.chain site.scope) site.span with
  | error fault =>
    rw [hfound] at hplan
    exact absurd rfl hplan
  | ok found => exact ⟨found, rfl, rfl⟩

/-- In the plan that `lowerProtocol` gives for a loop or a wait, each call has one operand for each
parameter exactly if the members that extensions supply for its steps declare as many parameters as
the steps have arguments; and each call passes what a use of its member would pass (`CompletedBy`)
exactly if, besides, none of these members gathers arguments. -/
theorem lowerProtocol_complete_iff {registry : Registry} {site : ProtocolSite}
    {protocol : Protocol} (hprotocol : site.construct.protocol? = some protocol)
    (hplan : (registry.lowerProtocol site).1.plan ≠ .error) :
    ∃ found, registry.discover protocol site.type (registry.chain site.scope) site.span =
        .ok found ∧
      ((∀ form ∈ (registry.lowerProtocol site).1.plan.forms, form.passesEach = true) ↔
        ∀ step ∈ found.steps, ∀ extension member,
          step.resolution = .supplied extension member →
            member.params.length = step.step.arity) ∧
      (List.Forall₂ FoundStep.CompletedBy found.steps
          (registry.lowerProtocol site).1.plan.forms ↔
        ∀ step ∈ found.steps, ∀ extension member,
          step.resolution = .supplied extension member →
            member.params.length = step.step.arity ∧ hasTail member.params = false) := by
  obtain ⟨found, hfound, hforms⟩ := plan_lowerProtocol hprotocol hplan
  have hsteps := foundFor_of_discover hfound
  have hinstance : ∀ step ∈ found.steps, ∀ extension member,
      step.resolution = .supplied extension member → member.isStatic = false :=
    fun step hstep extension member => isStatic_of_foundFor hsteps hstep
  refine ⟨found, hfound, ?_, ?_⟩
  · rw [hforms, ProtocolMatch.forms_plan hsteps, List.forall_mem_map]
    exact forall₂_congr fun step hstep =>
      FoundStep.passesEach_form_iff (hinstance step hstep) ⟨0⟩
  · rw [hforms, ProtocolMatch.forms_plan hsteps, List.forall₂_map_right_iff, List.forall₂_same]
    exact forall₂_congr fun step hstep =>
      FoundStep.completedBy_form_iff (hinstance step hstep) ⟨0⟩

/-- A class that an extension lets loops run over, from a start that can be left out, with the
class of its enumerators. -/
def bagFile : SourceFile where
  id := ⟨0⟩
  name := "bag"
  items :=
    [.type ⟨.plainClass, "Bag", none, [], .unplaced⟩,
      .type ⟨.plainClass, "Cursor", none, [moveNext, current], .unplaced⟩,
      .extension ⟨"BagLoops", some (.parse "Bag"), [], [getEnumerator], .unplaced⟩]
where
  moveNext : WrittenMember :=
    { (default : WrittenMember) with name := "MoveNext", result := some (.parse "bool") }
  current : WrittenMember :=
    { (default : WrittenMember) with
      category := .property, name := "Current", result := some (.parse "int"),
      accessors := ⟨true, false⟩ }
  getEnumerator : WrittenMember :=
    { (default : WrittenMember) with
      name := "GetEnumerator"
      params := [⟨"start", .parse "int", some (.int 4), false, false⟩]
      result := some (.parse "Cursor") }

/-- A loop over the bag of `bagFile`. -/
def bagLoop : ProtocolSite where
  id := ⟨0⟩
  span := .unplaced
  scope := ⟨0⟩
  subject := ⟨5⟩
  type := (QualifiedName.global "Bag").hash
  construct := .iterate

/-- `bagLoop` lacks the operand for the start, since its member declares one parameter more than the
step has arguments. -/
theorem lowerProtocol_complete_iff_bag :
    let registry := (assemble [bagFile] .standard).registry
    let plan := (registry.lowerProtocol bagLoop).1.plan
    (bagLoop.construct.protocol? = some .iteration ∧ plan ≠ .error) ∧
    ∃ found, registry.discover .iteration bagLoop.type (registry.chain bagLoop.scope)
        bagLoop.span = .ok found ∧
      ((∀ form ∈ plan.forms, form.passesEach = true) ↔
        ∀ step ∈ found.steps, ∀ extension member,
          step.resolution = .supplied extension member →
            member.params.length = step.step.arity) ∧
      (List.Forall₂ FoundStep.CompletedBy found.steps plan.forms ↔
        ∀ step ∈ found.steps, ∀ extension member,
          step.resolution = .supplied extension member →
            member.params.length = step.step.arity ∧ hasTail member.params = false) := by
  intro registry plan
  have hprotocol : bagLoop.construct.protocol? = some .iteration := rfl
  have hplan : plan ≠ .error := by decide +kernel
  exact ⟨⟨hprotocol, hplan⟩, lowerProtocol_complete_iff hprotocol hplan⟩

/-- Not every plan has complete calls: `bagLoop` has two parameters to fill and passes one operand,
where a use of the same member without arguments passes the default as well. -/
theorem exists_call_without_default :
    let registry := (assemble [bagFile] .standard).registry
    let plan := (registry.lowerProtocol bagLoop).1.plan
    let call := (registry.lowerSite ⟨⟨0⟩, .unplaced, ⟨0⟩, .onValue ⟨5⟩ bagLoop.type,
      "GetEnumerator", .invoke []⟩).1
    plan ≠ .error ∧
      (plan.forms.filterMap (·.call?)).map (fun call => (call.1.params.length, call.2)) =
        [(2, [.temp ⟨0⟩])] ∧
      ¬ (∀ form ∈ plan.forms, form.passesEach = true) ∧
      call.form.call?.map (fun call => (call.1.params.length, call.2)) =
        some (2, [.temp ⟨0⟩, .default (.int 4)]) ∧
      call.form.passesEach = true := by
  decide +kernel

end Registry

end ExtensionMembers
