import ExtensionMembers.Proofs.Call.Evaluation
import ExtensionMembers.Proofs.Protocol.Completeness

/-!
# Failures and their diagnostics

Whatever is lowered either succeeds in silence or fails with one diagnostic. An error form stands
for a member that was not found or cannot be used as written, and never for a step that discovery
has found: a plan looks up its steps by name, and each of them is there with its member.

## Main definitions

* `CallForm.memberName?`, `CallForm.AddsFrom`: the call that adds an element.
* `tempsFrom`: temporaries numbered from a given one on.

## Main results

* `CallForm.ofResolution_eq_error_iff`: the forms of what was found are no errors.
* `Registry.lookupFault?_eq_none_iff`: whatever finds no member has a fault of its own.
* `Registry.failures_match_diagnostics`: failed uses and diagnostics correspond one to one.
-/

namespace ExtensionMembers

namespace CallForm

/-- `CallForm.ofResolution` is an error only for what was not found. -/
theorem ofResolution_eq_error_iff {kind : AccessKind} {receiver : Option Operand}
    {args : List Operand} {resolution : Resolution} :
    ofResolution kind receiver args resolution = error ↔ resolution.isFound = false := by
  cases resolution with
  | declared owner member => simp [ofResolution, Resolution.isFound, Resolution.member?]
  | supplied extension member =>
    simp only [ofResolution, ofSupplied, Resolution.isFound, Resolution.member?, Option.isSome_some,
      Bool.true_eq_false, iff_false]
    split
    · exact CallForm.noConfusion
    · split <;> exact CallForm.noConfusion
  | ambiguous candidates => simp [ofResolution, Resolution.isFound, Resolution.member?]
  | notFound => simp [ofResolution, Resolution.isFound, Resolution.member?]

/-- The name of the member that a `CallForm` uses. -/
def memberName? : CallForm → Option String
  | declared _ member _ _ _ => some member
  | static target _ | foreign target _ _ | delegate target _ => some target.symbol
  | error => none

/-- `CallForm.ofResolution` makes a call under the name of the member found. -/
theorem memberName?_ofResolution {resolution : Resolution} {member : Member}
    (hfound : resolution.member? = some member) (receiver : Option Operand) (args : List Operand) :
    (ofResolution .invoke receiver args resolution).memberName? = some member.name := by
  rcases Resolution.cases_of_member? hfound with ⟨owner, rfl⟩ | ⟨extension, rfl⟩
  · rfl
  · simp only [ofResolution, ofSupplied, reduceCtorEq, if_false]
    cases member.foreign <;> rfl

/-- The call adds to the value of temporary 0 what some other temporaries hold, each used once
(`CallForm.temps`). -/
structure AddsFrom (form : CallForm) (temps : List Temp) : Prop where
  memberName?_eq : form.memberName? = some addName
  perm : form.temps.Perm (⟨0⟩ :: temps.map (·.id))

end CallForm

/-! ## Temporaries of elements -/

/-- The temporaries that hold some values, numbered from `first` on. -/
def tempsFrom (first : Nat) (sources : List TempSource) : List Temp :=
  (sources.zipIdx first).map fun source => ⟨⟨source.2⟩, source.1⟩

theorem map_source_tempsFrom (first : Nat) (sources : List TempSource) :
    (tempsFrom first sources).map (·.source) = sources := by
  rw [tempsFrom, List.map_map]
  exact List.zipIdx_map_fst first sources

theorem map_id_tempsFrom (first : Nat) (sources : List TempSource) :
    (tempsFrom first sources).map (·.id) =
      (List.range sources.length).map fun index => ⟨first + index⟩ := by
  have hnumbers : (sources.zipIdx first).map (·.2) = List.range' first sources.length :=
    List.zipIdx_map_snd first sources
  have hmap : (tempsFrom first sources).map (·.id) =
      ((sources.zipIdx first).map (·.2)).map TempId.mk := by
    rw [tempsFrom, List.map_map, List.map_map]
    rfl
  rw [hmap, hnumbers, List.range'_eq_map_range, List.map_map]
  rfl

theorem map_fst_withStarts {α : Type} (first : Nat) (lists : List (List α)) :
    (withStarts first lists).map (·.1) = lists := by
  induction lists generalizing first with
  | nil => rfl
  | cons items rest ih => rw [withStarts, List.map_cons, ih]

/-- `tempsFrom` of all elements has the temporaries of one element after the other. -/
theorem tempsFrom_flatMap (first : Nat) (elements : List (List Argument)) :
    tempsFrom first (elements.flatMap argumentSources) =
      (withStarts first elements).flatMap fun element =>
        tempsFrom element.2 (argumentSources element.1) := by
  induction elements generalizing first with
  | nil => rfl
  | cons args rest ih =>
    have hlength : (argumentSources args).length = args.length := List.length_map _
    rw [List.flatMap_cons, withStarts, List.flatMap_cons, ← ih, tempsFrom, List.zipIdx_append,
      List.map_append, hlength]
    rfl

/-! ## Failures -/

namespace CallForm

/-- The number of diagnostics that go with a form: `CallForm.error` has one. -/
def diagnosticCount (form : CallForm) : Nat := if form = error then 1 else 0

/-- `diagnosticCount` is 0 for a form whose member was found. -/
theorem diagnosticCount_ofResolution {resolution : Resolution} {member : Member}
    (hfound : resolution.member? = some member) (kind : AccessKind) (receiver : Option Operand)
    (args : List Operand) :
    (ofResolution kind receiver args resolution).diagnosticCount = 0 := by
  refine if_neg fun herror => ?_
  rw [ofResolution_eq_error_iff, Resolution.isFound, hfound] at herror
  cases herror

end CallForm

/-- `Report.concat` of forms with their diagnostics is as long as there are errors among the
forms. -/
theorem size_concat {lowered : List (CallForm × Report)}
    (h : ∀ result ∈ lowered, result.2.size = result.1.diagnosticCount) :
    (Report.concat (lowered.map (·.2))).size = (lowered.map (·.1)).countP (·.isError) := by
  induction lowered with
  | nil => rfl
  | cons first rest ih =>
    obtain ⟨hfirst, hrest⟩ := List.forall_mem_cons.1 h
    have hcons : (Report.concat ((first :: rest).map (·.2))).size =
        first.2.size + (Report.concat (rest.map (·.2))).size := by
      simp [Report.concat, Report.size]
    rw [hcons, hfirst, ih hrest, List.map_cons, List.countP_cons, CallForm.diagnosticCount,
      Nat.add_comm]
    simp [CallForm.isError]

namespace Registry

variable {registry : Registry}

/-- `lookupFault?` has a fault for whatever finds no member, so no other is put in its place and
none is left out. -/
theorem lookupFault?_eq_none_iff {query : MemberQuery} {span : Span} {resolution : Resolution} :
    registry.lookupFault? query span resolution = none ↔ resolution.isFound = true := by
  cases resolution <;> simp [lookupFault?, Resolution.isFound, Resolution.member?]

/-- `lowerAccess` fails with one diagnostic or succeeds with none. -/
theorem size_lowerAccess (registry : Registry) (site : AccessSite) (resolution : Resolution) :
    (registry.lowerAccess site resolution).2.size =
      (registry.lowerAccess site resolution).1.form.diagnosticCount := by
  unfold lowerAccess
  cases hform : registry.formOf site resolution with
  | error fault => rfl
  | ok form =>
    obtain ⟨member, operands, hfound, _, _, rfl⟩ := formOf_eq_ok_iff.1 hform
    exact (CallForm.diagnosticCount_ofResolution hfound _ _ _).symm

/-! ## Elements -/

/-- `addForm` succeeds if the member is found and takes the arguments. -/
theorem addForm_eq_ok_iff {site : AccessSite} {resolution : Resolution} {first : Nat}
    {form : CallForm} :
    registry.addForm site resolution first = .ok form ↔ ∃ member slots,
      resolution.member? = some member ∧
        bind member.params site.shape.args site.span = .ok slots ∧
        form = .ofResolution .invoke (some (.temp ⟨0⟩)) (slots.map (·.operand first))
          resolution := by
  unfold addForm
  cases resolution.member? with
  | none => simp
  | some member =>
    cases hslots : bind member.params site.shape.args site.span with
    | error fault => simp [hslots]
    | ok slots => simp [hslots, eq_comm]

/-- `lookupFault?` has a fault to note for whatever does not find one member. -/
theorem exists_lookupFault? (registry : Registry) (query : MemberQuery) (span : Span)
    {resolution : Resolution} (h : resolution.member? = none) : ∃ fault,
      registry.lookupFault? query span resolution = some fault := by
  refine Option.ne_none_iff_exists'.1 fun hnone => ?_
  rw [lookupFault?_eq_none_iff, Resolution.isFound, h] at hnone
  cases hnone

/-- `addForm` passes no element over in silence: `lookupFault?` has a fault of its own or the
arguments do not fit, and that is noted once. -/
theorem size_of_addForm_eq_error {site : AccessSite} {resolution : Resolution} {first : Nat}
    {report : Report} (h : registry.addForm site resolution first = .error report) :
    report.size = 1 := by
  unfold addForm at h
  cases hmember : resolution.member? with
  | none =>
    obtain ⟨fault, hfault⟩ := registry.exists_lookupFault? (.ofSite site) site.span hmember
    simp only [hmember, hfault] at h
    exact Except.error.inj h ▸ rfl
  | some member =>
    simp only [hmember] at h
    cases hslots : bind member.params site.shape.args site.span with
    | error fault =>
      simp only [hslots] at h
      exact Except.error.inj h ▸ rfl
    | ok slots =>
      simp only [hslots] at h
      cases h

/-- The call that `addForm` makes adds what the temporaries of its arguments hold (`AddsFrom`). -/
theorem addsFrom_of_addForm {site : ProtocolSite} {args : List Argument} {first : Nat}
    {chain : ScopeChain} {form : CallForm}
    (h : registry.addForm (site.addSite args) (registry.resolve (.ofSite (site.addSite args)) chain)
      first = .ok form) :
    form.AddsFrom (tempsFrom first (argumentSources args)) := by
  obtain ⟨member, slots, hfound, hslots, rfl⟩ := addForm_eq_ok_iff.1 h
  -- An instance member is looked for, so the receiver is passed on.
  have hstatic : ∀ extension,
      registry.resolve (.ofSite (site.addSite args)) chain = .supplied extension member →
        member.isStatic = true → some (Operand.temp ⟨0⟩) = none := by
    intro extension hsupplied hmember
    have hinstance : member.isStatic = false := (wants_of_resolve_supplied hsupplied).2.2
    rw [hmember] at hinstance
    cases hinstance
  constructor
  · rw [CallForm.memberName?_ofResolution hfound]
    exact congrArg some (names_of_resolve hfound).1
  · rw [CallForm.temps_ofResolution hfound (by simp) hstatic, map_id_tempsFrom, argumentSources,
      List.length_map]
    exact (perm_temps_of_bind hslots first).cons _

/-- `lowerAdd` fails with one diagnostic, or its call adds the element (`AddsFrom`) and there is
none. -/
theorem lowerAdd_spec (registry : Registry) (site : ProtocolSite)
    (element : List Argument × Nat) :
    (registry.lowerAdd site element).2.size =
        (registry.lowerAdd site element).1.diagnosticCount ∧
      ((registry.lowerAdd site element).1 ≠ .error →
        (registry.lowerAdd site element).1.AddsFrom
          (tempsFrom element.2 (argumentSources element.1))) := by
  unfold lowerAdd
  dsimp only
  cases hform : registry.addForm (site.addSite element.1)
      (registry.resolve (.ofSite (site.addSite element.1)) (registry.chain site.scope))
      element.2 with
  | error report => exact ⟨size_of_addForm_eq_error hform, fun herror => absurd rfl herror⟩
  | ok form =>
    obtain ⟨member, slots, hfound, _, rfl⟩ := addForm_eq_ok_iff.1 hform
    exact ⟨(CallForm.diagnosticCount_ofResolution hfound _ _ _).symm,
      fun _ => addsFrom_of_addForm hform⟩

/-- For an object with initial elements (`addElements`), `lowerProtocol` evaluates the subject and
then one block of temporaries for each element; the call for an element adds what its block holds,
and failed calls are noted. -/
theorem lowerProtocol_addElements {site : ProtocolSite} {elements : List (List Argument)}
    (helements : site.construct = .addElements elements) :
    ∃ (blocks : List (List Temp)) (adds : List CallForm),
      (registry.lowerProtocol site).1.plan = .addElements adds ∧
      (registry.lowerProtocol site).1.prelude = ⟨⟨0⟩, .receiver site.subject⟩ :: blocks.flatten ∧
      List.Forall₂ (fun args temps => temps.map (·.source) = argumentSources args)
        elements blocks ∧
      List.Forall₂ (fun temps form => form ≠ .error → form.AddsFrom temps) blocks adds ∧
      (registry.lowerProtocol site).2.size = adds.countP (·.isError) := by
  let placed := withStarts 1 elements
  let lowered := placed.map (registry.lowerAdd site)
  have hplan : registry.planOf site =
      (.addElements (lowered.map (·.1)), .concat (lowered.map (·.2))) := by
    rw [planOf, helements]
  have hsources : site.sources = .receiver site.subject :: elements.flatMap argumentSources := by
    rw [ProtocolSite.sources, ProtocolSite.elements, helements]
  refine ⟨placed.map fun element => tempsFrom element.2 (argumentSources element.1),
    lowered.map (·.1), congrArg (·.1) hplan, ?_, ?_, ?_, ?_⟩
  · show prelude site.sources = _
    rw [hsources, ← List.flatMap_def, ← tempsFrom_flatMap]
    rfl
  · -- The elements are those that are numbered.
    refine (map_fst_withStarts 1 elements) ▸ ?_
    rw [List.forall₂_map_left_iff, List.forall₂_map_right_iff, List.forall₂_same]
    exact fun element _ => map_source_tempsFrom element.2 (argumentSources element.1)
  · rw [List.map_map, List.forall₂_map_left_iff, List.forall₂_map_right_iff, List.forall₂_same]
    exact fun element _ => (registry.lowerAdd_spec site element).2
  · show (registry.planOf site).2.size = _
    rw [hplan, size_concat]
    exact List.forall_mem_map.2 fun element _ => (registry.lowerAdd_spec site element).1

/-! ## Steps -/

/-- Every step of `FoundFor` has a member. -/
theorem isFound_of_foundFor {chain : ScopeChain} {steps : List ProtocolStep}
    {found : List FoundStep} (h : FoundFor registry chain steps found) :
    ∀ step ∈ found, step.resolution.isFound = true := by
  induction h with
  | nil => simp
  | found hfound _ ih => exact List.forall_mem_cons.2 ⟨hfound, ih⟩
  | skipped _ _ ih => exact ih

/-- The calls of the steps that `discover` finds are no errors. -/
theorem forms_plan_ne_error {chain : ScopeChain} {protocol : Protocol} {subject : TypeHash}
    {span : Span} {found : ProtocolMatch}
    (h : registry.discover protocol subject chain span = .ok found) (temp : TempId) :
    ∀ form ∈ (found.plan protocol temp).forms, form ≠ .error := by
  have hsteps := foundFor_of_discover h
  rw [ProtocolMatch.forms_plan hsteps, List.forall_mem_map]
  intro step hstep herror
  rw [FoundStep.form, CallForm.ofResolution_eq_error_iff,
    isFound_of_foundFor hsteps step hstep] at herror
  cases herror

/-- `lowerSteps` fails with one diagnostic, or all its calls are there and there is none. -/
theorem lowerSteps_spec (registry : Registry) (site : ProtocolSite) (protocol : Protocol) :
    (registry.lowerSteps site protocol).2.size =
        (if (registry.lowerSteps site protocol).1 = .error then 1 else 0) ∧
      ∀ form ∈ (registry.lowerSteps site protocol).1.forms, form ≠ .error := by
  unfold lowerSteps
  cases hfound : registry.discover protocol site.type (registry.chain site.scope) site.span with
  | error fault => exact ⟨rfl, fun form hform => absurd hform List.not_mem_nil⟩
  | ok found =>
    refine ⟨?_, forms_plan_ne_error hfound ⟨0⟩⟩
    cases protocol <;> rfl

/-! ## The whole -/

/-- Failures and diagnostics correspond one to one. `lowerSite` gives one diagnostic if its form is
an error. For a loop or a wait, `lowerProtocol` gives one if its plan is an error; otherwise none of
the calls in the plan is. For an object with initial elements it gives one call per element, in
their order, and one diagnostic for each of these that is an error; the others add what is evaluated
for their element (`AddsFrom`). -/
theorem failures_match_diagnostics (registry : Registry) :
    (∀ site : AccessSite, (registry.lowerSite site).2.size =
      if (registry.lowerSite site).1.form = .error then 1 else 0) ∧
    (∀ site : ProtocolSite, site.construct = .iterate ∨ site.construct = .await →
      (registry.lowerProtocol site).2.size =
          (if (registry.lowerProtocol site).1.plan = .error then 1 else 0) ∧
        ∀ form ∈ (registry.lowerProtocol site).1.plan.forms, form ≠ .error) ∧
    ∀ (site : ProtocolSite) (elements : List (List Argument)),
      site.construct = .addElements elements →
        ∃ (blocks : List (List Temp)) (adds : List CallForm),
          (registry.lowerProtocol site).1.plan = .addElements adds ∧
          (registry.lowerProtocol site).1.prelude =
            ⟨⟨0⟩, .receiver site.subject⟩ :: blocks.flatten ∧
          List.Forall₂ (fun args temps => temps.map (·.source) = argumentSources args)
            elements blocks ∧
          List.Forall₂ (fun temps form => form ≠ .error → form.AddsFrom temps) blocks adds ∧
          (registry.lowerProtocol site).2.size = adds.countP (·.isError) := by
  refine ⟨fun site => size_lowerAccess registry site _, fun site hsteps => ?_,
    fun site elements => lowerProtocol_addElements⟩
  unfold lowerProtocol planOf
  rcases hsteps with h | h <;> rw [h]
  · exact registry.lowerSteps_spec site .iteration
  · exact registry.lowerSteps_spec site .await

/-- A class that an extension lets take elements, one number each. -/
def crateFile : SourceFile where
  id := ⟨0⟩
  name := "crate"
  items :=
    [.type ⟨.plainClass, "Crate", none, [], .unplaced⟩,
      .extension ⟨"CrateItems", some (.parse "Crate"), [], [add], .unplaced⟩]
where
  add : WrittenMember :=
    { (default : WrittenMember) with
      name := "Add", params := [⟨"item", .parse "int", none, false, false⟩] }

/-- A use of a crate that needs several members. -/
def crateUse (construct : ProtocolUse) : ProtocolSite where
  id := ⟨0⟩
  span := .unplaced
  scope := ⟨0⟩
  subject := ⟨7⟩
  type := (QualifiedName.global "Crate").hash
  construct

/-- Of three elements the one with two arguments cannot be added, and a crate cannot be looped
over. -/
theorem failures_match_diagnostics_crate :
    let registry := (assemble [crateFile] .standard).registry
    let elements : List (List Argument) :=
      [[⟨none, ⟨1⟩, .unplaced⟩], [⟨none, ⟨2⟩, .unplaced⟩, ⟨none, ⟨3⟩, .unplaced⟩],
        [⟨some "item", ⟨4⟩, .unplaced⟩]]
    let filled := registry.lowerProtocol (crateUse (.addElements elements))
    let looped := registry.lowerProtocol (crateUse .iterate)
    filled.1.plan.forms.map (·.temps.map (·.index)) = [[0, 1], [], [0, 4]] ∧
      (∃ adds, filled.1.plan = .addElements adds ∧ filled.2.size = adds.countP (·.isError)) ∧
      filled.2.size = 1 ∧ looped.1.plan = .error ∧ looped.2.size = 1 := by
  intro registry elements filled looped
  obtain ⟨_, hsteps, hadds⟩ := failures_match_diagnostics registry
  obtain ⟨_, adds, hplan, _, _, _, hsize⟩ := hadds (crateUse (.addElements elements)) elements rfl
  have hlooped : looped.1.plan = .error := by decide +kernel
  have hnoted := (hsteps (crateUse .iterate) (.inl rfl)).1
  exact ⟨by decide +kernel, ⟨adds, hplan, hsize⟩, by decide +kernel, hlooped,
    hnoted.trans (if_pos hlooped)⟩

end Registry

end ExtensionMembers
