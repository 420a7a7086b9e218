import ExtensionMembers.Compilation
import ExtensionMembers.Proofs.Build.Judgement
import ExtensionMembers.Proofs.Call.Evaluation
import ExtensionMembers.Proofs.Protocol.Completeness

/-!
# Lawful calls

An extension is judged once, when its signature is resolved; members are found on three ways, in
the tiers, through the own type of an extension, and by protocols. All three lead to valid
extensions only, so a call never has a form that judging is there to rule out: members with a
foreign function, and members of extensions of a static class, are called without a receiver.

## Main definitions

* `Operand.PassesReceiver`: an operand is something that a member can be used on.
* `CallForm.Lawful`: a call of a member of a valid extension, without a receiver where there must
  be none.

## Main results

* `Compilation.lawful_resolve`: all calls of a built compilation are lawful.
-/

namespace ExtensionMembers

/-- The operand is a temporary that holds a receiver (`TempSource.receiver`), the enumerator or the
awaiter. -/
def Operand.PassesReceiver (prelude : List Temp) : Operand → Prop
  | temp id => ∃ expr, ⟨id, .receiver expr⟩ ∈ prelude
  | sequence ids => ∃ id ∈ ids, ∃ expr, ⟨id, .receiver expr⟩ ∈ prelude
  | slot produced => produced = .enumerator ∨ produced = .awaiter
  | default _ => False

/-- If the form calls an entry point (`CallForm.target?`), then that of a member of a valid
extension; and a member with a foreign function, or of an extension of a static class, is static,
with the declared parameters, perhaps an assigned value, and no receiver (`PassesReceiver`). -/
def CallForm.Lawful (registry : Registry) (prelude : List Temp) (kind : AccessKind)
    (form : CallForm) : Prop :=
  ∀ target, form.target? = some target →
    ∃ extension ∈ registry.extensions, ∃ member ∈ extension.members,
      (∃ receiver args, form = .ofSupplied extension member kind receiver args) ∧
      extension.isValid = true ∧ target.owner = extension.hash ∧
      (member.foreign.isSome = true ∨ registry.ExtendsStaticClass extension →
        member.isStatic = true ∧
        target.params = member.params.map (·.type) ++
          (if kind.accessor? = some .set then [member.result] else []) ∧
        ∀ operand ∈ form.operands, ¬ operand.PassesReceiver prelude)

/-! ## What is found -/

namespace Registry

theorem mem_of_extension? {registry : Registry} {id : ExtensionId} {extension : Extension}
    (h : registry.extension? id = some extension) : extension ∈ registry.extensions :=
  List.mem_reverse.1 (List.mem_of_find?_eq_some h)

theorem mem_of_mem_extensionsOf {registry : Registry} {hash : TypeHash} {extension : Extension}
    (h : extension ∈ registry.extensionsOf hash) : extension ∈ registry.extensions := by
  obtain ⟨entry, _, hfound⟩ := List.mem_filterMap.1 h
  exact mem_of_extension? hfound

/-- On whatever way `resolve` finds a member, its extension is registered and valid. -/
theorem valid_of_resolve_supplied {registry : Registry} {query : MemberQuery}
    {chain : ScopeChain} {extension : Extension} {member : Member}
    (h : registry.resolve query chain = .supplied extension member) :
    extension ∈ registry.extensions ∧ extension.isValid = true := by
  unfold resolve at h
  split at h
  next qualifying hqualifying =>
    -- Asked through its own type, an extension answers only if it is valid.
    unfold resolveWithin at h
    split at h
    next hvalid =>
      split at h
      next =>
        obtain ⟨rfl, rfl⟩ := Resolution.supplied.inj h
        refine ⟨?_, hvalid⟩
        unfold qualifyingExtension? extensionOfType? at hqualifying
        split at hqualifying
        · obtain ⟨_, _, hfound⟩ := Option.bind_eq_some_iff.1 hqualifying
          exact mem_of_extension? hfound
        · cases hqualifying
      next => cases h
    next => cases h
  next =>
    split at h
    next => cases h
    next =>
      -- The answer comes from a level at which the extension is visible.
      rcases resolveInTiers_cases registry query chain with ⟨depth, _, hanswer⟩ | ⟨_, hanswer⟩
      · rw [hanswer, Resolution.ofCandidates_eq_supplied_iff] at h
        have hoffer := mem_offers_tierAt.1 (h ▸ List.mem_singleton_self (extension, member))
        exact ⟨mem_of_mem_extensionsOf hoffer.extends_receiver, hoffer.isValid⟩
      · rw [hanswer] at h
        cases h

theorem mem_members_of_resolve_supplied {registry : Registry} {query : MemberQuery}
    {chain : ScopeChain} {extension : Extension} {member : Member}
    (h : registry.resolve query chain = .supplied extension member) :
    member ∈ extension.members :=
  List.mem_of_find?_eq_some (member?_of_resolve_supplied h)

/-- Under `Holds`, a member that must be static is static, if its extension is valid. -/
theorem Holds.isStatic_of_isValid {registry : Registry} {scopes : List PlacedScope}
    {declared : List Declared} (h : registry.Holds scopes declared) {extension : Extension}
    (hin : extension ∈ registry.extensions) (hvalid : extension.isValid = true) {member : Member}
    (hmember : member ∈ extension.members)
    (hmust : member.foreign.isSome = true ∨ registry.ExtendsStaticClass extension) :
    member.isStatic = true := by
  have hkeeps := (h.isValid_iff hin).1 hvalid
  rcases hmust with hforeign | hstatic
  · exact hkeeps.isStatic_of_foreign member hmember hforeign
  · exact hkeeps.isStatic_of_isStaticOnly ((h.isStaticOnly_iff hin).2 hstatic) member hmember

end Registry

/-! ## Lawful forms -/

/-- A form that calls no entry point (`CallForm.target?`) is `Lawful`. -/
theorem CallForm.lawful_of_target? {registry : Registry} {prelude : List Temp} {kind : AccessKind}
    {form : CallForm} (h : form.target? = none) : form.Lawful registry prelude kind := by
  intro target htarget
  rw [h] at htarget
  cases htarget

/-- `CallForm.ofSupplied` calls the entry point of the member, whatever the use. -/
theorem CallForm.target?_ofSupplied (extension : Extension) (member : Member) (kind : AccessKind)
    (receiver : Option Operand) (args : List Operand) :
    (ofSupplied extension member kind receiver args).target? =
      some (.ofMember extension member kind) := by
  by_cases hkind : kind = .methodGroup
  · simp [ofSupplied, hkind, target?]
  · cases hforeign : member.foreign <;> simp [ofSupplied, hkind, hforeign, target?]

/-- `CallForm.ofSupplied` on a member of a valid extension is `Lawful` if it passes no receiver
where the member is static, and if the member is static where it must be. -/
theorem CallForm.lawful_ofSupplied {registry : Registry} {prelude : List Temp} {kind : AccessKind}
    {extension : Extension} {member : Member} {receiver : Option Operand} {args : List Operand}
    (hin : extension ∈ registry.extensions) (hvalid : extension.isValid = true)
    (hmember : member ∈ extension.members)
    (hmust : member.foreign.isSome = true ∨ registry.ExtendsStaticClass extension →
      member.isStatic = true)
    (hargs : member.isStatic = true → ∀ operand ∈ args, ¬ operand.PassesReceiver prelude) :
    (CallForm.ofSupplied extension member kind receiver args).Lawful registry prelude kind := by
  intro target htarget
  rw [target?_ofSupplied] at htarget
  obtain rfl := Option.some.inj htarget
  refine ⟨extension, hin, member, hmember, ⟨receiver, args, rfl⟩, hvalid, rfl, fun h => ?_⟩
  have hstatic := hmust h
  refine ⟨hstatic, by simp [CallTarget.ofMember, hstatic], fun operand hoperand => ?_⟩
  -- A static member has no receiver, and a delegate of it nothing at all.
  unfold ofSupplied at hoperand
  rw [if_pos hstatic] at hoperand
  dsimp only at hoperand
  split at hoperand
  · cases hoperand
  · split at hoperand <;> exact hargs hstatic operand hoperand

/-- The prelude of a use through a type (`Access.isStatic`) evaluates no receiver. -/
theorem AccessSite.receiver_notMem_prelude {site : AccessSite} (h : site.access.isStatic = true)
    (id : TempId) (expr : ExprId) : ⟨id, .receiver expr⟩ ∉ prelude site.sources := by
  intro hin
  have hreceiver : site.access.receiver? = none := by
    cases haccess : site.access with
    | onValue receiver type =>
      rw [haccess] at h
      cases h
    | onType qualifier => rfl
  have hsource : TempSource.receiver expr ∈ site.sources := by
    rw [← map_source_prelude site.sources]
    exact List.mem_map_of_mem hin
  simp [sources, hreceiver, argumentSources] at hsource

/-- `Member.operands` passes no value of a protocol (`ProtocolSlot`). -/
theorem Member.ne_slot_of_operands {member : Member} {site : AccessSite} {operands : List Operand}
    (h : member.operands site = .ok operands) {operand : Operand} (hin : operand ∈ operands)
    (slot : ProtocolSlot) : operand ≠ .slot slot := by
  unfold Member.operands at h
  split at h
  · obtain rfl := Except.ok.inj h
    cases hin
  · obtain ⟨slots, _, hslots⟩ := bind_eq_ok_iff.1 h
    obtain rfl := Except.ok.inj hslots
    obtain ⟨bound, _, rfl⟩ := List.mem_map.1 hin
    cases bound <;> simp [BoundSlot.operand]

/-- Nothing that is passed where a member is used through a type is a receiver
(`PassesReceiver`). -/
theorem Member.not_passesReceiver {member : Member} {site : AccessSite} {operands : List Operand}
    (haccess : site.access.isStatic = true) (hoperands : member.operands site = .ok operands)
    {operand : Operand} (hin : operand ∈ operands ++ site.assignedOperand?.toList) :
    ¬ operand.PassesReceiver (prelude site.sources) := by
  -- No temporary holds a receiver, and the values of a protocol are never written by a use.
  have hnone := AccessSite.receiver_notMem_prelude haccess
  cases operand with
  | temp id => exact fun ⟨expr, hin⟩ => hnone id expr hin
  | sequence ids => exact fun ⟨id, _, expr, hin⟩ => hnone id expr hin
  | default value => exact id
  | slot produced =>
    rcases List.mem_append.1 hin with hin | hassigned
    · exact absurd rfl (Member.ne_slot_of_operands hoperands hin produced)
    · unfold AccessSite.assignedOperand? at hassigned
      simp at hassigned

namespace Registry

variable {registry : Registry} {scopes : List PlacedScope} {declared : List Declared}
  (h : registry.Holds scopes declared)

include h

/-- The form that `lowerSite` gives is `Lawful`. -/
theorem lawful_lowerSite (site : AccessSite) :
    (registry.lowerSite site).1.form.Lawful registry (registry.lowerSite site).1.prelude
      site.shape.kind := by
  have hprelude : (registry.lowerSite site).1.prelude = prelude site.sources :=
    prelude_lowerAccess registry site _
  by_cases herror : (registry.lowerSite site).1.form = .error
  · exact CallForm.lawful_of_target? (congrArg CallForm.target? herror)
  · obtain ⟨member, operands, hfound, _, hoperands, hform⟩ :=
      formOf_eq_ok_iff.1 (formOf_of_lowerAccess herror)
    rw [hprelude, show (registry.lowerSite site).1.form = _ from hform]
    cases hanswer : registry.resolve (.ofSite site) (registry.chain site.scope) with
    | declared owner found => exact CallForm.lawful_of_target? rfl
    | ambiguous candidates => exact CallForm.lawful_of_target? rfl
    | notFound => exact CallForm.lawful_of_target? rfl
    | supplied extension found =>
      rw [hanswer] at hfound
      obtain rfl := Option.some.inj hfound
      obtain ⟨hin, hvalid⟩ := valid_of_resolve_supplied hanswer
      have hmember := mem_members_of_resolve_supplied hanswer
      refine CallForm.lawful_ofSupplied hin hvalid hmember
        (h.isStatic_of_isValid hin hvalid hmember) fun hstatic operand hoperand => ?_
      -- A static member is reached through a type.
      have haccess : site.access.isStatic = true := by
        have hwanted := (wants_of_resolve_supplied hanswer).2.2
        rw [hstatic] at hwanted
        exact hwanted.symm
      exact Member.not_passesReceiver haccess hoperands hoperand

/-- `CallForm.ofResolution` on an instance member is `Lawful`, whatever is passed: where members
must be static, `resolve` finds none. -/
theorem lawful_ofResolution {query : MemberQuery} (hquery : query.isStatic = false)
    (chain : ScopeChain) (prelude : List Temp) (kind : AccessKind) (receiver : Option Operand)
    (args : List Operand) :
    (CallForm.ofResolution kind receiver args (registry.resolve query chain)).Lawful registry
      prelude kind := by
  cases hanswer : registry.resolve query chain with
  | declared owner member => exact CallForm.lawful_of_target? rfl
  | ambiguous candidates => exact CallForm.lawful_of_target? rfl
  | notFound => exact CallForm.lawful_of_target? rfl
  | supplied extension member =>
    obtain ⟨hin, hvalid⟩ := valid_of_resolve_supplied hanswer
    have hmember := mem_members_of_resolve_supplied hanswer
    refine CallForm.lawful_ofSupplied hin hvalid hmember
      (h.isStatic_of_isValid hin hvalid hmember) fun hstatic => ?_
    -- A query for an instance member never finds a static one.
    have hwanted := (wants_of_resolve_supplied hanswer).2.2
    rw [hstatic, hquery] at hwanted
    cases hwanted

/-- The forms that `lowerSteps` gives for a loop or a wait are `Lawful`. -/
theorem lawful_lowerSteps {site : ProtocolSite} {protocol : Protocol}
    (hprotocol : site.construct.protocol? = some protocol) (prelude : List Temp) :
    ∀ form ∈ (registry.lowerProtocol site).1.plan.forms, ∃ kind : AccessKind,
      kind.accessor? ≠ some .set ∧ form.Lawful registry prelude kind := by
  by_cases herror : (registry.lowerProtocol site).1.plan = .error
  · rw [herror]
    exact List.forall_mem_nil _
  · obtain ⟨found, hfound, hplan⟩ := plan_lowerProtocol hprotocol herror
    -- Every step is called as the resolution found for it says.
    have hsteps := foundFor_of_discover hfound
    rw [hplan, ProtocolMatch.forms_plan hsteps]
    intro form hform
    obtain ⟨step, hstep, rfl⟩ := List.mem_map.1 hform
    refine ⟨step.step.kind, ?_, ?_⟩
    · unfold ProtocolStep.kind
      split <;> simp [AccessKind.accessor?]
    · rw [FoundStep.form, hsteps.resolution_eq step hstep]
      exact lawful_ofResolution h rfl _ _ _ _ _

/-- The forms that `lowerProtocol` gives are `Lawful`, and none assigns anything. -/
theorem lawful_lowerProtocol (site : ProtocolSite) :
    ∀ form ∈ (registry.lowerProtocol site).1.plan.forms, ∃ kind : AccessKind,
      kind.accessor? ≠ some .set ∧
        form.Lawful registry (registry.lowerProtocol site).1.prelude kind := by
  cases hconstruct : site.construct with
  | iterate => exact lawful_lowerSteps h (by rw [hconstruct]; rfl) _
  | await => exact lawful_lowerSteps h (by rw [hconstruct]; rfl) _
  | addElements elements =>
    -- Each element is added by a call of its own.
    have hplan : (registry.lowerProtocol site).1.plan =
        .addElements (((withStarts 1 elements).map (registry.lowerAdd site)).map (·.1)) := by
      simp [lowerProtocol, planOf, hconstruct]
    rw [hplan]
    intro form hform
    obtain ⟨_, hadd, rfl⟩ := List.mem_map.1 hform
    obtain ⟨element, _, rfl⟩ := List.mem_map.1 hadd
    refine ⟨.invoke, by simp [AccessKind.accessor?], ?_⟩
    unfold lowerAdd addForm
    dsimp only
    cases hmember : (registry.resolve (.ofSite (site.addSite element.1))
      (registry.chain site.scope)).member? with
    | none => exact CallForm.lawful_of_target? rfl
    | some member =>
      dsimp only
      cases bind member.params (site.addSite element.1).shape.args
        (site.addSite element.1).span with
      | error fault => exact CallForm.lawful_of_target? rfl
      | ok slots => exact lawful_ofResolution h rfl _ _ _ _ _

end Registry

/-! ## Built compilations -/

namespace Compilation

/-- `addFile` adds files with distinct numbers one by one. -/
theorem foldlM_addFile {files : List SourceFile} (compilation : Compilation)
    (hopen : compilation.isBuilt = false)
    (hids : ((compilation.files ++ files).map (·.id)).Nodup) :
    files.foldlM addFile compilation =
      .ok { compilation with files := compilation.files ++ files } := by
  induction files generalizing compilation with
  | nil => simp [pure, Except.pure]
  | cons file rest ih =>
    have hnew : file.id ∉ compilation.files.map (·.id) := by
      rw [List.map_append, List.nodup_append] at hids
      intro hin
      exact hids.2.2 _ hin _ (by simp) rfl
    have hadd : compilation.addFile file =
        .ok { compilation with files := compilation.files ++ [file] } := by
      unfold addFile
      rw [if_neg (by simp [hopen]), if_neg hnew]
    rw [List.foldlM_cons, hadd]
    refine (ih { compilation with files := compilation.files ++ [file] } hopen ?_).trans ?_
    · simpa using hids
    · simp

/-- `ofFiles` succeeds on files with distinct numbers, and what is built is what `assemble` makes of
them. -/
theorem ofFiles_eq {files : List SourceFile} (hids : (files.map (·.id)).Nodup)
    (options : Options) :
    ofFiles files options = .ok ⟨options, files, some (assemble files options).registry,
      (empty options).arrange (assemble files options).report⟩ := by
  rw [ofFiles, foldlM_addFile (empty options) rfl hids]
  rfl

/-- `ofFiles` succeeds on files with distinct numbers. -/
theorem ofFiles_eq_ok {files : List SourceFile} (hids : (files.map (·.id)).Nodup)
    (options : Options) :
    ∃ compilation, ofFiles files options = .ok compilation ∧
      compilation.registry = some (assemble files options).registry :=
  ⟨_, ofFiles_eq hids options, rfl⟩

/-- In a built compilation every call of an entry point that `resolve` or `resolveProtocols` gives
is a call of a member of a valid extension; and a member with a foreign function, or of an extension
of a static class, is static and gets no receiver (`Lawful`). -/
theorem lawful_resolve {files : List SourceFile} (hids : (files.map (·.id)).Nodup)
    (options : Options) :
    ∃ compilation registry, ofFiles files options = .ok compilation ∧
      compilation.registry = some registry ∧
      (∀ sites, ∃ lowered report, compilation.resolve sites = .ok (lowered, report) ∧
        List.Forall₂ (fun site lowered =>
          lowered.form.Lawful registry lowered.prelude site.shape.kind) sites lowered) ∧
      ∀ sites, ∃ lowered report, compilation.resolveProtocols sites = .ok (lowered, report) ∧
        List.Forall₂ (fun _ lowered => ∀ form ∈ lowered.plan.forms, ∃ kind : AccessKind,
          kind.accessor? ≠ some .set ∧ form.Lawful registry lowered.prelude kind)
          sites lowered := by
  obtain ⟨compilation, hfiles, hregistry⟩ := ofFiles_eq_ok hids options
  -- Everything that is lowered is lowered in the one finished registry.
  have hholds := Registry.holds_assemble hids options
  generalize (assemble files options).registry = registry at hregistry hholds
  have hbuilt : compilation.built = .ok registry := by rw [built, hregistry]
  refine ⟨compilation, registry, hfiles, hregistry, fun sites => ?_, fun sites => ?_⟩
  · refine ⟨(registry.lowerSites sites).1, compilation.arrange (registry.lowerSites sites).2,
      by rw [resolve, hbuilt]; rfl, ?_⟩
    rw [Registry.lowerSites, List.forall₂_map_right_iff, List.forall₂_map_right_iff,
      List.forall₂_same]
    exact fun site _ => Registry.lawful_lowerSite hholds site
  · refine ⟨(registry.lowerProtocols sites).1,
      compilation.arrange (registry.lowerProtocols sites).2,
      by rw [resolveProtocols, hbuilt]; rfl, ?_⟩
    rw [Registry.lowerProtocols, List.forall₂_map_right_iff, List.forall₂_map_right_iff,
      List.forall₂_same]
    exact fun site _ => Registry.lawful_lowerProtocol hholds site

/-- A class and a static class, each with an extension, one of them with a foreign function. -/
def storeFile : SourceFile where
  id := ⟨0⟩
  name := "store"
  items :=
    [.type ⟨.plainClass, "Store", none, [], .unplaced⟩,
      .type ⟨.staticClass, "Paths", none, [], .unplaced⟩,
      .extension ⟨"StoreFiles", some (.parse "Store"), [],
        [{ toStore with foreign := some ⟨"libstore", none⟩ }], .unplaced⟩,
      .extension ⟨"PathNames", some (.parse "Paths"), [], [toStore], .unplaced⟩]
where
  toStore : WrittenMember :=
    { (default : WrittenMember) with
      name := "Open"
      isStatic := true
      params := [⟨"path", .parse "string", none, false, false⟩]
      result := some (.parse "int") }

/-- The call of a static member of a type, with one argument. -/
def openCall (type : String) : AccessSite where
  id := ⟨0⟩
  span := .unplaced
  scope := ⟨0⟩
  access := .onType (QualifiedName.global type).hash
  member := "Open"
  shape := .invoke [⟨none, ⟨7⟩, .unplaced⟩]

/-- In `storeFile` the foreign function and the member of the extension of the static class are
called with the argument alone. -/
theorem lawful_resolve_store :
    let lowered := (assemble [storeFile] .standard).registry.lowerSites
      [openCall "Store", openCall "PathNames"]
    ([storeFile].map (·.id)).Nodup ∧
      lowered.1.map (fun lowered => (lowered.form.operands, lowered.form.target?.map (·.params))) =
        List.replicate 2 ([.temp ⟨0⟩], some [.named (QualifiedName.global "string").hash]) ∧
      ∃ compilation registry, ofFiles [storeFile] .standard = .ok compilation ∧
        compilation.registry = some registry ∧
        ∃ lowered report, compilation.resolve [openCall "Store", openCall "PathNames"] =
            .ok (lowered, report) ∧
          List.Forall₂ (fun site lowered =>
            lowered.form.Lawful registry lowered.prelude site.shape.kind)
            [openCall "Store", openCall "PathNames"] lowered := by
  intro lowered
  have hids : ([storeFile].map (·.id)).Nodup := List.nodup_singleton _
  refine ⟨hids, by decide +kernel, ?_⟩
  obtain ⟨compilation, registry, hfiles, hregistry, hsites, _⟩ := lawful_resolve hids .standard
  exact ⟨compilation, registry, hfiles, hregistry, hsites _⟩

end Compilation

end ExtensionMembers
