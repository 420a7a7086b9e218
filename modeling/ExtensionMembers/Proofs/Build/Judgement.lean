import ExtensionMembers.Proofs.Build.Completion
import Mathlib.Algebra.GroupWithZero.Nat

/-!
# Judged extensions

An extension is judged in the middle of the build, when its own signature is resolved and others may
not be. Judging reads the kinds of types alone, and these are settled by then. So the verdict is
right for the finished registry: an extension is valid exactly if it keeps the rules, and each rule
that it breaks is noted once, under its name.

## Main definitions

* `Registry.ExtendsLegally`, `Registry.ExtendsStaticClass`: what the extended type is.
* `Registry.KeepsRules`: the rules for extensions.
* `Registry.violations`: how often an extension breaks a rule.
* `Report.brokenRules`: how often a report says that an extension breaks a rule.

## Main results

* `Registry.length_extensionFaults`: the faults of an extension are its violations, one by one.
* `report_assemble`: everything that a build notes.
* `assemble_judges_extensions`: verdicts and notes of a build agree with the rules.
-/

namespace ExtensionMembers

/-! ## The rules -/

/-- The extended type is registered, and neither a `TypeKind.delegate` nor a
`TypeKind.extension`. -/
def Registry.ExtendsLegally (registry : Registry) (extension : Extension) : Prop :=
  ∃ hash type, extension.extended = some (.named hash) ∧ registry.type? hash = some type ∧
    type.kind ≠ .delegate ∧ type.kind ≠ .extension

/-- The extended type is a class with static members only, `TypeKind.staticClass`. -/
def Registry.ExtendsStaticClass (registry : Registry) (extension : Extension) : Prop :=
  ∃ hash type, extension.extended = some (.named hash) ∧ registry.type? hash = some type ∧
    type.kind = .staticClass

/-- The first parameter is marked as the receiver (`Param.isReceiver`). -/
def Member.DeclaresReceiver (member : Member) : Prop :=
  ∃ first ∈ member.params.head?, first.isReceiver = true

/-- The extension breaks no rule of the specification (§4.6), the ones that `violations` counts. -/
structure Registry.KeepsRules (registry : Registry) (extension : Extension) : Prop where
  extendsLegally : registry.ExtendsLegally extension
  not_declaresReceiver : ∀ member ∈ extension.members, ¬ member.DeclaresReceiver
  isStatic_of_foreign : ∀ member ∈ extension.members, member.foreign.isSome = true →
    member.isStatic = true
  isStatic_of_isStaticOnly : extension.isStaticOnly = true → ∀ member ∈ extension.members,
    member.isStatic = true

instance (registry : Registry) (extension : Extension) :
    Decidable (registry.ExtendsLegally extension) :=
  decidable_of_iff ((extension.extendedHash?.bind registry.type?).any fun type =>
      type.kind ≠ .delegate ∧ type.kind ≠ .extension) <| by
    unfold Registry.ExtendsLegally Extension.extendedHash?
    rcases extension.extended with _ | (_ | hash | _ | _ | _ | _ | _) <;>
      simp [TypeRef.namedHash?, Option.any_eq_true]

theorem Member.any_isReceiver_iff (member : Member) :
    member.params.head?.any (·.isReceiver) = true ↔ member.DeclaresReceiver := by
  simp [DeclaresReceiver, Option.any_eq_true]

instance (member : Member) : Decidable member.DeclaresReceiver :=
  decidable_of_iff _ member.any_isReceiver_iff

/-- The number of rules that a member of an extension breaks: it may declare a receiver
(`DeclaresReceiver`), and it may be an instance member where only static ones are allowed. -/
def Extension.violationsBy (extension : Extension) (member : Member) : Nat :=
  (if member.DeclaresReceiver then 1 else 0) +
    if member.isStatic = false ∧ (member.foreign.isSome = true ∨ extension.isStaticOnly = true)
      then 1 else 0

/-- The number of times that an extension breaks a rule: on its extended type, and by its members
(`Extension.violationsBy`). -/
def Registry.violations (registry : Registry) (extension : Extension) : Nat :=
  (if registry.ExtendsLegally extension then 0 else 1) +
    (extension.members.map extension.violationsBy).sum

/-! ## Faults and violations -/

theorem Extension.length_memberFaults (extension : Extension) (member : Member) :
    (extension.memberFaults member).length = extension.violationsBy member := by
  have hreceiver : member.receiverCause?.toList.length =
      if member.DeclaresReceiver then 1 else 0 := by
    rw [Member.receiverCause?, if_congr member.any_isReceiver_iff rfl rfl]
    split <;> rfl
  have hinstance : (member.instanceCause? extension.isStaticOnly).toList.length =
      if member.isStatic = false ∧ (member.foreign.isSome = true ∨ extension.isStaticOnly = true)
        then 1 else 0 := by
    unfold Member.instanceCause?
    cases member.isStatic <;> cases member.foreign <;> cases extension.isStaticOnly <;> simp
  rw [memberFaults, List.length_map, List.length_append, hreceiver, hinstance, violationsBy]

theorem Extension.violationsBy_eq_zero_iff {extension : Extension} {member : Member} :
    extension.violationsBy member = 0 ↔ ¬ member.DeclaresReceiver ∧
      (member.foreign.isSome = true ∨ extension.isStaticOnly = true → member.isStatic = true) := by
  unfold violationsBy
  by_cases hreceiver : member.DeclaresReceiver <;> cases member.isStatic <;> simp [hreceiver]

namespace Registry

variable {registry : Registry} {extension : Extension}

/-- An extension has no `violations` exactly if `KeepsRules` holds of it. -/
theorem violations_eq_zero_iff :
    registry.violations extension = 0 ↔ registry.KeepsRules extension := by
  have hlegal : (if registry.ExtendsLegally extension then 0 else 1) = 0 ↔
      registry.ExtendsLegally extension := by
    split <;> simp [*]
  rw [violations, Nat.add_eq_zero_iff, hlegal, List.sum_eq_zero_iff_forall_eq_nat,
    List.forall_mem_map]
  simp only [Extension.violationsBy_eq_zero_iff]
  constructor
  · rintro ⟨hextends, hmembers⟩
    exact ⟨hextends, fun member hin => (hmembers member hin).1,
      fun member hin hforeign => (hmembers member hin).2 (.inl hforeign),
      fun hstaticOnly member hin => (hmembers member hin).2 (.inr hstaticOnly)⟩
  · rintro ⟨hextends, hreceiver, hforeign, hstaticOnly⟩
    exact ⟨hextends, fun member hin => ⟨hreceiver member hin, fun hmust =>
      hmust.elim (hforeign member hin) (hstaticOnly · member hin)⟩⟩

/-- `targetCause?` finds something wrong with an extended type unless `ExtendsLegally` holds. Types
that are not registered are passed over, so this is not so where one of them is extended. -/
theorem targetCause?_eq_none_iff
    (hregistered : ∀ hash, extension.extended = some (.named hash) →
      registry.containsType hash = true) :
    registry.targetCause? extension.extended = none ↔ registry.ExtendsLegally extension := by
  unfold ExtendsLegally
  rcases hextended : extension.extended with _ | (_ | hash | _ | _ | _ | _ | ⟨_, _ | _⟩) <;>
    simp only [targetCause?, reduceCtorEq, false_and, exists_const, Option.some.injEq]
  -- What is left is a named type; its kind decides.
  have hcontains : (registry.type? hash).isSome := hregistered hash hextended
  obtain ⟨type, htype⟩ := Option.isSome_iff_exists.1 hcontains
  rw [htype, Option.bind_some, NamedType.extensionCause?]
  constructor
  · intro hcause
    refine ⟨hash, type, rfl, htype, ?_, ?_⟩ <;> intro hkind <;> simp [hkind] at hcause
  · rintro ⟨other, found, hother, hfound, hdelegate, hextension⟩
    obtain rfl := TypeRef.named.inj hother
    obtain rfl := Option.some.inj (htype.symm.trans hfound)
    split <;> simp_all

/-- The `extensionFaults` of an extension are its `violations`, one by one. -/
theorem length_extensionFaults
    (hregistered : ∀ hash, extension.extended = some (.named hash) →
      registry.containsType hash = true) :
    (registry.extensionFaults extension).length = registry.violations extension := by
  have htarget : (registry.targetCause? extension.extended).toList.length =
      if registry.ExtendsLegally extension then 0 else 1 := by
    rw [if_congr (targetCause?_eq_none_iff hregistered).symm rfl rfl]
    cases registry.targetCause? extension.extended <;> simp
  rw [extensionFaults, List.length_append, List.length_map, htarget, List.length_flatMap,
    violations]
  simp only [Extension.length_memberFaults]

/-! ## Verdicts -/

namespace Holds

variable {scopes : List PlacedScope} {declared : List Declared}
  (h : registry.Holds scopes declared) (hin : extension ∈ registry.extensions)

include h hin

/-- Under `Holds`, an extension is a declared one, signed and judged. -/
theorem exists_signed : ∃ id name scope declaration,
    extension = { Assembly.signExtension registry declaration
        (.declared id name scope declaration.span) with
      isValid := (registry.extensionFaults extension).isEmpty } := by
  rw [h.extensions_eq] at hin
  obtain ⟨next, _, hfinished⟩ := List.mem_filterMap.1 hin
  cases next with
  | type => cases hfinished
  | extension id name scope declaration =>
    obtain rfl := Option.some.inj hfinished
    -- The mark for the verdict is not read by the verdict.
    exact ⟨id, name, scope, declaration, rfl⟩

/-- Under `Holds`, extended types are registered: they are found by name. -/
theorem containsType_of_extended {hash : TypeHash}
    (hextended : extension.extended = some (.named hash)) :
    registry.containsType hash = true := by
  obtain ⟨id, name, scope, declaration, hsigned⟩ := h.exists_signed hin
  rw [hsigned] at hextended
  obtain ⟨written, _, hwritten⟩ := Option.map_eq_some_iff.1 hextended
  obtain ⟨space, simple, hfound⟩ :=
    NamespaceTree.exists_typeIn?_of_typeRef (congrArg TypeRef.namedHash? hwritten)
  exact h.containsType_of_typeIn? hfound

/-- Under `Holds`, an extension is valid exactly if `KeepsRules` holds of it. -/
theorem isValid_iff : extension.isValid = true ↔ registry.KeepsRules extension := by
  have hregistered : ∀ hash, extension.extended = some (.named hash) →
      registry.containsType hash = true := fun _ => h.containsType_of_extended hin
  obtain ⟨id, name, scope, declaration, hsigned⟩ := h.exists_signed hin
  have hvalid : extension.isValid = (registry.extensionFaults extension).isEmpty :=
    congrArg Extension.isValid hsigned
  rw [hvalid, List.isEmpty_iff, ← List.length_eq_zero_iff,
    length_extensionFaults hregistered, violations_eq_zero_iff]

/-- Under `Holds`, an extension can have static members only exactly if `ExtendsStaticClass` holds
of it. -/
theorem isStaticOnly_iff :
    extension.isStaticOnly = true ↔ registry.ExtendsStaticClass extension := by
  obtain ⟨id, name, scope, declaration, hsigned⟩ := h.exists_signed hin
  have hstaticOnly : extension.isStaticOnly =
      ((extension.extended.bind (·.namedHash?)).bind registry.type?).any (·.isStaticOnly) := by
    rw [hsigned]
    rfl
  rw [hstaticOnly, ExtendsStaticClass]
  rcases extension.extended with _ | (_ | hash | _ | _ | _ | _ | _) <;>
    simp [TypeRef.namedHash?, Option.any_eq_true, NamedType.isStaticOnly]

omit hin in
/-- Under `Holds`, no two extensions have the same name, if no two declarations have. -/
theorem nodup_name (hnames : (declared.map (·.name)).Nodup) :
    (registry.extensions.map (·.name)).Nodup := by
  have hname : ∀ next finished, Declared.finished? registry next = some finished →
      finished.name = next.name := by
    intro next finished hfinished
    cases next with
    | type => cases hfinished
    | extension => rw [← Option.some.inj hfinished]; rfl
  rw [h.extensions_eq]
  exact hnames.sublist (map_filterMap_sublist hname declared)

end Holds

end Registry

/-! ## Notes -/

/-- The kinds of the rules for extensions, those that `ExtensionFault.kind` gives. -/
def DiagnosticKind.isBrokenRule : DiagnosticKind → Bool
  | extendedTypeInvalid | extendedTypeMissing | receiverDeclared | instanceInStaticOnly
  | foreignInstance => true
  | memberAmbiguous | memberNotFound | argumentMismatch | accessorMissing | duplicateDeclaration
  | memberHidden => false

/-- Whether the note says that the extension with a name breaks a rule
(`DiagnosticKind.isBrokenRule`). -/
def Diagnostic.accuses (name : QualifiedName) (note : Diagnostic) : Bool :=
  note.kind.isBrokenRule && decide (name ∈ note.extensions)

/-- The number of times that a report says that the extension with a name breaks a rule
(`Diagnostic.accuses`). -/
def Report.brokenRules (report : Report) (name : QualifiedName) : Nat :=
  report.entries.countP (·.accuses name)

theorem ExtensionFault.isBrokenRule_kind (fault : ExtensionFault) :
    fault.diagnostic.kind.isBrokenRule = true := by
  obtain ⟨_, _, cause⟩ := fault
  cases cause <;> rfl

/-- The `extensionFaults` of an extension bear its name. -/
theorem Registry.extension_of_mem_extensionFaults {registry : Registry} {extension : Extension}
    {fault : ExtensionFault} (h : fault ∈ registry.extensionFaults extension) :
    fault.extension = extension.name := by
  rcases List.mem_append.1 h with h | h
  · obtain ⟨cause, _, rfl⟩ := List.mem_map.1 h
    rfl
  · obtain ⟨member, _, hmember⟩ := List.mem_flatMap.1 h
    obtain ⟨cause, _, rfl⟩ := List.mem_map.1 hmember
    rfl

namespace Assembly

/-- Nothing is judged so far (`Assembly.invalid`), and nothing noted but names that were taken. -/
structure Unjudged (assembly : Assembly) : Prop where
  invalid_eq : assembly.invalid = 0
  kind_eq : ∀ note ∈ assembly.report.entries, note.kind = .duplicateDeclaration

theorem unjudged_declareFiles (files : List SourceFile) : (declareFiles files).Unjudged := by
  have hrecords := records_declareFiles files
  refine ⟨hrecords.invalid_eq, ?_⟩
  rw [hrecords.report_eq, List.forall_mem_map]
  exact fun _ _ => rfl

end Assembly

/-- `assemble` notes the names that are taken, then the broken rules (`Registry.faultNotes`),
extension by extension, then the hidden members if asked to; and it counts the extensions that are
not valid. -/
theorem report_assemble {files : List SourceFile} (hids : (files.map (·.id)).Nodup)
    (options : Options) :
    let assembly := assemble files options
    let registry := assembly.registry
    assembly.report.entries = (Assembly.declareFiles files).report.entries ++
        registry.extensions.flatMap registry.faultNotes ++
        (if options.notesHidden then (Assembly.hiddenNotes registry).entries else []) ∧
      assembly.invalid = registry.extensions.countP (!·.isValid) := by
  obtain ⟨types, _, hcomplete⟩ := Registry.complete_eq (Assembly.records_declareFiles files)
    (Registry.nodup_id_declaredOf hids)
  have hinvalid := (Assembly.unjudged_declareFiles files).invalid_eq
  dsimp only at hcomplete ⊢
  rw [assemble, hcomplete]
  refine ⟨?_, ?_⟩
  · simp only [Assembly.judged, Assembly.finish]
    split
    · rfl
    · rw [List.append_nil]
      rfl
  · show (Assembly.declareFiles files).invalid + _ = _
    rw [hinvalid, Nat.zero_add]
    rfl

theorem countP_accuses_eq_zero {notes : List Diagnostic}
    (h : ∀ note ∈ notes, note.kind.isBrokenRule = false) (name : QualifiedName) :
    notes.countP (·.accuses name) = 0 := by
  refine List.countP_eq_zero.2 fun note hnote => ?_
  rw [Diagnostic.accuses, h note hnote, Bool.false_and]
  exact Bool.false_ne_true

theorem kind_of_mem_hiddenNotes {registry : Registry} {note : Diagnostic}
    (h : note ∈ (Assembly.hiddenNotes registry).entries) : note.kind = .memberHidden := by
  obtain ⟨extension, _, hnote⟩ := List.mem_flatMap.1 h
  obtain ⟨member, _, rfl⟩ := List.mem_map.1 hnote
  rfl

/-- Every one of the `faultNotes` on an extension accuses that extension, and none an extension of
another name. -/
theorem countP_faultNotes (registry : Registry) (extension : Extension) (name : QualifiedName) :
    (registry.faultNotes extension).countP (·.accuses name) =
      if extension.name = name then (registry.extensionFaults extension).length else 0 := by
  have haccuses : ∀ fault ∈ registry.extensionFaults extension,
      fault.diagnostic.accuses name = decide (extension.name = name) := by
    intro fault hfault
    rw [Diagnostic.accuses, fault.isBrokenRule_kind, Bool.true_and, ExtensionFault.diagnostic,
      Registry.extension_of_mem_extensionFaults hfault]
    simp [eq_comm]
  rw [Registry.faultNotes, List.countP_map, List.countP_congr fun fault hfault => by
    rw [Function.comp_apply, haccuses fault hfault]]
  split <;> simp [*]

/-- The `faultNotes` on several extensions that accuse one of them are its own, if names are
distinct. -/
theorem countP_flatMap_faultNotes {registry : Registry} {extensions : List Extension}
    (hnames : (extensions.map (·.name)).Nodup) {extension : Extension}
    (hin : extension ∈ extensions) :
    (extensions.flatMap registry.faultNotes).countP (·.accuses extension.name) =
      (registry.extensionFaults extension).length := by
  obtain ⟨before, after, rfl⟩ := List.append_of_mem hin
  -- The notes on the extensions before and after it accuse others.
  have hothers : ∀ others : List Extension, (∀ other ∈ others, other.name ≠ extension.name) →
      (others.flatMap registry.faultNotes).countP (·.accuses extension.name) = 0 := by
    intro others hne
    rw [List.countP_flatMap, List.sum_eq_zero_iff_forall_eq_nat, List.forall_mem_map]
    intro other hother
    rw [Function.comp_apply, countP_faultNotes, if_neg (hne other hother)]
  rw [List.map_append, List.map_cons, List.nodup_append, List.nodup_cons] at hnames
  obtain ⟨_, ⟨hafter, _⟩, hbefore⟩ := hnames
  rw [List.flatMap_append, List.flatMap_cons, List.countP_append, List.countP_append,
    hothers before, hothers after, countP_faultNotes, if_pos rfl]
  · simp
  · exact fun other hother heq => hafter (heq ▸ List.mem_map_of_mem hother)
  · exact fun other hother => hbefore _ (List.mem_map_of_mem hother) _ List.mem_cons_self

/-- In the registry that `assemble` makes, an extension is valid exactly if it keeps the rules
(`KeepsRules`), and can have static members only exactly if it extends a class that can
(`ExtendsStaticClass`). A build notes as many broken rules under the name of an extension
(`Report.brokenRules`) as it breaks (`violations`), and counts the extensions that are not valid. -/
theorem assemble_judges_extensions {files : List SourceFile} (hids : (files.map (·.id)).Nodup)
    (options : Options) :
    let assembly := assemble files options
    let registry := assembly.registry
    (∀ extension ∈ registry.extensions,
      (extension.isValid = true ↔ registry.KeepsRules extension) ∧
      (extension.isStaticOnly = true ↔ registry.ExtendsStaticClass extension) ∧
      assembly.report.brokenRules extension.name = registry.violations extension) ∧
    assembly.invalid = registry.extensions.countP (!·.isValid) := by
  obtain ⟨hreport, hinvalid⟩ := report_assemble hids options
  have hholds := Registry.holds_assemble hids options
  have hdeclared := (Assembly.unjudged_declareFiles files).kind_eq
  dsimp only at hreport hinvalid ⊢
  refine ⟨fun extension hin => ⟨hholds.isValid_iff hin, hholds.isStaticOnly_iff hin, ?_⟩, hinvalid⟩
  -- Neither names that are taken nor hidden members are broken rules.
  have hbefore := countP_accuses_eq_zero (fun note hnote => by rw [hdeclared note hnote]; rfl)
    extension.name
  have hafter : (if options.notesHidden then
      (Assembly.hiddenNotes (assemble files options).registry).entries else []).countP
        (·.accuses extension.name) = 0 := by
    refine countP_accuses_eq_zero (fun note hnote => ?_) extension.name
    split at hnote
    · rw [kind_of_mem_hiddenNotes hnote]
      rfl
    · cases hnote
  rw [Report.brokenRules, hreport, List.countP_append, List.countP_append, hbefore, hafter,
    countP_flatMap_faultNotes (hholds.nodup_name (nodup_name_declaredOf files)) hin,
    Registry.length_extensionFaults fun hash => hholds.containsType_of_extended hin]
  simp

/-- Extensions of a class, of a static class and of a delegate, all declared further down. The
members of the second declare a receiver and a foreign function, and neither is static. -/
def ruleFile : SourceFile where
  id := ⟨0⟩
  name := "rules"
  items :=
    [.extension ⟨"PointNorms", some (.parse "Point"), [], [norm], .unplaced⟩,
      .extension ⟨"PathNames", some (.parse "Paths"), [], [join, open_], .unplaced⟩,
      .extension ⟨"CallTimes", some (.parse "Callback"), [], [], .unplaced⟩,
      .type ⟨.plainClass, "Point", none, [], .unplaced⟩,
      .type ⟨.staticClass, "Paths", none, [], .unplaced⟩,
      .type ⟨.delegate, "Callback", none, [], .unplaced⟩]
where
  norm : WrittenMember := { (default : WrittenMember) with name := "Norm" }
  join : WrittenMember :=
    { (default : WrittenMember) with
      name := "Join", params := [⟨"self", .parse "Paths", none, false, true⟩] }
  open_ : WrittenMember :=
    { (default : WrittenMember) with name := "Open", foreign := some ⟨"libpath", none⟩ }

/-- In `ruleFile` the second extension breaks three rules and the third one; the first breaks
none. -/
theorem assemble_judges_extensions_rules :
    let assembly := assemble [ruleFile] .standard
    let registry := assembly.registry
    ([ruleFile].map (·.id)).Nodup ∧
      registry.extensions.map (fun extension =>
        (extension.isValid, extension.isStaticOnly, registry.violations extension)) =
          [(true, false, 0), (false, true, 3), (false, false, 1)] ∧
      assembly.invalid = 2 ∧
      (∀ extension ∈ registry.extensions,
        (extension.isValid = true ↔ registry.KeepsRules extension) ∧
        (extension.isStaticOnly = true ↔ registry.ExtendsStaticClass extension) ∧
        assembly.report.brokenRules extension.name = registry.violations extension) ∧
      assembly.invalid = registry.extensions.countP (!·.isValid) := by
  intro assembly registry
  have hids : ([ruleFile].map (·.id)).Nodup := List.nodup_singleton _
  exact ⟨hids, by decide +kernel, by decide +kernel,
    assemble_judges_extensions hids .standard⟩

end ExtensionMembers
