import ExtensionMembers.Proofs.Build.References
import ExtensionMembers.Proofs.Build.Storage
import ExtensionMembers.Proofs.Call.Legality
import ExtensionMembers.Proofs.Protocol.Discovery

/-!
# The type of no value

Discovery goes on from the type of no value where a step returns nothing that has members. That is
sound because no program can give the type of no value a member: its entry is the built-in one,
whatever is declared, and no extension extends it or is called like it. So the next step is not
found, and the use fails there.

## Main definitions

* `NamedType.void`: the built-in entry of the type of no value.
* `ProtocolSite.FailsAt`: a use fails with one diagnostic, for a member that is missing.

## Main results

* `Registry.type?_void`, `Registry.extensionsOf_void`: what a finished registry has for that type.
* `Registry.void_has_no_members`: no query for a member of it finds anything, and a use that comes
  to it fails at the next step.
-/

namespace ExtensionMembers

/-- The built-in entry of the type of no value, whose hash is `TypeHash.void`. -/
def NamedType.void : NamedType := .bare (.global "void") .builtIn .unplaced

theorem NamedType.hash_void : NamedType.void.hash = TypeHash.void := by decide +kernel

theorem NamedType.void_mem_registeredTypes (declared : List Declared) :
    NamedType.void ∈ registeredTypes declared :=
  List.mem_append_left _ (List.mem_map.2 ⟨"void", by decide, rfl⟩)

/-- No declaration of a type makes one of kind `TypeKind.builtIn`. -/
theorem WrittenKind.typeKind_ne_builtIn (kind : WrittenKind) : kind.typeKind ≠ .builtIn := by
  cases kind <;> decide

theorem Declared.kind_ne_builtIn (declared : Declared) : declared.bare.kind ≠ .builtIn := by
  cases declared with
  | type name scope declaration => exact WrittenKind.typeKind_ne_builtIn _
  | extension => exact TypeKind.noConfusion

namespace Registry

/-- A type that no declaration shares its hash with gets no signature by `Registry.signed`. -/
theorem signed_of_undeclared (registry : Registry) {declared : List Declared} {type : NamedType}
    (h : ∀ next ∈ declared, next.bare.hash ≠ type.hash) :
    registry.signed (declared.filterMap (·.pendingType?)) type = type := by
  unfold signed
  split
  next last hlast =>
    obtain ⟨name, hname, hmem⟩ := mem_of_find?_pendingType hlast
    have hhash : last.hash = type.hash := by simpa using List.find?_some hlast
    have hother := h _ hmem
    exact absurd (hname.symm.trans hhash) hother
  next => rfl

section Void

variable {files : List SourceFile} (hids : (files.map (·.id)).Nodup)
  (hvoid : ∀ name ∈ declaredNames files, name.hash = TypeHash.void → name = .global "void")
  (options : Options)

include hvoid

/-- What is registered with the hash `TypeHash.void` is `NamedType.void`. -/
theorem eq_void_of_hash {type : NamedType} (hin : type ∈ registeredTypes (declaredOf files))
    (hhash : type.hash = TypeHash.void) : type = .void :=
  List.inj_on_of_nodup_map (nodup_name_registeredTypes files) hin
    (NamedType.void_mem_registeredTypes _) (hvoid _ (name_mem_declaredNames hin) hhash)

/-- Nothing of `declaredOf` has the hash `TypeHash.void`. -/
theorem hash_ne_void {next : Declared} (hin : next ∈ declaredOf files) :
    next.bare.hash ≠ TypeHash.void := by
  intro hhash
  have hbare := eq_void_of_hash hvoid (bare_mem_registeredTypes hin) hhash
  exact next.kind_ne_builtIn (congrArg (·.kind) hbare)

include hids

/-- The registry that `assemble` makes neither replaces nor completes `NamedType.void`. -/
theorem type?_void :
    (assemble files options).registry.type? TypeHash.void = some .void := by
  have hfound : (registeredTypes (declaredOf files)).reverse.find? (·.hash = TypeHash.void) =
      some .void :=
    find?_reverse_of_unique (NamedType.void_mem_registeredTypes _)
      (decide_eq_true NamedType.hash_void)
      fun other hother hhash => eq_void_of_hash hvoid hother (of_decide_eq_true hhash)
  -- A declaration that completes the entry would have its hash.
  have hundeclared : ∀ next ∈ declaredOf files, next.bare.hash ≠ NamedType.void.hash := by
    intro next hnext
    rw [NamedType.hash_void]
    exact hash_ne_void hvoid hnext
  rw [(holds_assemble hids options).type?_eq, hfound, Option.map_some,
    signed_of_undeclared _ hundeclared]

/-- `TypeHash.void` is not that of the own type of an extension. -/
theorem extensionOfType?_void :
    (assemble files options).registry.extensionOfType? TypeHash.void = none := by
  have hholds := holds_assemble hids options
  rw [hholds.extensionOfType?_eq, List.find?_eq_none]
  intro extension hin hhash
  rw [List.mem_reverse, hholds.extensions_eq] at hin
  obtain ⟨next, hnext, hfinished⟩ := List.mem_filterMap.1 hin
  refine hash_ne_void hvoid hnext ?_
  rw [← Declared.hash_of_finished? hfinished]
  exact of_decide_eq_true hhash

omit hvoid in
/-- No extension extends `TypeHash.void`. -/
theorem extensionsOf_void :
    (assemble files options).registry.extensionsOf TypeHash.void = [] := by
  rw [(holds_assemble hids options).extensionsOf_eq, List.filter_eq_nil_iff]
  intro extension hin hextends
  rw [Bool.and_eq_true, decide_eq_true_eq] at hextends
  obtain ⟨type, htype, hhash⟩ := Option.bind_eq_some_iff.1 hextends.2
  have hmem : TypeHash.void ∈ extension.hashes := by
    rw [Extension.hashes, htype]
    exact List.mem_append_left _ (List.mem_append_left _ (TypeRef.mem_hashes_of_namedHash? hhash))
  exact ((closed_finished files options).extensions extension hin _ hmem).2 rfl

/-- `resolve` finds no member of the type of no value, wherever it is asked. -/
theorem resolve_void {query : MemberQuery} (hquery : query.receiver = TypeHash.void)
    (chain : ScopeChain) :
    (assemble files options).registry.resolve query chain = .notFound := by
  have htype := type?_void hids hvoid options
  have hown := extensionOfType?_void hids hvoid options
  have hextensions := extensionsOf_void hids options
  generalize (assemble files options).registry = registry at htype hown hextensions ⊢
  -- No stage of the search has anything: neither an extension that qualifies the member, nor the
  -- type with its bases, nor the extensions of the type.
  have hqualifying : registry.qualifyingExtension? query = none := by
    rw [qualifyingExtension?, hquery, hown]
    exact ite_self none
  have hdeclared : registry.declared? query = none := by
    have hin : TypeHash.void ∈ registry.types.keys := by
      rw [Table.mem_keys_iff]
      exact Option.isSome_of_eq_some htype
    rw [declared?, hquery, bases, trail_of_no_link hin (by rw [htype]; rfl)]
    simp [htype, NamedType.void, NamedType.bare]
  have htiers : registry.tiers query.receiver chain = [] := by
    rw [hquery, tiers, List.filter_eq_nil_iff]
    intro tier htier
    obtain ⟨depth, _, rfl⟩ := List.mem_map.1 htier
    simp [tierAt, hextensions]
  rw [resolve, hqualifying]
  dsimp only
  rw [hdeclared, htiers]
  rfl

end Void

/-! ## What members refer to -/

/-- Under `Closed`, what the signature of a member found names is registered. -/
theorem Closed.refers_of_resolve {registry : Registry} (h : registry.Closed) {query : MemberQuery}
    {chain : ScopeChain} {member : Member}
    (hfound : (registry.resolve query chain).member? = some member) :
    ∀ hash ∈ member.hashes, registry.Refers hash := by
  intro hash hhash
  -- The member belongs to a type or an extension of the registry, whose signature names the type.
  rcases Resolution.cases_of_member? hfound with ⟨owner, hanswer⟩ | ⟨extension, hanswer⟩
  · obtain ⟨⟨before, after, hbases, _⟩, ⟨first, last, hmembers, _⟩⟩ :=
      declaresFirst_of_resolve hanswer
    have howner : owner ∈ registry.bases query.receiver := by simp [hbases]
    obtain ⟨key, _, htype⟩ := List.mem_filterMap.1 howner
    refine h.types htype hash (List.mem_append_right _ (List.mem_flatMap.2 ⟨member, ?_, hhash⟩))
    simp [hmembers]
  · exact h.extensions extension (valid_of_resolve_supplied hanswer).1 hash
      (List.mem_append_right _
        (List.mem_flatMap.2 ⟨member, mem_members_of_resolve_supplied hanswer, hhash⟩))

/-- Under `Closed`, where the result of a member found is not a declared type with a value, it names
none at all. -/
theorem Closed.namedHash?_eq_none {registry : Registry} (h : registry.Closed)
    {query : MemberQuery} {chain : ScopeChain} {member : Member}
    (hfound : (registry.resolve query chain).member? = some member)
    (hresult : ∀ hash, member.result = .named hash → ¬ registry.Refers hash) :
    member.result.namedHash? = none := by
  cases htype : member.result with
  | named hash =>
    refine absurd (h.refers_of_resolve hfound hash ?_) (hresult hash htype)
    rw [Member.hashes, htype]
    exact List.mem_append_right _ (List.mem_singleton_self hash)
  | void | pointer | array | parameter | dynamic | unresolved => rfl

end Registry

/-- The fault of a use that comes to the type of no value (`.global "void"`) for a member without
arguments. -/
def LookupFault.ofVoid (span : Span) (name : String) : LookupFault :=
  ⟨span, .notFound (.global "void") name 0⟩

/-- The use fails, and all that is noted is that the type of no value lacks the member `name`
(`LookupFault.ofVoid`). -/
structure ProtocolSite.FailsAt (site : ProtocolSite) (registry : Registry) (name : String) :
    Prop where
  /-- There are no calls. -/
  plan_eq : (registry.lowerProtocol site).1.plan = .error
  /-- There is one diagnostic. -/
  entries_eq : (registry.lowerProtocol site).2.entries =
    [(LookupFault.ofVoid site.span name).diagnostic]
  /-- It says that the member was not found. -/
  kind_eq : (LookupFault.ofVoid site.span name).diagnostic.kind = .memberNotFound

namespace Registry

/-- A required step without arguments that is used on no value has the `StepFault` of
`LookupFault.ofVoid`, as nothing is found. -/
theorem stepFault_ofVoid {registry : Registry} {step : ProtocolStep}
    (hname : registry.typeName? TypeHash.void = some (.global "void"))
    (hrequired : step.isRequired = true) (harity : step.arity = 0) (span : Span) :
    registry.StepFault span step TypeHash.void .notFound (.ofVoid span step.name) := by
  have hfault : LookupFault.ofVoid span step.name =
      ⟨span, .notFound ((registry.typeName? TypeHash.void).getD (.global TypeHash.void.text))
        step.name step.arity⟩ := by
    rw [hname, harity]
    rfl
  rw [hfault]
  exact .missing hrequired

/-- `lowerSteps` fails at the second step of a protocol, which is used on what the first one
returns, if that is no declared type. -/
theorem lowerSteps_of_no_value {registry : Registry} {site : ProtocolSite} {protocol : Protocol}
    {first second : ProtocolStep} {rest : List ProtocolStep} {member : Member}
    (hsteps : protocol.steps = first :: second :: rest)
    (hfirst : first.category = .method ∧ first.slot = .subject ∧ first.yields = some second.slot)
    (hsecond : second.isRequired = true ∧ second.arity = 0)
    (hresolve : ∀ query, query.receiver = TypeHash.void →
      registry.resolve query (registry.chain site.scope) = .notFound)
    (hname : registry.typeName? TypeHash.void = some (.global "void"))
    (hfound : (registry.resolve (first.query site.type) (registry.chain site.scope)).member? =
      some member)
    (hresult : member.result.namedHash? = none) :
    registry.lowerSteps site protocol =
      (.error, ⟨[(LookupFault.ofVoid site.span second.name).diagnostic]⟩) := by
  have hstart : slotType [(.subject, site.type)] first.slot = site.type := by
    rw [slotType, hfirst.2.1]
    rfl
  -- What the first step returns counts as no value.
  have htype : slotType (slotTypesAfter [(.subject, site.type)] first member) second.slot =
      TypeHash.void := by
    rw [slotTypesAfter, hfirst.2.2, hresult, slotType]
    simp
  have hrest : registry.discoverFrom (registry.chain site.scope) site.span
      (slotTypesAfter [(.subject, site.type)] first member) (second :: rest) =
      .error (.ofVoid site.span second.name) := by
    refine discoverFrom_cons_of_stepFault ?_
    rw [hresolve _ htype, htype]
    exact stepFault_ofVoid hname hsecond.1 hsecond.2 site.span
  -- A method can be used as it is found.
  have haccepts : first.Accepts member := by
    intro hproperty
    rw [hfirst.1] at hproperty
    cases hproperty
  rw [← hstart] at hfound
  rw [lowerSteps, discover, hsteps, discoverFrom_cons_of_found hfound haccepts, hrest]
  rfl

/-- What `lowerProtocol` makes of a use whose steps fail (`FailsAt`). -/
theorem failsAt_of_planOf {registry : Registry} {site : ProtocolSite} {name : String}
    (h : registry.planOf site =
      (.error, ⟨[(LookupFault.ofVoid site.span name).diagnostic]⟩)) :
    site.FailsAt registry name :=
  ⟨congrArg (·.1) h, congrArg (·.2.entries) h, rfl⟩

/-- The type of no value has no members: `resolve` finds nothing in it from any scope, given that no
other name that is declared has its hash. So a loop over a value, or a wait for it, fails at the
second step (`lowerProtocol`) if the first one gives no declared type with a value. -/
theorem void_has_no_members {files : List SourceFile} (hids : (files.map (·.id)).Nodup)
    (hvoid : ∀ name ∈ declaredNames files, name.hash = TypeHash.void → name = .global "void")
    (options : Options) :
    let registry := (assemble files options).registry
    (∀ query scope, query.receiver = TypeHash.void →
      registry.resolve query (registry.chain scope) = .notFound) ∧
    (∀ (site : ProtocolSite) (member : Member), site.construct = .iterate →
      (registry.resolve ⟨site.type, false, "GetEnumerator", .method, some 0⟩
        (registry.chain site.scope)).member? = some member →
      (∀ hash, member.result = .named hash → ¬ registry.Refers hash) →
      site.FailsAt registry "MoveNext") ∧
    ∀ (site : ProtocolSite) (member : Member), site.construct = .await →
      (registry.resolve ⟨site.type, false, "GetAwaiter", .method, some 0⟩
        (registry.chain site.scope)).member? = some member →
      (∀ hash, member.result = .named hash → ¬ registry.Refers hash) →
      site.FailsAt registry "IsCompleted" := by
  intro registry
  have hresolve : ∀ query chain, query.receiver = TypeHash.void →
      registry.resolve query chain = .notFound := fun query chain hquery =>
    resolve_void hids hvoid options hquery chain
  have hname : registry.typeName? TypeHash.void = some (.global "void") := by
    rw [typeName?, type?_void hids hvoid options]
    rfl
  have hclosed : registry.Closed := closed_finished files options
  -- Both protocols look up their second step in what their first step gives.
  have hiteration : Protocol.iteration.steps = _ :: _ :: _ := rfl
  have hawait : Protocol.await.steps = _ :: _ :: _ := rfl
  refine ⟨fun query scope => hresolve query _, ?_, ?_⟩
  · intro site member hconstruct hfound hresult
    have hplan := lowerSteps_of_no_value hiteration ⟨rfl, rfl, rfl⟩ ⟨rfl, rfl⟩
      (fun query => hresolve query _) hname hfound (hclosed.namedHash?_eq_none hfound hresult)
    exact failsAt_of_planOf (by rw [planOf, hconstruct]; exact hplan)
  · intro site member hconstruct hfound hresult
    have hplan := lowerSteps_of_no_value hawait ⟨rfl, rfl, rfl⟩ ⟨rfl, rfl⟩
      (fun query => hresolve query _) hname hfound (hclosed.namedHash?_eq_none hfound hresult)
    exact failsAt_of_planOf (by rw [planOf, hconstruct]; exact hplan)

/-- A class with an extension for loops and waits that return a pointer and nothing. -/
def idleFile : SourceFile where
  id := ⟨0⟩
  name := "idle"
  items :=
    [.type ⟨.plainClass, "Belt", none, [], .unplaced⟩,
      .extension ⟨"BeltLoops", some (.parse "Belt"), [],
        [{ (default : WrittenMember) with
            name := "GetEnumerator"
            result := some (.pointer (.parse "Belt") .unplaced) },
          { (default : WrittenMember) with
            name := "GetAwaiter"
            result := some (.parse "void") }], .unplaced⟩]

/-- The use of a protocol on a value of the class of `idleFile`. -/
def beltUse (construct : ProtocolUse) : ProtocolSite where
  id := ⟨0⟩
  span := .unplaced
  scope := ⟨0⟩
  subject := ⟨3⟩
  type := (QualifiedName.global "Belt").hash
  construct := construct

/-- In `idleFile` the loop fails at its second step, and so does the wait. -/
theorem void_has_no_members_idle :
    let registry := (assemble [idleFile] .standard).registry
    let query := MemberQuery.mk TypeHash.void false "ToString" .method none
    (∀ name ∈ declaredNames [idleFile], name.hash = TypeHash.void → name = .global "void") ∧
      registry.resolve query (registry.chain ⟨0⟩) = .notFound ∧
      (beltUse .iterate).FailsAt registry "MoveNext" ∧
      (beltUse .await).FailsAt registry "IsCompleted" := by
  intro registry query
  have hids : ([idleFile].map (·.id)).Nodup := List.nodup_singleton _
  have hvoid : ∀ name ∈ declaredNames [idleFile],
      name.hash = TypeHash.void → name = .global "void" := by decide +kernel
  obtain ⟨hquery, hiterate, hawait⟩ := void_has_no_members hids hvoid .standard
  have hloop : ((registry.resolve ⟨(beltUse .iterate).type, false, "GetEnumerator", .method, some 0⟩
      (registry.chain (beltUse .iterate).scope)).member?).map (·.result) =
        some (.pointer (.named (beltUse .iterate).type)) := by decide +kernel
  have hwait : ((registry.resolve ⟨(beltUse .await).type, false, "GetAwaiter", .method, some 0⟩
      (registry.chain (beltUse .await).scope)).member?).map (·.result) = some .void := by
    decide +kernel
  obtain ⟨enumerator, hfound, henumerator⟩ := Option.map_eq_some_iff.1 hloop
  obtain ⟨awaiter, hfound', hawaiter⟩ := Option.map_eq_some_iff.1 hwait
  refine ⟨hvoid, hquery query _ rfl, hiterate _ _ rfl hfound ?_, hawait _ _ rfl hfound' ?_⟩
  · intro hash hresult
    rw [henumerator] at hresult
    cases hresult
  · intro hash hresult
    rw [hawaiter] at hresult
    cases hresult

end Registry

end ExtensionMembers
