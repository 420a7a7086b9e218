import ExtensionMembers.Proofs.Build.Completion
import ExtensionMembers.Proofs.Lookup.Agreement
import ExtensionMembers.Proofs.Namespace.Agreement

/-!
# Finished registries that agree

Two programs may declare the same things in other places: in scopes and namespaces with other
numbers, and in files with other numbers. Where their registries agree on the names that a
declaration refers to, its signature is the same in both, and it is judged in the same way.

## Main definitions

* `Registry.Agrees`: registries that agree on some names, with scopes that are linked.
* `Declared.Counterpart`, `Extension.Counterpart`: the same declaration, and the same extension, in
  scopes that are linked.

## Main results

* `Registry.Agrees.signed_eq`, `Registry.Agrees.finished?_eq`: the signatures of types, and those of
  extensions with the judgement on them.
* `Registry.Agrees.depthOf?_eq`: extensions are reached at the same levels.
-/

namespace ExtensionMembers

/-- The simple names that a declaration of a type refers to: those of its base and of its members
(`WrittenMember.typeNames`). -/
def TypeDeclaration.typeNames (declaration : TypeDeclaration) : List String :=
  declaration.base.toList.filterMap TypeExpr.name? ++
    declaration.members.flatMap WrittenMember.typeNames

/-- The simple names that a declaration of an extension refers to: those of its target and of its
members (`WrittenMember.typeNames`). -/
def ExtensionDeclaration.typeNames (declaration : ExtensionDeclaration) : List String :=
  declaration.target.toList.filterMap TypeExpr.name? ++
    declaration.members.flatMap WrittenMember.typeNames

/-- The simple names that a `Declared` refers to. -/
def Declared.typeNames : Declared → List String
  | type _ _ declaration => declaration.typeNames
  | extension _ _ _ declaration => declaration.typeNames

section Counterparts

variable (link : ScopeId → ScopeId → Prop) (same : ExtensionId → ExtensionId → Prop)

/-- The same declaration, in scopes related by `link`, of an extension with identities that are
related. -/
inductive Declared.Counterpart : Declared → Declared → Prop
  | type {scope scope' : ScopeId} (name : QualifiedName) (declaration : TypeDeclaration) :
    link scope scope' → Counterpart (type name scope declaration) (type name scope' declaration)
  | extension {id id' : ExtensionId} {scope scope' : ScopeId} (name : QualifiedName)
      (declaration : ExtensionDeclaration) :
    same id id' → link scope scope' →
    Counterpart (extension id name scope declaration) (extension id' name scope' declaration)

/-- The same extension (`Extension.Twin`), with identities that are related and in scopes related by
`link`. -/
structure Extension.Counterpart (extension other : Extension) : Prop
    extends extension.Twin other where
  ids : same extension.id other.id
  scopes : link extension.scope other.scope

end Counterparts

namespace Declared

variable {same : ExtensionId → ExtensionId → Prop}

theorem Counterpart.bare_eq {link : ScopeId → ScopeId → Prop} {next other : Declared}
    (h : next.Counterpart link same other) : next.bare = other.bare := by
  cases h <;> rfl

theorem counterpart_refl (hsame : ∀ id, same id id) (next : Declared) :
    next.Counterpart (· = ·) same next := by
  cases next with
  | type name scope declaration => exact .type name declaration rfl
  | extension id name scope declaration => exact .extension name declaration (hsame id) rfl

theorem Counterpart.of_eq {link : ScopeId → ScopeId → Prop} {next other : Declared}
    (h : next.Counterpart (· = ·) same other) (hscope : link next.scope next.scope) :
    next.Counterpart link same other := by
  cases h with
  | type name declaration heq => exact .type name declaration (heq ▸ hscope)
  | extension name declaration hid heq => exact .extension name declaration hid (heq ▸ hscope)

end Declared

namespace Registry

/-- Two registries hold the same types for some simple names, in namespaces of the same path
(`NamespaceTree.AgreeOn`), with the same headings (`NamedType.heading`), and have scopes that
correspond (`ScopeTable.Linked`). -/
structure Agrees (registry other : Registry) (names : String → Prop)
    (link : ScopeId → ScopeId → Prop) : Prop where
  trees : registry.namespaces.AgreeOn other.namespaces names
  scopes : ScopeTable.Linked registry.namespaces other.namespaces registry.scopes other.scopes link
  registered : ∀ {id name hash}, registry.namespaces.typeIn? id name = some hash →
    registry.containsType hash = true
  heading?_eq : ∀ {hash}, registry.containsType hash = true →
    (registry.type? hash).map (·.heading) = (other.type? hash).map (·.heading)

namespace Agrees

variable {registry other : Registry} {names : String → Prop} {link : ScopeId → ScopeId → Prop}
  (h : registry.Agrees other names link)

include h

theorem chain {scope scope' : ScopeId} (hscope : link scope scope') :
    List.Forall₂ (NamespaceTree.SamePaths.LevelMatches registry.namespaces other.namespaces)
      (registry.chain scope).levels (other.chain scope').levels :=
  h.scopes.chain h.trees.toSamePaths hscope

/-! ## Signatures -/

theorem signType_eq {pending pending' : PendingType} (hscope : link pending.scope pending'.scope)
    (hdeclaration : pending.declaration = pending'.declaration)
    (hnames : ∀ name ∈ pending.declaration.typeNames, names name) (type : NamedType) :
    registry.signType pending type = other.signType pending' type := by
  have hchain := h.chain hscope
  -- The base and the members refer to names on which the registries agree.
  have hbase : (pending.declaration.base.bind fun base =>
      (registry.namespaces.typeRef (registry.chain pending.scope) [] base).namedHash?) =
        pending.declaration.base.bind fun base =>
          (other.namespaces.typeRef (other.chain pending'.scope) [] base).namedHash? := by
    refine Option.bind_congr fun base hbase => ?_
    rw [h.trees.typeRef_eq hchain [] fun name hname => hnames name ?_]
    exact List.mem_append_left _ (List.mem_filterMap.2 ⟨base, by simp [hbase], hname⟩)
  have hmembers := h.trees.map_member_eq hchain [] fun name hname =>
    hnames name (List.mem_append_right _ hname)
  rw [signType, hbase, hmembers, hdeclaration, signType]

/-- Under `Agrees`, a type has the same `Registry.signed` form in both registries if the last
declaration with its hash is the same, in scopes that are linked. -/
theorem signed_eq {pending pending' : List PendingType} {type : NamedType}
    (hlast : Option.Rel (fun last last' => link last.scope last'.scope ∧
        last.declaration = last'.declaration ∧ ∀ name ∈ last.declaration.typeNames, names name)
      (pending.reverse.find? (·.hash = type.hash)) (pending'.reverse.find? (·.hash = type.hash))) :
    registry.signed pending type = other.signed pending' type := by
  unfold signed
  generalize pending.reverse.find? (·.hash = type.hash) = last at hlast
  generalize pending'.reverse.find? (·.hash = type.hash) = last' at hlast
  cases hlast with
  | none => rfl
  | some hrel =>
    obtain ⟨hscope, hdeclaration, hnames⟩ := hrel
    exact h.signType_eq hscope hdeclaration hnames type

/-- Under `Agrees`, `Registry.targetCause?` is the same in both registries: it looks at the heading
of the type alone. -/
theorem targetCause?_eq {target : Option TypeRef}
    (htarget : ∀ hash, target = some (.named hash) → registry.containsType hash = true) :
    registry.targetCause? target = other.targetCause? target := by
  match target with
  | some (.named hash) =>
    have hheading : ∀ type : Option NamedType, type.bind (·.extensionCause?) =
        (type.map (·.heading)).bind (·.extensionCause?) := by
      intro type
      cases type <;> rfl
    rw [targetCause?, targetCause?, hheading, h.heading?_eq (htarget hash rfl), ← hheading]
  | none | some .void | some (.pointer _) | some (.array _) | some (.parameter _)
  | some .dynamic | some (.unresolved _ true) | some (.unresolved _ false) => rfl

/-- Under `Agrees`, the extended type is written alike, and a class with static members only in both
registries or in neither. -/
theorem extended_eq {scope scope' : ScopeId} (hscope : link scope scope')
    {declaration : ExtensionDeclaration} (hnames : ∀ name ∈ declaration.typeNames, names name)
    {extended : Option TypeRef} (hextended : extended = declaration.target.map
      (registry.namespaces.typeRef (registry.chain scope) declaration.typeParameters)) :
    declaration.target.map
        (other.namespaces.typeRef (other.chain scope') declaration.typeParameters) = extended ∧
      ((extended.bind (·.namedHash?)).bind registry.type?).any (·.isStaticOnly) =
        ((extended.bind (·.namedHash?)).bind other.type?).any (·.isStaticOnly) ∧
      registry.targetCause? extended = other.targetCause? extended := by
  -- A type that is referred to is registered, so its heading is the same in both.
  have hregistered : ∀ hash, extended.bind (·.namedHash?) = some hash →
      registry.containsType hash = true := by
    intro hash hhash
    obtain ⟨reference, hreference, hnamed⟩ := Option.bind_eq_some_iff.1 hhash
    obtain ⟨target, _, rfl⟩ := Option.map_eq_some_iff.1 (hextended ▸ hreference)
    obtain ⟨_, _, hin⟩ := NamespaceTree.exists_typeIn?_of_typeRef hnamed
    exact h.registered hin
  refine ⟨?_, ?_, h.targetCause?_eq fun hash hnamed => hregistered hash (by rw [hnamed]; rfl)⟩
  · rw [hextended]
    refine (Option.map_congr fun target htarget => ?_).symm
    refine h.trees.typeRef_eq (h.chain hscope) _ fun name hname => hnames name ?_
    exact List.mem_append_left _ (List.mem_filterMap.2 ⟨target, by simp [htarget], hname⟩)
  · -- Whether a type has static members only can be seen from its heading.
    have hheading : ∀ type : Option NamedType, type.any (·.isStaticOnly) =
        (type.map (·.heading)).any (·.isStaticOnly) := by
      intro type
      cases type <;> rfl
    cases hhash : extended.bind (·.namedHash?) with
    | none => rfl
    | some hash =>
      rw [Option.bind_some, Option.bind_some, hheading, h.heading?_eq (hregistered hash hhash),
        ← hheading]

/-- Under `Agrees`, `Declared.finished?` gives a declared extension the same signature in both
registries, and the same judgement. -/
theorem finished?_eq {scope scope' : ScopeId} (hscope : link scope scope') (id id' : ExtensionId)
    (name : QualifiedName) {declaration : ExtensionDeclaration}
    (hnames : ∀ name ∈ declaration.typeNames, names name) :
    ∃ extension, (Declared.extension id name scope declaration).finished? registry =
        some extension ∧
      (Declared.extension id' name scope' declaration).finished? other =
        some { extension with id := id', scope := scope' } := by
  obtain ⟨hextended, hstatic, hcause⟩ := h.extended_eq hscope hnames rfl
  have hmembers := h.trees.map_member_eq (h.chain hscope) declaration.typeParameters
    fun name hname => hnames name (List.mem_append_right _ hname)
  refine ⟨_, rfl, ?_⟩
  simp only [Declared.finished?, Assembly.signExtension, extensionFaults, Extension.declared,
    hextended, ← hmembers, ← hstatic, ← hcause]
  rfl

theorem counterpart_finished? {same : ExtensionId → ExtensionId → Prop}
    {declared declared' : Declared} (hcounterpart : declared.Counterpart link same declared')
    (hnames : ∀ name ∈ declared.typeNames, names name) :
    Option.Rel (Extension.Counterpart link same) (declared.finished? registry)
      (declared'.finished? other) := by
  cases hcounterpart with
  | type => exact .none
  | @extension id id' scope scope' name declaration hid hscope =>
    obtain ⟨extension, hfinished, hfinished'⟩ := h.finished?_eq hscope id id' name hnames
    obtain rfl := Option.some.inj hfinished
    rw [hfinished']
    exact .some ⟨⟨rfl, rfl, rfl, rfl, rfl, rfl⟩, hid, hscope⟩

/-! ## Levels -/

/-- Under `Agrees`, extensions declared in scopes that are linked have the same
`Registry.depthOf?`. -/
theorem depthOf?_eq {chain chain' : ScopeChain} (hchain : List.Forall₂
      (NamespaceTree.SamePaths.LevelMatches registry.namespaces other.namespaces) chain.levels
      chain'.levels)
    {extension extension' : Extension} (hscope : link extension.scope extension'.scope) :
    registry.depthOf? chain extension = other.depthOf? chain' extension' := by
  obtain ⟨scope, scope', hget, hget', hmatches⟩ := h.scopes.scopes _ _ hscope
  simp only [depthOf?, namespaceOf?, hget, hget', Option.map_some, Option.bind_some]
  exact h.trees.depthOf?_eq hchain hmatches.namespaces

end Agrees

end Registry

end ExtensionMembers
