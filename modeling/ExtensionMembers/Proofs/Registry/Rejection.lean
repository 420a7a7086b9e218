import ExtensionMembers.Proofs.Namespace.Operations
import ExtensionMembers.Proofs.Registry.Replacement

/-!
# Declarations that fail

A type is declared in two steps: its namespace is made, and the type is entered there. The second
step fails where the name is taken. Then the namespace was there already, and so were all those
around it, hence nothing was made either.

An extension is declared after its own type, in the namespace of its scope. It fails where there is
no such namespace, and then the own type stays.

## Main results

* `Registry.Reachable.grown`: the tree of a reachable registry is a grown one.
* `Registry.registerType_of_declares`, `Registry.registerType_of_free`: the two outcomes for a type.
* `Registry.registerType_error_iff`: a type fails exactly if its name is taken, and leaves no trace.
* `Registry.registerExtension_unchanged_iff`: an extension that fails leaves no trace exactly if its
  name was taken before.
* `Registry.unscopedExtension_leaves_type`: an extension that leaves its own type behind.
-/

namespace ExtensionMembers

/-! ## Grown registries -/

theorem NamespaceTree.Grown.step {tree later : NamespaceTree} (h : tree.Grown)
    (hstep : tree.Step later) : later.Grown := by
  cases hstep with
  | makeChild parent name => exact h.makeChild parent name
  | declareType id name hash hdone => exact h.declareType hdone
  | declareExtension id extension hdone => exact h.declareExtension hdone

namespace Registry

variable {registry : Registry}

theorem grown_registerType (h : registry.namespaces.Grown) (type : NamedType) :
    (registry.registerType type).2.namespaces.Grown := by
  have hmade := h.makePath type.name.path
  unfold registerType
  dsimp only
  split
  next => exact hmade
  next hdone => exact hmade.declareType hdone

theorem grown_registerExtension (h : registry.namespaces.Grown) (extension : Extension) :
    (registry.registerExtension extension).2.namespaces.Grown := by
  have hown := grown_registerType h extension.ownType
  rcases registerExtension_cases registry extension with
    ⟨_, _, houtcome⟩ | ⟨_, _, houtcome⟩ | ⟨_, _, _, _, _, _, hadded, houtcome⟩
  · rwa [houtcome]
  · rwa [houtcome]
  · rw [houtcome]
    exact hown.declareExtension hadded

/-- The tree of a `Reachable` registry is `Grown`. -/
theorem Reachable.grown (hreach : registry.Reachable) : registry.namespaces.Grown := by
  induction hreach with
  | empty => exact .empty
  | changeTree after _ hstep ih => exact ih.step hstep
  | registerType type _ ih => exact grown_registerType ih type
  | registerExtension extension _ ih => exact grown_registerExtension ih extension
  | changeScopes _ _ ih | modifyType _ _ _ ih | modifyExtension _ _ _ _ ih | reindex _ ih =>
    exact ih

/-! ## Types -/

/-- Where the name of a type is taken (`Declares`), `registerType` finds its namespace and makes
none, and fails with the name and place of the type. -/
theorem registerType_of_declares (hproper : registry.namespaces.Proper) {type : NamedType}
    (h : registry.Declares type.name) :
    registry.registerType type = (.error (.duplicate type.name type.span), registry) := by
  obtain ⟨id, hid, htaken⟩ := h
  have hfound := NamespaceTree.makePath_eq_of_path? hproper hproper.root hid
  rw [registerType, hfound, NamespaceTree.declareType_taken hid htaken]
  rfl

/-- Where the name of a type is free, `registerType` succeeds, and from then on the name is taken
(`Declares`). -/
theorem registerType_of_free (hproper : registry.namespaces.Proper) {type : NamedType}
    (h : ¬registry.Declares type.name) :
    (registry.registerType type).1 = .ok () ∧
      (registry.registerType type).2.Declares type.name := by
  obtain ⟨_, hextends, hpath, _⟩ :=
    NamespaceTree.makePath_spec hproper hproper.root type.name.path
  rw [List.nil_append] at hpath
  unfold registerType
  dsimp only
  generalize registry.namespaces.makePath NamespaceTree.root type.name.path = made at hextends hpath
  -- What is in the namespace was there before its path was made.
  have hfree : made.1.typeIn? made.2 type.name.name = none := by
    rw [hextends.typeIn?_eq, ← Option.not_isSome_iff_eq_none]
    intro htaken
    obtain ⟨path, hbefore⟩ := NamespaceTree.exists_path?_of_typeIn? htaken
    have hsame := (hextends.path?_eq hbefore).symm.trans hpath
    exact h ⟨made.2, hbefore.trans hsame, htaken⟩
  obtain ⟨tree, hdone, hpaths, htypes⟩ :=
    NamespaceTree.declareType_free hpath hfree type.hash
  rw [hdone]
  refine ⟨rfl, made.2, ?_, ?_⟩
  · exact (NamespaceTree.path?_congr hpaths _).trans hpath
  · rw [htypes, if_pos ⟨rfl, rfl⟩]
    rfl

/-- `registerType` fails exactly if the name of the type is taken (`Declares`): its namespace exists
and holds its simple name. The type is then reported as a duplicate under its own name and at its
own place, and all is as before, the namespaces included. -/
theorem registerType_error_iff (hreach : registry.Reachable) (type : NamedType) :
    let outcome := registry.registerType type
    ((∃ fault, outcome.1 = .error fault) ↔ registry.Declares type.name) ∧
      ∀ fault, outcome.1 = .error fault →
        fault = .duplicate type.name type.span ∧ outcome.2 = registry := by
  intro outcome
  have hproper := hreach.grown.proper
  by_cases htaken : registry.Declares type.name
  · have houtcome : outcome = _ := registerType_of_declares hproper htaken
    rw [houtcome]
    refine ⟨⟨fun _ => htaken, fun _ => ⟨_, rfl⟩⟩, fun fault hfault => ⟨?_, rfl⟩⟩
    exact (Except.error.inj hfault).symm
  · have hdone : outcome.1 = .ok () := (registerType_of_free hproper htaken).1
    have hnever : ∀ fault, outcome.1 ≠ .error fault := by
      intro fault hfault
      cases hdone.symm.trans hfault
    exact ⟨⟨fun ⟨fault, hfault⟩ => absurd hfault (hnever fault), fun h => absurd h htaken⟩,
      fun fault hfault => absurd hfault (hnever fault)⟩

/-- A class within two namespaces. -/
def crateType : NamedType := .bare ⟨["Shop", "Stock"], "Crate"⟩ .plainClass ⟨⟨0⟩, 1, 1, 9⟩

/-- A second type with the name of a class fails, whatever its kind, and a class of the same simple
name in a namespace called like the first one does not. -/
theorem registerType_error_iff_crate :
    let registry := (withBuiltIns.registerType crateType).2
    let again := NamedType.bare crateType.name .struct ⟨⟨1⟩, 4, 2, 6⟩
    let within := NamedType.bare ⟨["Shop", "Stock", "Crate"], "Crate"⟩ .plainClass .unplaced
    registry.Reachable ∧ registry.Declares again.name ∧
      (registry.registerType again).1 = .error (.duplicate crateType.name again.span) ∧
      (registry.registerType again).2 = registry ∧ ¬registry.Declares within.name := by
  intro registry again within
  have hreach : registry.Reachable := .registerType crateType reachable_withBuiltIns
  have hfailed : (registry.registerType again).1 =
      .error (.duplicate crateType.name again.span) := by decide +kernel
  have hdone : (registry.registerType within).1 = .ok () := by decide +kernel
  obtain ⟨hiff, hclean⟩ := registerType_error_iff hreach again
  refine ⟨hreach, hiff.1 ⟨_, hfailed⟩, hfailed, (hclean _ hfailed).2, fun hwithin => ?_⟩
  obtain ⟨fault, hfault⟩ := (registerType_error_iff hreach within).1.2 hwithin
  cases hdone.symm.trans hfault

/-! ## Extensions -/

variable {extension : Extension}

/-- The scope of an extension leads to a namespace, once its `ownType` is there. -/
def HasPlaceFor (registry : Registry) (extension : Extension) : Prop :=
  ∃ id path, registry.namespaceOf? extension = some id ∧
    (registry.registerType extension.ownType).2.namespaces.path? id = some path

/-- Where the name of an extension is taken (`Declares`), its own type fails in `registerExtension`
and nothing comes after it. -/
theorem registerExtension_of_declares (hproper : registry.namespaces.Proper)
    (h : registry.Declares extension.name) :
    registry.registerExtension extension =
      (.error (.duplicate extension.name extension.span), registry) := by
  have hown : registry.registerType extension.ownType = _ := registerType_of_declares hproper h
  rw [registerExtension, hown]
  rfl

/-- Where the name of an extension is free, `registerExtension` registers its own type, and what
comes of the extension itself depends on its scope. -/
theorem registerExtension_of_free (hproper : registry.namespaces.Proper)
    (h : ¬registry.Declares extension.name) :
    (registry.HasPlaceFor extension ∧ (registry.registerExtension extension).1 = .ok ()) ∨
      (¬registry.HasPlaceFor extension ∧ registry.registerExtension extension =
        (.error .unknownNamespace, (registry.registerType extension.ownType).2)) := by
  have hdone : (registry.registerType extension.ownType).1 = .ok () :=
    (registerType_of_free hproper h).1
  -- The own type changes no scope.
  have hplace : (registry.registerType extension.ownType).2.namespaceOf? extension =
      registry.namespaceOf? extension := by
    rw [namespaceOf?, scopes_registerType, namespaceOf?]
  rcases registerExtension_cases registry extension with
    ⟨_, hfault, _⟩ | ⟨_, hnone, houtcome⟩ | ⟨_, id, path, _, hid, hpath, _, houtcome⟩
  · cases hdone.symm.trans hfault
  · refine .inr ⟨?_, houtcome⟩
    rintro ⟨id, path, hid, hpath⟩
    cases hpath.symm.trans (hnone id (hplace.trans hid))
  · exact .inl ⟨⟨id, path, hplace.symm.trans hid, hpath⟩, by rw [houtcome]⟩

/-- `registerExtension` succeeds exactly if the name of the extension is free and its scope leads to
a namespace (`HasPlaceFor`). A failure leaves all as it was exactly if the name was taken before;
otherwise the own type of the extension stays, and from then on its name is taken. -/
theorem registerExtension_unchanged_iff (hgrown : registry.namespaces.Grown)
    (extension : Extension) :
    let own := (registry.registerType extension.ownType).2
    let outcome := registry.registerExtension extension
    (outcome.1 = .ok () ↔
        ¬registry.Declares extension.name ∧ registry.HasPlaceFor extension) ∧
      ∀ fault, outcome.1 = .error fault →
        (outcome.2 = registry ↔ registry.Declares extension.name) ∧
        (registry.Declares extension.name →
          fault = .duplicate extension.name extension.span) ∧
        (¬registry.Declares extension.name →
          fault = .unknownNamespace ∧ outcome.2 = own ∧ own.Declares extension.name) := by
  intro own outcome
  have hproper := hgrown.proper
  by_cases htaken : registry.Declares extension.name
  · have houtcome : outcome = _ := registerExtension_of_declares hproper htaken
    rw [houtcome]
    refine ⟨⟨nofun, fun h => absurd htaken h.1⟩, fun fault hfault => ?_⟩
    have hfault' := (Except.error.inj hfault).symm
    exact ⟨⟨fun _ => htaken, fun _ => rfl⟩, fun _ => hfault', fun hfree => absurd htaken hfree⟩
  · have hlater : own.Declares extension.name := (registerType_of_free hproper htaken).2
    rcases registerExtension_of_free hproper htaken with ⟨hplace, hdone⟩ | ⟨hplace, hfailed⟩
    · refine ⟨⟨fun _ => ⟨htaken, hplace⟩, fun _ => hdone⟩, fun fault hfault => ?_⟩
      cases hdone.symm.trans hfault
    · have houtcome : outcome = _ := hfailed
      rw [houtcome]
      refine ⟨⟨nofun, fun h => absurd h.2 hplace⟩, fun fault hfault => ?_⟩
      have hfault' := (Except.error.inj hfault).symm
      -- Before, the name was free, and now it is taken.
      have hchanged : own ≠ registry := fun hsame => htaken (hsame ▸ hlater)
      exact ⟨⟨fun hsame => absurd hsame hchanged, fun h => absurd h htaken⟩,
        fun h => absurd h htaken, fun _ => ⟨hfault', rfl, hlater⟩⟩

/-- An extension called like a built-in type. -/
def intExtension : Extension := .declared ⟨⟨0⟩, 0⟩ (.global "int") ⟨0⟩ ⟨⟨0⟩, 1, 14, 3⟩

/-- `intExtension` fails as a duplicate, before anything is known of its scope, and leaves no
trace. -/
theorem registerExtension_unchanged_iff_int :
    let outcome := withBuiltIns.registerExtension intExtension
    withBuiltIns.namespaces.Grown ∧
      outcome.1 = .error (.duplicate (.global "int") intExtension.span) ∧
      outcome.2 = withBuiltIns ∧ withBuiltIns.Declares (.global "int") := by
  intro outcome
  have hgrown : withBuiltIns.namespaces.Grown := reachable_withBuiltIns.grown
  have hfailed : outcome.1 = .error (.duplicate (.global "int") intExtension.span) := by
    decide +kernel
  have htaken : withBuiltIns.Declares (.global "int") :=
    ⟨NamespaceTree.root, by decide +kernel, by decide +kernel⟩
  obtain ⟨_, hfaults⟩ := registerExtension_unchanged_iff hgrown intExtension
  exact ⟨hgrown, hfailed, (hfaults _ hfailed).1.2 htaken, htaken⟩

/-- An extension in a scope that does not exist. -/
def unscopedExtension : Extension := .declared ⟨⟨0⟩, 0⟩ (.global "IntText") ⟨7⟩ .unplaced

/-- Registering `unscopedExtension` fails, but its own type, unknown before, is registered. So it
fails as a duplicate once it is declared in a scope that exists, and no extension ever has the
type. -/
theorem unscopedExtension_leaves_type :
    let outcome := withBuiltIns.registerExtension unscopedExtension
    let opened := { outcome.2 with scopes := .add .empty ⟨⟨0⟩, none, NamespaceTree.root, [], []⟩ }
    let again := { unscopedExtension with scope := ⟨0⟩ }
    withBuiltIns.Reachable ∧ outcome.1 = .error .unknownNamespace ∧ outcome.2 ≠ withBuiltIns ∧
      withBuiltIns.type? unscopedExtension.hash = none ∧
      outcome.2.type? unscopedExtension.hash = some unscopedExtension.ownType ∧
      outcome.2.extensionOfType? unscopedExtension.hash = none ∧
      (opened.registerExtension again).1 = .error (.duplicate (.global "IntText") .unplaced) := by
  intro outcome opened again
  have hbefore : withBuiltIns.type? unscopedExtension.hash = none := by decide +kernel
  have hafter : outcome.2.type? unscopedExtension.hash = some unscopedExtension.ownType := by
    decide +kernel
  have hchanged : outcome.2 ≠ withBuiltIns := by
    intro hsame
    rw [hsame, hbefore] at hafter
    cases hafter
  exact ⟨reachable_withBuiltIns, by decide +kernel, hchanged, hbefore, hafter, by decide +kernel,
    by decide +kernel⟩

end Registry

end ExtensionMembers
