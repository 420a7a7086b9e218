import ExtensionMembers.Proofs.Build.Declaration
import ExtensionMembers.Proofs.Registry.Reachable

/-!
# Replaced types

A type is registered under its name in its namespace and under the hash of its name. A name that is
taken is reported and changes no type. Names are taken apart from each other by namespace and simple
name, hashes by the joined text, so a type with a free name can still have the hash of another one,
and then it replaces that one in silence.

## Main definitions

* `Registry.OfDeclarations`: the registries made by declarations alone.
* `Registry.Declares`: a name is taken.

## Main results

* `Registry.names_of_declarations`: after any declarations, the names and hashes of a registry are
  those of the types registered.
* `Registry.ofDeclarations_declareFiles`: files are declared in this way.
* `Registry.registerType_keeps_iff`: no type is replaced exactly if no name with the hash is taken.
* `Registry.registerType_replaces_joined`: one type that is replaced.
-/

namespace ExtensionMembers

namespace Registry

/-- The registries that come from `empty` by any declarations: namespaces are made, scopes opened,
and types and extensions registered (`registerType`, `registerExtension`) under any names, whether
or not this succeeds. -/
inductive OfDeclarations : Registry → Prop
  | empty : OfDeclarations .empty
  | openScopes {registry : Registry} (scopes : ScopeTable) :
      OfDeclarations registry → OfDeclarations { registry with scopes }
  | makePath {registry : Registry} (path : NamespacePath) :
      OfDeclarations registry → OfDeclarations { registry with
        namespaces := (registry.namespaces.makePath NamespaceTree.root path).1 }
  | registerType {registry : Registry} (type : NamedType) :
      OfDeclarations registry → OfDeclarations (registry.registerType type).2
  | registerExtension {registry : Registry} (extension : Extension) :
      OfDeclarations registry → OfDeclarations (registry.registerExtension extension).2

/-- A qualified name is taken: a type with its simple name is declared in its namespace
(`typeIn?`). -/
def Declares (registry : Registry) (name : QualifiedName) : Prop :=
  ∃ id, registry.namespaces.path? id = some name.path ∧
    (registry.namespaces.typeIn? id name.name).isSome

variable {registry : Registry} {types : List NamedType}

/-! ## Names and hashes -/

/-- Under `Names`, the names that are taken (`Declares`) are those of the registered types. -/
theorem Names.declares_iff (hnames : registry.Names types) {name : QualifiedName} :
    registry.Declares name ↔ name ∈ types.map (·.name) := by
  constructor
  · rintro ⟨id, hid, hin⟩
    -- A namespace holds nothing under a name that is not in the list.
    rw [hnames.typeIn?_eq hid] at hin
    by_contra hfree
    rw [if_neg hfree] at hin
    cases hin
  · intro hin
    obtain ⟨type, htype, rfl⟩ := List.mem_map.1 hin
    obtain ⟨id, hid⟩ := NamespaceTree.mem_paths_iff.1 (hnames.within type htype)
    refine ⟨id, hid, ?_⟩
    rw [hnames.typeIn?_eq hid, if_pos hin]
    rfl

/-- Under `Names`, a hash is free if no name that is taken (`Declares`) has it. -/
theorem Names.type?_eq_none_iff (hnames : registry.Names types) {hash : TypeHash} :
    registry.type? hash = none ↔ ∀ name, registry.Declares name → name.hash ≠ hash := by
  rw [hnames.type?_eq, List.find?_eq_none]
  simp only [hnames.declares_iff, List.forall_mem_map, List.mem_reverse, decide_eq_true_eq]
  rfl

/-- `registerType` first makes the namespace of the type (`makePath`), which takes no name. -/
theorem registerType_makePath (hproper : registry.namespaces.Proper)
    (hnames : registry.Names types) (type : NamedType) :
    let tree := (registry.namespaces.makePath NamespaceTree.root type.name.path).1
    let opened := { registry with namespaces := tree }
    tree.Proper ∧ opened.Names types ∧ type.name.path ∈ tree.paths ∧
      registry.registerType type = opened.registerType type := by
  intro tree opened
  obtain ⟨hmade, hextends, hpath, _⟩ :=
    NamespaceTree.makePath_spec hproper hproper.root type.name.path
  rw [List.nil_append] at hpath
  refine ⟨hmade, hnames.of_extends hmade hextends registry.scopes,
    NamespaceTree.mem_paths_iff.2 ⟨_, hpath⟩, ?_⟩
  -- Once it is there, the namespace is found again.
  have hagain := NamespaceTree.makePath_eq_of_path? hmade hmade.root hpath
  have hopened : opened.namespaces = tree := rfl
  rw [registerType, registerType, hopened, hagain]

/-- `registerType` reports a type whose name is taken and changes no type, and it registers any
other type under its name and its hash. -/
theorem registerType_cases (hproper : registry.namespaces.Proper)
    (hnames : registry.Names types) (type : NamedType) :
    let outcome := registry.registerType type
    outcome.2.namespaces.Proper ∧
      (type.name ∈ types.map (·.name) ∧ outcome.2.Names types ∧
          outcome.1 = .error (.duplicate type.name type.span) ∨
        type.name ∉ types.map (·.name) ∧ outcome.2.Names (types ++ [type]) ∧
          outcome.1 = .ok ()) := by
  intro outcome
  -- From here on the namespace of the type is there, and its name is in the list or free.
  obtain ⟨hmade, hopened, hpath, hsame⟩ := registerType_makePath hproper hnames type
  by_cases htaken : type.name ∈ types.map (·.name)
  · have houtcome : outcome = _ := hsame.trans (registerType_taken hmade hopened htaken)
    rw [houtcome]
    exact ⟨hmade, .inl ⟨htaken, hopened, rfl⟩⟩
  · obtain ⟨tree, hpaths, hdone, hlater⟩ := registerType_free hmade hopened hpath htaken
    have houtcome : outcome = _ := hsame.trans hdone
    rw [houtcome]
    exact ⟨hmade.of_paths_eq hpaths, .inr ⟨htaken, hlater, rfl⟩⟩

/-- `registerExtension` takes the name of the own type of the extension and no other. -/
theorem names_registerExtension (hproper : registry.namespaces.Proper)
    (hnames : registry.Names types) (extension : Extension) :
    (registry.registerExtension extension).2.namespaces.Proper ∧
      ∃ later, (registry.registerExtension extension).2.Names later := by
  obtain ⟨hown, hcases⟩ := registerType_cases hproper hnames extension.ownType
  have hlater : ∃ later, (registry.registerType extension.ownType).2.Names later := by
    rcases hcases with ⟨_, hsame, _⟩ | ⟨_, hmore, _⟩
    · exact ⟨_, hsame⟩
    · exact ⟨_, hmore⟩
  rcases registerExtension_cases registry extension with
    ⟨fault, _, houtcome⟩ | ⟨_, _, houtcome⟩ | ⟨_, id, path, tree, _, hpath, hadded, houtcome⟩
  · rw [houtcome]
    exact ⟨hown, hlater⟩
  · rw [houtcome]
    exact ⟨hown, hlater⟩
  · -- The own type is in the list; the extension itself takes no name.
    obtain ⟨_, hsame, hpaths, hkept⟩ := NamespaceTree.declareExtension_spec hpath extension.id
    obtain rfl := Except.ok.inj (hsame.symm.trans hadded)
    obtain ⟨later, hlater⟩ := hlater
    rw [houtcome]
    exact ⟨hown.of_paths_eq hpaths, later, hlater.of_tree hpaths hkept _⟩

/-- A registry that is `OfDeclarations` has the names and hashes of the types registered
(`Names`). -/
theorem names_of_declarations (hmade : registry.OfDeclarations) :
    registry.namespaces.Proper ∧ ∃ types, registry.Names types := by
  -- The list of registered types grows with each type that is registered, and with nothing else.
  induction hmade with
  | empty =>
    refine ⟨NamespaceTree.proper_empty, [], by simp, fun {id path} hid name => ?_, fun hash => rfl⟩
    -- The one namespace there is holds no type.
    rw [List.map_nil, if_neg List.not_mem_nil, NamespaceTree.typeIn?]
    cases hspace : Registry.empty.namespaces.space? id with
    | none => rfl
    | some space =>
      obtain rfl := List.mem_singleton.1 (List.mem_of_getElem? hspace)
      rfl
  | openScopes scopes _ ih =>
    obtain ⟨hproper, types, hnames⟩ := ih
    exact ⟨hproper, types, hnames.of_extends hproper (.refl _) scopes⟩
  | @makePath before path _ ih =>
    obtain ⟨hproper, types, hnames⟩ := ih
    obtain ⟨hlater, hextends, _⟩ := NamespaceTree.makePath_spec hproper hproper.root path
    exact ⟨hlater, types, hnames.of_extends hlater hextends before.scopes⟩
  | registerType type _ ih =>
    obtain ⟨hproper, types, hnames⟩ := ih
    obtain ⟨hlater, ⟨_, hsame, _⟩ | ⟨_, hmore, _⟩⟩ := registerType_cases hproper hnames type
    · exact ⟨hlater, _, hsame⟩
    · exact ⟨hlater, _, hmore⟩
  | registerExtension extension _ ih =>
    obtain ⟨hproper, types, hnames⟩ := ih
    exact names_registerExtension hproper hnames extension

theorem ofDeclarations_withBuiltIns : withBuiltIns.OfDeclarations :=
  withBuiltIns_induction .empty fun _ type h => .registerType type h

/-- The registry that `declareFiles` makes is `OfDeclarations`. -/
theorem ofDeclarations_declareFiles (files : List SourceFile) :
    (Assembly.declareFiles files).registry.OfDeclarations :=
  Assembly.declareFiles_induction ofDeclarations_withBuiltIns
    (fun _ _ scope h => .openScopes _ (h.makePath scope.path))
    (fun _ type h => .registerType type h) (fun _ extension h => .registerExtension extension h)
    files

/-! ## Replacement -/

/-- A type that `registerType` registers is found by its hash, and every other hash stands for what
it stood for before. -/
theorem type?_registerType {type : NamedType} (h : (registry.registerType type).1 = .ok ())
    (hash : TypeHash) : (registry.registerType type).2.type? hash =
      if type.hash = hash then some type else registry.type? hash := by
  unfold registerType at h ⊢
  dsimp only at h ⊢
  split at h
  next => cases h
  next => exact registry.types.find?_insert type.hash hash type

/-- `registerType` changes no type where it fails. -/
theorem type?_registerType_of_ne {type : NamedType} (h : (registry.registerType type).1 ≠ .ok ())
    (hash : TypeHash) : (registry.registerType type).2.type? hash = registry.type? hash := by
  unfold registerType at h ⊢
  dsimp only at h ⊢
  split at h
  next => rfl
  next => exact absurd rfl h

/-- After `registerType`, a type whose name is free leaves all types as they are if its hash is free
as well; otherwise it replaces one of another name. -/
theorem Names.keeps_iff (hnames : registry.Names types) {type : NamedType}
    (hfree : type.name ∉ types.map (·.name)) (h : (registry.registerType type).1 = .ok ()) :
    (∀ hash old, registry.type? hash = some old →
        (registry.registerType type).2.type? hash = some old) ↔
      registry.type? type.hash = none := by
  constructor
  · intro hkept
    by_contra hfound
    obtain ⟨old, hold⟩ := Option.ne_none_iff_exists'.1 hfound
    -- The type found before would be the new one, and its name was free.
    have hnew := hkept type.hash old hold
    rw [type?_registerType h, if_pos rfl] at hnew
    obtain rfl := Option.some.inj hnew
    exact hfree (List.mem_map_of_mem (hnames.mem_of_type? hold).1)
  · intro hnone hash old hold
    rw [type?_registerType h, if_neg]
    · exact hold
    · rintro rfl
      rw [hnone] at hold
      cases hold

/-- `registerType` registers a type if its name is free, and reports it as a duplicate otherwise. It
keeps all types registered before if no name that is taken has its hash, and replaces one
otherwise. -/
theorem registerType_keeps_iff (hmade : registry.OfDeclarations) (type : NamedType) :
    let outcome := registry.registerType type
    (outcome.1 = .ok () ↔ ¬registry.Declares type.name) ∧
      (outcome.1 ≠ .ok () → outcome.1 = .error (.duplicate type.name type.span) ∧
        ∀ hash, outcome.2.type? hash = registry.type? hash) ∧
      (outcome.1 = .ok () →
        (registry.type? type.hash = none ↔
          ∀ name, registry.Declares name → name.hash ≠ type.hash) ∧
        ((∀ hash old, registry.type? hash = some old → outcome.2.type? hash = some old) ↔
          ∀ name, registry.Declares name → name.hash ≠ type.hash)) := by
  intro outcome
  obtain ⟨hproper, types, hnames⟩ := names_of_declarations hmade
  rw [hnames.declares_iff]
  obtain ⟨_, ⟨htaken, _, hfault⟩ | ⟨hfree, _, hdone⟩⟩ := registerType_cases hproper hnames type
  · -- The name is taken, so the type is not registered, and nothing is replaced.
    have hfailed : outcome.1 ≠ .ok () := by
      intro hdone
      cases hfault.symm.trans hdone
    exact ⟨⟨fun h => absurd h hfailed, fun h => absurd htaken h⟩,
      fun _ => ⟨hfault, type?_registerType_of_ne hfailed⟩, fun h => absurd h hfailed⟩
  · refine ⟨⟨fun _ => hfree, fun _ => hdone⟩, fun h => absurd hdone h, fun _ =>
      ⟨hnames.type?_eq_none_iff, ?_⟩⟩
    exact (hnames.keeps_iff hfree hdone).trans hnames.type?_eq_none_iff

/-- A class of the global namespace whose name looks like that of a type in another namespace. -/
def joinedType : NamedType := .bare (.global "A::B") .plainClass .unplaced

/-- The type that has the name that `joinedType` looks like. -/
def nestedType : NamedType := .bare ⟨["A"], "B"⟩ .struct .unplaced

/-- Beside `joinedType`, a type `C` in `A` is registered and replaces nothing. -/
theorem registerType_keeps_iff_joined :
    let registry := (withBuiltIns.registerType joinedType).2
    let type := NamedType.bare ⟨["A"], "C"⟩ .struct .unplaced
    (registry.registerType type).1 = .ok () ∧ ¬registry.Declares type.name ∧
      ∀ hash old, registry.type? hash = some old →
        (registry.registerType type).2.type? hash = some old := by
  intro registry type
  obtain ⟨hdone, _, hkeeps⟩ :=
    registerType_keeps_iff (.registerType joinedType ofDeclarations_withBuiltIns) type
  have hok : (registry.registerType type).1 = .ok () := by decide +kernel
  have hfree : registry.type? type.hash = none := by decide +kernel
  exact ⟨hok, hdone.1 hok, (hkeeps hok).2.2 ((hkeeps hok).1.1 hfree)⟩

/-- `nestedType`, `B` in `A`, replaces `joinedType`, a class with the name `A::B`, and nothing is
reported. -/
theorem registerType_replaces_joined :
    let registry := (withBuiltIns.registerType joinedType).2
    let outcome := registry.registerType nestedType
    registry.OfDeclarations ∧ outcome.1 = .ok () ∧ nestedType.hash = joinedType.hash ∧
      registry.type? joinedType.hash = some joinedType ∧
      outcome.2.type? joinedType.hash = some nestedType :=
  ⟨.registerType joinedType ofDeclarations_withBuiltIns, by decide +kernel, by decide +kernel,
    by decide +kernel, by decide +kernel⟩

end Registry

end ExtensionMembers
