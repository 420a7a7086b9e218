import ExtensionMembers.Proofs.Namespace.Search

/-!
# Operations on a namespace tree

A tree is written by four operations: a namespace is made within another one, namespaces are made
along a path, and a type or an extension is declared. Namespaces that are made come after all
others, and a declaration is written into one namespace, so whatever else there is stays as it is.

## Main definitions

* `NamespaceTree.Operation`, `NamespaceTree.apply`, `NamespaceTree.run`: the operations.
* `NamespaceTree.Fitting`: namespaces are made only within namespaces that exist.
* `NamespaceTree.Grown`: the trees that operations lead to.

## Main results

* `NamespaceTree.proper_run`, `NamespaceTree.Grown.proper`: such a tree is proper.
* `NamespaceTree.space?_apply`, `NamespaceTree.parent?_apply`: what an operation leaves alone.
-/

namespace ExtensionMembers

namespace NamespaceTree

variable {tree later : NamespaceTree} {id : NamespaceId} {space : Namespace}

/-! ## Steps said by paths -/

/-- A namespace exists (`space?`) if it has a path. -/
theorem isSome_space?_iff : (tree.space? id).isSome ↔ ∃ path, tree.path? id = some path := by
  rw [path?, ← Option.isSome_iff_exists, Option.isSome_map]

/-- `child?` gives the namespace whose path has the name in addition. -/
theorem child?_eq_some_iff (hproper : tree.Proper) {parent : NamespaceId} {name : String} :
    tree.child? parent name = some id ↔ ∃ path,
      tree.path? parent = some path ∧ tree.path? id = some (path ++ [name]) := by
  simp only [child?, Option.bind_eq_some_iff, idOf?_eq_some_iff hproper.nodup]

/-- `parent?` gives the namespace whose path lacks the last name. -/
theorem parent?_eq_some_iff (hproper : tree.Proper) {parent : NamespaceId} :
    tree.parent? id = some parent ↔ ∃ outer name,
      tree.path? id = some (outer ++ [name]) ∧ tree.path? parent = some outer := by
  constructor
  · intro h
    cases hpath : tree.path? id with
    | none =>
      rw [parent?, enclosing, NamespaceTree.path, hpath] at h
      cases h
    | some whole =>
      rcases parent?_cases hproper hpath with ⟨_, hnone⟩ | ⟨outer, name, around, rfl, haround, hid⟩
      · rw [hnone] at h
        cases h
      · obtain rfl := Option.some.inj (haround.symm.trans h)
        exact ⟨outer, name, rfl, hid⟩
  · rintro ⟨outer, name, hpath, hparent⟩
    obtain ⟨around, haround, henclosing⟩ := exists_enclosing_eq_cons hproper hpath
    rw [parent?, henclosing, List.head?_cons, path?_inj hproper.nodup haround hparent]

/-! ## What is written -/

/-- `makeChild` makes one namespace at most, at the end and with nothing in it. -/
theorem spaces_makeChild (tree : NamespaceTree) (parent : NamespaceId) (name : String) :
    ∃ made : List NamespacePath,
      (tree.makeChild parent name).1.spaces = tree.spaces ++ made.map Namespace.empty := by
  unfold makeChild
  split
  next => exact ⟨[], (List.append_nil _).symm⟩
  next => exact ⟨[_], rfl⟩
  next => exact ⟨[], (List.append_nil _).symm⟩

/-- `makePath` makes namespaces at the end, with nothing in them. -/
theorem spaces_makePath (tree : NamespaceTree) (start : NamespaceId) (path : NamespacePath) :
    ∃ made : List NamespacePath,
      (tree.makePath start path).1.spaces = tree.spaces ++ made.map Namespace.empty := by
  induction path generalizing tree start with
  | nil => exact ⟨[], (List.append_nil _).symm⟩
  | cons name rest ih =>
    obtain ⟨first, hfirst⟩ := tree.spaces_makeChild start name
    obtain ⟨more, hmore⟩ := ih (tree.makeChild start name).1 (tree.makeChild start name).2
    refine ⟨first ++ more, ?_⟩
    rw [makePath, hmore, hfirst, List.append_assoc, List.map_append]

/-- What is made at the end moves no `space?`. -/
theorem space?_of_append {made : List Namespace} (h : later.spaces = tree.spaces ++ made)
    (hspace : tree.space? id = some space) : later.space? id = some space := by
  rw [space?, h, List.getElem?_append_left (List.getElem?_eq_some_iff.1 hspace).1]
  exact hspace

/-- `declareType` writes a type into the types of its namespace. -/
theorem eq_modify_of_declareType {name : String} {hash : TypeHash}
    (h : tree.declareType id name hash = .ok later) :
    later = tree.modify id fun space => { space with types := space.types.insert name hash } := by
  unfold declareType at h
  split at h
  · cases h
  · split at h
    · cases h
    · exact (Except.ok.inj h).symm

/-- `declareExtension` writes an extension into the extensions of its namespace. -/
theorem eq_modify_of_declareExtension {extension : ExtensionId}
    (h : tree.declareExtension id extension = .ok later) :
    later = tree.modify id fun space =>
      { space with extensions := space.extensions ++ [extension] } := by
  unfold declareExtension at h
  split at h
  · cases h
  · exact (Except.ok.inj h).symm

/-! ## Operations -/

/-- An operation on a `NamespaceTree`. -/
inductive Operation where
  /-- Make the namespace of a simple name within another one. -/
  | makeChild (parent : NamespaceId) (name : String)
  /-- Make the namespaces along a path. -/
  | makePath (start : NamespaceId) (path : NamespacePath)
  /-- Declare a type in a namespace. -/
  | declareType (id : NamespaceId) (name : String) (hash : TypeHash)
  /-- Declare an extension in a namespace. -/
  | declareExtension (id : NamespaceId) (extension : ExtensionId)
deriving DecidableEq

namespace Operation

/-- An `Operation` makes namespaces only within namespaces that exist; a declaration may be tried
anywhere. -/
def Fits (tree : NamespaceTree) : Operation → Prop
  | makeChild start _ | makePath start _ => (tree.space? start).isSome
  | declareType .. | declareExtension .. => True

instance Fits.decidable (tree : NamespaceTree) : (operation : Operation) →
    Decidable (operation.Fits tree)
  | makeChild start _ | makePath start _ =>
    inferInstanceAs (Decidable ((tree.space? start).isSome = true))
  | declareType .. | declareExtension .. => .isTrue trivial

/-- The namespace that an `Operation` declares something in. -/
def declaresIn? : Operation → Option NamespaceId
  | makeChild .. | makePath .. => none
  | declareType id .. | declareExtension id _ => some id

end Operation

/-- The tree after an `Operation`. A declaration that fails leaves the tree as it is. -/
def apply (tree : NamespaceTree) : Operation → NamespaceTree
  | .makeChild parent name => (tree.makeChild parent name).1
  | .makePath start path => (tree.makePath start path).1
  | .declareType id name hash => (tree.declareType id name hash).toOption.getD tree
  | .declareExtension id extension => (tree.declareExtension id extension).toOption.getD tree

/-- The tree after some operations, one `apply` each. -/
def run (tree : NamespaceTree) (operations : List Operation) : NamespaceTree :=
  operations.foldl apply tree

/-- Each of some operations `Fits` the tree that those before it lead to. -/
def Fitting (tree : NamespaceTree) : List Operation → Prop
  | [] => True
  | operation :: rest => operation.Fits tree ∧ (tree.apply operation).Fitting rest

instance Fitting.decidable (tree : NamespaceTree) :
    (operations : List Operation) → Decidable (tree.Fitting operations)
  | [] => .isTrue trivial
  | operation :: rest =>
    have := Fitting.decidable (tree.apply operation) rest
    inferInstanceAs (Decidable (operation.Fits tree ∧ (tree.apply operation).Fitting rest))

theorem fitting_concat {operations : List Operation} {operation : Operation} :
    tree.Fitting (operations ++ [operation]) ↔
      tree.Fitting operations ∧ operation.Fits (tree.run operations) := by
  induction operations generalizing tree with
  | nil => simp [Fitting, run]
  | cons first rest ih =>
    rw [List.cons_append, Fitting, Fitting, ih, and_assoc, run, run, List.foldl_cons]

theorem run_concat (tree : NamespaceTree) (operations : List Operation) (operation : Operation) :
    tree.run (operations ++ [operation]) = (tree.run operations).apply operation :=
  List.foldl_concat ..

/-! ## What an operation leaves alone -/

variable {operation : Operation}

/-- What `apply` can do: make namespaces at the end, change what is in one namespace, or nothing. -/
theorem apply_cases (tree : NamespaceTree) (operation : Operation) :
    (operation.declaresIn? = none ∧ ∃ made : List NamespacePath,
        (tree.apply operation).spaces = tree.spaces ++ made.map Namespace.empty) ∨
      (∃ id change, operation.declaresIn? = some id ∧
        (∀ space, (change space).path = space.path) ∧
        tree.apply operation = tree.modify id change) ∨
      tree.apply operation = tree := by
  cases operation with
  | makeChild parent name => exact .inl ⟨rfl, tree.spaces_makeChild parent name⟩
  | makePath start path => exact .inl ⟨rfl, tree.spaces_makePath start path⟩
  | declareType id name hash =>
    rw [apply]
    cases hdone : tree.declareType id name hash with
    | error fault => exact .inr (.inr rfl)
    | ok later =>
      refine .inr (.inl ⟨id, _, rfl, ?_, eq_modify_of_declareType hdone⟩)
      exact fun _ => rfl
  | declareExtension id extension =>
    rw [apply]
    cases hdone : tree.declareExtension id extension with
    | error fault => exact .inr (.inr rfl)
    | ok later =>
      refine .inr (.inl ⟨id, _, rfl, ?_, eq_modify_of_declareExtension hdone⟩)
      exact fun _ => rfl

/-- `apply` leaves a namespace in which nothing is declared as it is. -/
theorem space?_apply (hspace : tree.space? id = some space)
    (hid : operation.declaresIn? ≠ some id) : (tree.apply operation).space? id = some space := by
  rcases apply_cases tree operation with ⟨_, made, hmade⟩ | ⟨other, change, hother, _, hchange⟩ |
    hsame
  · exact space?_of_append hmade hspace
  · have hne : other ≠ id := fun h => hid (hother.trans (congrArg some h))
    rw [hchange, space?_modify, if_neg hne, hspace]
  · rw [hsame, hspace]

/-- `apply` changes the path of no namespace. -/
theorem path?_apply {path : NamespacePath} (hpath : tree.path? id = some path) :
    (tree.apply operation).path? id = some path := by
  rcases apply_cases tree operation with ⟨_, made, hmade⟩ | ⟨other, change, _, hkeeps, hchange⟩ |
    hsame
  · obtain ⟨space, hspace, rfl⟩ := Option.map_eq_some_iff.1 hpath
    rw [path?, space?_of_append hmade hspace, Option.map_some]
  · rw [hchange, path?_congr (paths_modify tree other change hkeeps), hpath]
  · rw [hsame, hpath]

/-- `apply` of a declaration changes no path and makes none. -/
theorem paths_apply (h : operation.declaresIn?.isSome) :
    (tree.apply operation).paths = tree.paths := by
  rcases apply_cases tree operation with ⟨hnone, _⟩ | ⟨id, change, _, hkeeps, hchange⟩ | hsame
  · rw [hnone] at h
    cases h
  · rw [hchange, paths_modify tree id change hkeeps]
  · rw [hsame]

/-- `apply` keeps a tree `Proper`. -/
theorem Proper.apply (hproper : tree.Proper) (hfits : operation.Fits tree) :
    (tree.apply operation).Proper := by
  cases operation with
  | makeChild parent name =>
    obtain ⟨base, hbase⟩ := isSome_space?_iff.1 hfits
    exact (makeChild_spec hproper hbase name).1
  | makePath start path =>
    obtain ⟨base, hbase⟩ := isSome_space?_iff.1 hfits
    exact (makePath_spec hproper hbase path).1
  | declareType id name hash => exact hproper.of_paths_eq (paths_apply rfl)
  | declareExtension id extension => exact hproper.of_paths_eq (paths_apply rfl)

/-- `apply` gives no namespace another one around it. -/
theorem parent?_apply (hproper : tree.Proper) (hfits : operation.Fits tree)
    {path : NamespacePath} (hpath : tree.path? id = some path) :
    (tree.apply operation).parent? id = tree.parent? id := by
  have hlater := hproper.apply hfits
  -- What lies around is known by its path, which is kept.
  cases hparent : tree.parent? id with
  | some parent =>
    obtain ⟨outer, name, hid, houter⟩ := (parent?_eq_some_iff hproper).1 hparent
    exact (parent?_eq_some_iff hlater).2 ⟨outer, name, path?_apply hid, path?_apply houter⟩
  | none =>
    refine Option.eq_none_iff_forall_ne_some.2 fun parent hlaterParent => ?_
    obtain ⟨outer, name, hid, _⟩ := (parent?_eq_some_iff hlater).1 hlaterParent
    rw [path?_apply hpath, Option.some.injEq] at hid
    rw [hid] at hpath
    obtain ⟨around, _, henclosing⟩ := exists_enclosing_eq_cons hproper hpath
    rw [parent?, henclosing] at hparent
    cases hparent

/-! ## Grown trees -/

/-- `run` leads from trees that are `Proper` to such trees. -/
theorem proper_run (hproper : tree.Proper) {operations : List Operation}
    (hfitting : tree.Fitting operations) : (tree.run operations).Proper := by
  induction operations generalizing tree with
  | nil => exact hproper
  | cons operation rest ih => exact ih (hproper.apply hfitting.1) hfitting.2

/-- The trees that `run` leads to from the global namespace alone. -/
def Grown (tree : NamespaceTree) : Prop :=
  ∃ operations, empty.Fitting operations ∧ tree = empty.run operations

theorem Grown.proper (h : tree.Grown) : tree.Proper := by
  obtain ⟨operations, hfitting, rfl⟩ := h
  exact proper_run proper_empty hfitting

theorem Grown.apply (h : tree.Grown) (hfits : operation.Fits tree) :
    (tree.apply operation).Grown := by
  obtain ⟨operations, hfitting, rfl⟩ := h
  exact ⟨operations ++ [operation], fitting_concat.2 ⟨hfitting, hfits⟩, (run_concat ..).symm⟩

theorem Grown.empty : empty.Grown := ⟨[], trivial, rfl⟩

/-- `makeChild` makes nothing within a namespace that does not exist. -/
theorem makeChild_of_none {parent : NamespaceId} (h : tree.space? parent = none) (name : String) :
    tree.makeChild parent name = (tree, parent) := by
  have hpath : tree.path? parent = none := by rw [path?, h, Option.map_none]
  rw [makeChild, child?, hpath]
  rfl

theorem Grown.makeChild (h : tree.Grown) (parent : NamespaceId) (name : String) :
    (tree.makeChild parent name).1.Grown := by
  cases hspace : tree.space? parent with
  | none => rwa [makeChild_of_none hspace]
  | some space =>
    have hfits : (Operation.makeChild parent name).Fits tree :=
      Option.isSome_of_eq_some hspace
    exact h.apply hfits

theorem Grown.makePath (h : tree.Grown) (path : NamespacePath) :
    (tree.makePath root path).1.Grown := by
  have hfits : (Operation.makePath root path).Fits tree :=
    isSome_space?_iff.2 ⟨[], h.proper.root⟩
  exact h.apply hfits

theorem Grown.declareType (h : tree.Grown) {id : NamespaceId} {name : String} {hash : TypeHash}
    (hdone : tree.declareType id name hash = .ok later) : later.Grown := by
  have happly : tree.apply (.declareType id name hash) = later := by
    rw [NamespaceTree.apply, hdone]
    rfl
  exact happly ▸ h.apply trivial

theorem Grown.declareExtension (h : tree.Grown) {id : NamespaceId} {extension : ExtensionId}
    (hdone : tree.declareExtension id extension = .ok later) : later.Grown := by
  have happly : tree.apply (.declareExtension id extension) = later := by
    rw [NamespaceTree.apply, hdone]
    rfl
  exact happly ▸ h.apply trivial

end NamespaceTree

end ExtensionMembers
