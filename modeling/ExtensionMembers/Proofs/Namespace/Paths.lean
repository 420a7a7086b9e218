import ExtensionMembers.Namespace.Tree
import Mathlib.Data.List.Infix
import Mathlib.Data.List.Nodup

/-!
# Namespaces and their paths

A namespace is known by a number, but what it stands for is its path. In a proper tree each path
belongs to one namespace, so numbers can be exchanged for paths and back.

* `NamespaceTree.Proper`: no path comes twice, and none without those around it.
* `NamespaceTree.Extends`: a tree has all namespaces of another one, with the same types.
* `makePath_spec`, `makePath_eq_of_path?`: what making a path adds to a proper tree.
* `declareType_free`, `declareType_taken`, `declareExtension_spec`: declarations add no namespace.
-/

namespace ExtensionMembers

namespace NamespaceTree

/-- The paths (`Namespace.path`) of all namespaces, in order of creation. -/
def paths (tree : NamespaceTree) : List NamespacePath := tree.spaces.map (·.path)

theorem path?_eq_getElem? (tree : NamespaceTree) (id : NamespaceId) :
    tree.path? id = tree.paths[id.index]? := by
  simp [path?, space?, paths]

theorem mem_paths_iff {tree : NamespaceTree} {path : NamespacePath} :
    path ∈ tree.paths ↔ ∃ id, tree.path? id = some path := by
  simp only [List.mem_iff_getElem?, path?_eq_getElem?]
  exact ⟨fun ⟨index, h⟩ => ⟨⟨index⟩, h⟩, fun ⟨id, h⟩ => ⟨id.index, h⟩⟩

/-- A namespace that has a `path?` exists. -/
theorem lt_length_of_path? {tree : NamespaceTree} {id : NamespaceId} {path : NamespacePath}
    (h : tree.path? id = some path) : id.index < tree.spaces.length := by
  obtain ⟨space, hspace, _⟩ := Option.map_eq_some_iff.1 h
  exact (List.getElem?_eq_some_iff.1 hspace).1

/-- `typeIn?` finds a name only in a namespace that exists. -/
theorem exists_path?_of_typeIn? {tree : NamespaceTree} {id : NamespaceId} {name : String}
    (h : (tree.typeIn? id name).isSome) : ∃ path, tree.path? id = some path := by
  obtain ⟨hash, hhash⟩ := Option.isSome_iff_exists.1 h
  obtain ⟨space, hspace, _⟩ := Option.bind_eq_some_iff.1 hhash
  exact ⟨space.path, Option.map_eq_some_iff.2 ⟨space, hspace, rfl⟩⟩

theorem path?_of_idOf? {tree : NamespaceTree} {path : NamespacePath} {id : NamespaceId}
    (h : tree.idOf? path = some id) : tree.path? id = some path := by
  obtain ⟨index, hindex, rfl⟩ := Option.map_eq_some_iff.1 h
  obtain ⟨hlt, hpath, _⟩ := List.findIdx?_eq_some_iff_getElem.1 hindex
  simpa [path?, space?, hlt] using hpath

theorem idOf?_eq_none_iff {tree : NamespaceTree} {path : NamespacePath} :
    tree.idOf? path = none ↔ path ∉ tree.paths := by
  simp only [idOf?, Option.map_eq_none_iff, List.findIdx?_eq_none_iff, paths, List.mem_map]
  simp

theorem path?_inj {tree : NamespaceTree} (hnodup : tree.paths.Nodup) {id other : NamespaceId}
    {path : NamespacePath} (h : tree.path? id = some path)
    (hother : tree.path? other = some path) : id = other := by
  rw [path?_eq_getElem?] at h hother
  have hlt := (List.getElem?_eq_some_iff.1 h).1
  exact congrArg NamespaceId.mk ((List.getElem?_inj hlt hnodup).1 (h.trans hother.symm))

theorem idOf?_eq_some_iff {tree : NamespaceTree} (hnodup : tree.paths.Nodup)
    {path : NamespacePath} {id : NamespaceId} :
    tree.idOf? path = some id ↔ tree.path? id = some path := by
  refine ⟨path?_of_idOf?, fun h => ?_⟩
  cases hfound : tree.idOf? path with
  | none => exact absurd (mem_paths_iff.2 ⟨id, h⟩) (idOf?_eq_none_iff.1 hfound)
  | some other => rw [path?_inj hnodup (path?_of_idOf? hfound) h]

/-- Each path belongs to one namespace, and the namespaces around it exist as well: what the
engine's `NamespaceTree` keeps as a tree. -/
structure Proper (tree : NamespaceTree) : Prop where
  nodup : tree.paths.Nodup
  root : tree.path? root = some []
  closed : ∀ path ∈ tree.paths, ∀ outer, outer <+: path → outer ∈ tree.paths

/-- The tree `later` has the namespaces of another one in their places, with the same types, and
perhaps more namespaces. -/
structure Extends (later tree : NamespaceTree) : Prop where
  path?_eq : ∀ {id path}, tree.path? id = some path → later.path? id = some path
  typeIn?_eq : ∀ id name, later.typeIn? id name = tree.typeIn? id name

theorem Extends.refl (tree : NamespaceTree) : tree.Extends tree := ⟨id, fun _ _ => rfl⟩

theorem Extends.trans {last later tree : NamespaceTree} (h : last.Extends later)
    (h' : later.Extends tree) : last.Extends tree :=
  ⟨fun hid => h.path?_eq (h'.path?_eq hid),
    fun id name => (h.typeIn?_eq id name).trans (h'.typeIn?_eq id name)⟩

/-- A path keeps its place (`idOf?`) in a tree that `Extends` another. -/
theorem Extends.idOf?_eq {later tree : NamespaceTree} (h : later.Extends tree)
    (hproper : tree.Proper) (hlater : later.Proper) {path : NamespacePath}
    (hpath : path ∈ tree.paths) : later.idOf? path = tree.idOf? path := by
  obtain ⟨id, hid⟩ := mem_paths_iff.1 hpath
  rw [(idOf?_eq_some_iff hproper.nodup).2 hid,
    (idOf?_eq_some_iff hlater.nodup).2 (h.path?_eq hid)]

/-! ## Making namespaces -/

theorem paths_append (tree : NamespaceTree) (path : NamespacePath) :
    (tree.append path).paths = tree.paths ++ [path] := by
  simp [append, paths, Namespace.empty]

/-- `append` of a new path keeps the paths different. -/
theorem nodup_paths_append {tree : NamespaceTree} (hproper : tree.Proper) {path : NamespacePath}
    (hnew : path ∉ tree.paths) : (tree.append path).paths.Nodup := by
  rw [paths_append]
  exact hproper.nodup.append (List.nodup_singleton _) (by simpa using hnew)

/-- `append` makes the last namespace. -/
theorem path?_append_length (tree : NamespaceTree) (path : NamespacePath) :
    (tree.append path).path? ⟨tree.spaces.length⟩ = some path := by
  simp [path?, space?, append, Namespace.empty]

theorem extends_append (tree : NamespaceTree) (path : NamespacePath) :
    (tree.append path).Extends tree := by
  constructor
  · intro id other h
    rw [path?_eq_getElem?] at h ⊢
    rw [paths_append, List.getElem?_append_left (List.getElem?_eq_some_iff.1 h).1, h]
  · intro id name
    rw [typeIn?, typeIn?, space?_append]
    split
    next h =>
      -- The new place was empty before, and so it is now.
      have hnone : tree.space? id = none := by simp [space?, h]
      rw [hnone]
      rfl
    next => rfl

theorem makeChild_spec {tree : NamespaceTree} (hproper : tree.Proper) {parent : NamespaceId}
    {base : NamespacePath} (hparent : tree.path? parent = some base) (name : String) :
    let made := tree.makeChild parent name
    made.1.Proper ∧ made.1.Extends tree ∧ made.1.path? made.2 = some (base ++ [name]) ∧
      ∀ path, path ∈ made.1.paths ↔ path ∈ tree.paths ∨ path = base ++ [name] := by
  intro made
  have hchild : tree.child? parent name = tree.idOf? (base ++ [name]) := by
    rw [child?, hparent]
    rfl
  -- The child is there already, or it is put at the end.
  cases hfound : tree.idOf? (base ++ [name]) with
  | some id =>
    have hmade : made = (tree, id) := by simp [made, makeChild, hchild, hfound]
    have hpath := path?_of_idOf? hfound
    rw [hmade]
    refine ⟨hproper, .refl tree, hpath, fun path => ⟨.inl, ?_⟩⟩
    rintro (hin | rfl)
    · exact hin
    · exact mem_paths_iff.2 ⟨id, hpath⟩
  | none =>
    have hmade : made = (tree.append (base ++ [name]), ⟨tree.spaces.length⟩) := by
      simp [made, makeChild, hchild, hfound, hparent]
    have hout := idOf?_eq_none_iff.1 hfound
    rw [hmade]
    refine ⟨⟨?_, ?_, ?_⟩, extends_append tree _, ?_, ?_⟩
    · exact nodup_paths_append hproper hout
    · exact (extends_append tree _).path?_eq hproper.root
    · intro path hpath outer houter
      rw [paths_append, List.mem_append, List.mem_singleton] at hpath ⊢
      rcases hpath with hpath | rfl
      · exact .inl (hproper.closed path hpath outer houter)
      · -- What lies around the new path is the path itself or lies around its parent.
        rcases List.prefix_concat_iff.1 houter with rfl | houter
        · exact .inr rfl
        · exact .inl (hproper.closed base (mem_paths_iff.2 ⟨parent, hparent⟩) outer houter)
    · exact path?_append_length tree _
    · simp [paths_append]

/-- `makePath` in a `Proper` tree makes what is missing of the path, and nothing else. -/
theorem makePath_spec {tree : NamespaceTree} (hproper : tree.Proper) {start : NamespaceId}
    {base : NamespacePath} (hstart : tree.path? start = some base) (path : NamespacePath) :
    let made := tree.makePath start path
    made.1.Proper ∧ made.1.Extends tree ∧ made.1.path? made.2 = some (base ++ path) ∧
      ∀ other, other ∈ made.1.paths ↔ other ∈ tree.paths ∨ other <+: base ++ path := by
  -- Name by name: after the first the tree is another proper one, from which the rest is made.
  induction path generalizing tree start base with
  | nil =>
    refine ⟨hproper, .refl tree, by simpa [makePath] using hstart, fun other => ⟨.inl, ?_⟩⟩
    rintro (hin | houter)
    · exact hin
    · exact hproper.closed base (mem_paths_iff.2 ⟨start, hstart⟩) other (by simpa using houter)
  | cons name rest ih =>
    obtain ⟨hchild, hextends, hpath, hmem⟩ := makeChild_spec hproper hstart name
    obtain ⟨hmade, hextends', hpath', hmem'⟩ := ih hchild hpath
    rw [List.append_assoc, List.singleton_append] at hpath' hmem'
    refine ⟨hmade, hextends'.trans hextends, hpath', fun other => ?_⟩
    have hfirst : other = base ++ [name] → other <+: base ++ name :: rest := by
      rintro rfl
      exact ⟨rest, by simp⟩
    rw [makePath, hmem', hmem, or_assoc, or_iff_right_of_imp hfirst]

/-- `makePath` finds a path that is there already, and makes nothing. -/
theorem makePath_eq_of_path? {tree : NamespaceTree} (hproper : tree.Proper)
    {start id : NamespaceId} {base path : NamespacePath} (hstart : tree.path? start = some base)
    (hid : tree.path? id = some (base ++ path)) : tree.makePath start path = (tree, id) := by
  induction path generalizing start base with
  | nil =>
    rw [List.append_nil] at hid
    rw [makePath, path?_inj hproper.nodup hstart hid]
  | cons name rest ih =>
    have hin : base ++ [name] ∈ tree.paths :=
      hproper.closed _ (mem_paths_iff.2 ⟨id, hid⟩) _ ⟨rest, by simp⟩
    obtain ⟨child, hchild⟩ := mem_paths_iff.1 hin
    have hmade : tree.makeChild start name = (tree, child) := by
      simp [makeChild, child?, hstart, (idOf?_eq_some_iff hproper.nodup).2 hchild]
    rw [makePath, hmade]
    exact ih hchild (by simpa using hid)

theorem idOf?_congr {tree other : NamespaceTree} (h : tree.paths = other.paths)
    (path : NamespacePath) : tree.idOf? path = other.idOf? path := by
  have hindex : ∀ tree : NamespaceTree,
      tree.idOf? path = (tree.paths.findIdx? (· = path)).map NamespaceId.mk := by
    intro tree
    rw [idOf?, paths, List.findIdx?_map]
    rfl
  rw [hindex, hindex, h]

theorem path?_congr {tree other : NamespaceTree} (h : tree.paths = other.paths)
    (id : NamespaceId) : tree.path? id = other.path? id := by
  rw [path?_eq_getElem?, path?_eq_getElem?, h]

theorem makeChild_congr {tree other : NamespaceTree} (h : tree.paths = other.paths)
    (parent : NamespaceId) (name : String) :
    (tree.makeChild parent name).1.paths = (other.makeChild parent name).1.paths ∧
      (tree.makeChild parent name).2 = (other.makeChild parent name).2 := by
  have hchild : tree.child? parent name = other.child? parent name := by
    simp only [child?, path?_congr h, idOf?_congr h]
  have hlength : tree.spaces.length = other.spaces.length := by
    simpa [paths] using congrArg List.length h
  unfold makeChild
  rw [hchild, path?_congr h]
  split
  · exact ⟨h, rfl⟩
  · exact ⟨by rw [paths_append, paths_append, h], by rw [hlength]⟩
  · exact ⟨h, rfl⟩

/-- `makePath` depends on the paths that are there already. -/
theorem makePath_congr {tree other : NamespaceTree} (h : tree.paths = other.paths)
    (start : NamespaceId) (path : NamespacePath) :
    (tree.makePath start path).1.paths = (other.makePath start path).1.paths ∧
      (tree.makePath start path).2 = (other.makePath start path).2 := by
  induction path generalizing tree other start with
  | nil => exact ⟨h, rfl⟩
  | cons name rest ih =>
    obtain ⟨hpaths, hid⟩ := makeChild_congr h start name
    rw [makePath, makePath, hid]
    exact ih hpaths _

/-- The namespaces made by `makePath` along some paths, one after the other, with nothing declared
in them. -/
def ofPaths (paths : List NamespacePath) : NamespaceTree :=
  paths.foldl (fun tree path => (tree.makePath root path).1) empty

theorem ofPaths_concat (before : List NamespacePath) (path : NamespacePath) :
    ofPaths (before ++ [path]) = ((ofPaths before).makePath root path).1 := by
  rw [ofPaths, List.foldl_concat, ← ofPaths]

theorem proper_empty : empty.Proper := by
  refine ⟨List.nodup_singleton _, rfl, fun path hpath outer houter => ?_⟩
  obtain rfl := List.mem_singleton.1 hpath
  exact List.mem_singleton.2 (List.prefix_nil.1 houter)

/-- `ofPaths` has the namespaces on these paths and no others. -/
theorem ofPaths_spec (made : List NamespacePath) :
    (ofPaths made).Proper ∧
      ∀ path, path ∈ (ofPaths made).paths ↔ path = [] ∨ ∃ other ∈ made, path <+: other := by
  induction made using List.reverseRecOn with
  | nil => exact ⟨proper_empty, by simp [ofPaths, empty, paths, Namespace.empty]⟩
  | append_singleton before last ih =>
    obtain ⟨hproper, hmem⟩ := ih
    obtain ⟨hlater, _, _, hlaterMem⟩ := makePath_spec hproper hproper.root last
    rw [ofPaths_concat]
    refine ⟨hlater, fun path => ?_⟩
    rw [hlaterMem, hmem]
    simp [or_assoc, or_and_right, exists_or]

/-! ## Declarations -/

theorem paths_modify (tree : NamespaceTree) (id : NamespaceId) (change : Namespace → Namespace)
    (hpath : ∀ space, (change space).path = space.path) :
    (tree.modify id change).paths = tree.paths := by
  refine List.ext_getElem? fun index => ?_
  simp only [paths, modify, List.getElem?_map, List.getElem?_modify]
  split <;> cases tree.spaces[index]? <;> simp [hpath]

theorem Proper.of_paths_eq {tree later : NamespaceTree} (hproper : tree.Proper)
    (h : later.paths = tree.paths) : later.Proper := by
  refine ⟨h ▸ hproper.nodup, ?_, h ▸ hproper.closed⟩
  rw [path?_eq_getElem?, h, ← path?_eq_getElem?]
  exact hproper.root

/-- `declareType` refuses a name that is taken in the namespace. -/
theorem declareType_taken {tree : NamespaceTree} {id : NamespaceId} {path : NamespacePath}
    (hid : tree.path? id = some path) {name : String} (htaken : (tree.typeIn? id name).isSome)
    (hash : TypeHash) :
    tree.declareType id name hash = .error (.duplicate ⟨path, name⟩ .unplaced) := by
  obtain ⟨space, hspace, rfl⟩ := Option.map_eq_some_iff.1 hid
  have hcontains : space.types.contains name = true := by
    simpa [typeIn?, hspace, Table.contains] using htaken
  simp [declareType, hspace, hcontains]

/-- `declareType` declares a name that is free in the namespace, and changes no other name. -/
theorem declareType_free {tree : NamespaceTree} {id : NamespaceId} {path : NamespacePath}
    (hid : tree.path? id = some path) {name : String} (hfree : tree.typeIn? id name = none)
    (hash : TypeHash) :
    ∃ later, tree.declareType id name hash = .ok later ∧ later.paths = tree.paths ∧
      ∀ other simple, later.typeIn? other simple =
        if id = other ∧ name = simple then some hash else tree.typeIn? other simple := by
  obtain ⟨space, hspace, rfl⟩ := Option.map_eq_some_iff.1 hid
  have hcontains : space.types.contains name = false := by
    simpa [typeIn?, hspace, Table.contains] using hfree
  refine ⟨tree.modify id fun space => { space with types := space.types.insert name hash },
    by simp [declareType, hspace, hcontains], paths_modify tree id _ fun _ => rfl,
    fun other simple => ?_⟩
  rw [typeIn?, space?_modify, typeIn?]
  by_cases hother : id = other
  · subst hother
    simp [hspace, Table.find?_insert]
  · simp [hother]

/-- `declareExtension` changes no type. -/
theorem declareExtension_spec {tree : NamespaceTree} {id : NamespaceId} {path : NamespacePath}
    (hid : tree.path? id = some path) (extension : ExtensionId) :
    ∃ later, tree.declareExtension id extension = .ok later ∧ later.paths = tree.paths ∧
      ∀ other simple, later.typeIn? other simple = tree.typeIn? other simple := by
  obtain ⟨space, hspace, rfl⟩ := Option.map_eq_some_iff.1 hid
  refine ⟨tree.modify id fun space =>
      { space with extensions := space.extensions ++ [extension] },
    by simp [declareExtension, hspace], paths_modify tree id _ fun _ => rfl,
    fun other simple => ?_⟩
  rw [typeIn?, space?_modify, typeIn?]
  split <;> cases tree.space? other <;> rfl

end NamespaceTree

end ExtensionMembers
