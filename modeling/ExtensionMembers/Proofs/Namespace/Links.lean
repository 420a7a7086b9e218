import ExtensionMembers.Proofs.Namespace.Operations

/-!
# Namespaces known by links

The tree of namespaces can be kept without any path, as a graph: a link leads from a namespace to
one directly within it and carries its simple name, and the path of a namespace is read off the
links that are climbed from it. Nothing in such a graph says that it is a tree, that two links from
one namespace carry different names, or that climbing comes to an end. All this holds because the
operations keep it, and then links and paths say the same.

## Main definitions

* `NamespaceGraph`: namespaces with links, and the operations on them.
* `NamespaceGraph.Climbs`: climbing from a namespace to the one around it until there is none.
* `NamespaceGraph.TreeShaped`: the links make a tree.
* `NamespaceGraph.Mirrors`, `NamespaceGraph.Agrees`: a graph has the links of a tree, and answers
  as the tree does.

## Main results

* `NamespaceGraph.Mirrors.apply`: every operation does the same to both.
* `NamespaceGraph.Mirrors.treeShaped`, `NamespaceGraph.Mirrors.agrees`: what follows from it.
* `NamespaceTree.namespaces_match_paths`: namespaces and their paths, after any operations.
-/

namespace ExtensionMembers

/-! ## Graphs -/

/-- A link from a namespace to one directly within it, an edge of the engine's `NamespaceTree`. -/
structure NamespaceLink where
  /-- The namespace around the other one. -/
  outer : NamespaceId
  /-- The simple name of the other one. -/
  name : String
  /-- The namespace within. -/
  inner : NamespaceId
deriving DecidableEq

/-- What is declared directly in a namespace: a `Namespace` without its path. -/
structure NamespaceContents where
  /-- The types, by simple name. -/
  types : Table String TypeHash
  /-- The extensions, in order of declaration. -/
  extensions : List ExtensionId

/-- What is declared directly in a `Namespace` of a tree. -/
def Namespace.contents (space : Namespace) : NamespaceContents := ⟨space.types, space.extensions⟩

/-- Namespaces with links between them, as the engine's `NamespaceTree` keeps them. -/
structure NamespaceGraph where
  /-- What is declared in the namespaces, in order of creation. -/
  contents : List NamespaceContents
  /-- The links, the latest first. -/
  links : List NamespaceLink

namespace NamespaceGraph

/-- The graph of the global namespace alone, `NamespaceTree.empty` without paths. -/
def empty : NamespaceGraph := ⟨[⟨.empty, []⟩], []⟩

/-- The namespace of a simple name directly within another one, looked for among the links;
`NamespaceTree.child?` of the graph. -/
def child? (graph : NamespaceGraph) (outer : NamespaceId) (name : String) : Option NamespaceId :=
  (graph.links.find? fun link => link.outer = outer ∧ link.name = name).map (·.inner)

/-- The `NamespaceLink` that leads to a namespace, looked for among the links. -/
def linkTo? (graph : NamespaceGraph) (id : NamespaceId) : Option NamespaceLink :=
  graph.links.find? (·.inner = id)

/-- The namespace directly around a namespace, by its `linkTo?`. -/
def parent? (graph : NamespaceGraph) (id : NamespaceId) : Option NamespaceId :=
  (graph.linkTo? id).map (·.outer)

/-- The simple name of a namespace, by its `linkTo?`. -/
def name? (graph : NamespaceGraph) (id : NamespaceId) : Option String :=
  (graph.linkTo? id).map (·.name)

/-- The namespace that a path leads to, name by name (`child?`). -/
def follow? (graph : NamespaceGraph) (start : NamespaceId) (path : NamespacePath) :
    Option NamespaceId :=
  path.foldlM graph.child? start

/-- Climbing from a namespace to the one around it (`linkTo?`) until there is none: the names met on
the way, outermost first, and the namespace that is reached. -/
inductive Climbs (graph : NamespaceGraph) :
    NamespaceId → NamespacePath → NamespaceId → Prop
  /-- There is none around this one. -/
  | ended {id : NamespaceId} : graph.linkTo? id = none → Climbs graph id [] id
  /-- There is one, and climbing goes on from it. -/
  | outward {id top : NamespaceId} {link : NamespaceLink} {path : NamespacePath} :
      graph.linkTo? id = some link → Climbs graph link.outer path top →
      Climbs graph id (path ++ [link.name]) top

/-- The namespace of a simple name directly within another one (`child?`), made if it is missing. -/
def makeChild (graph : NamespaceGraph) (outer : NamespaceId) (name : String) :
    NamespaceGraph × NamespaceId :=
  match graph.child? outer name with
  | some child => (graph, child)
  | none =>
    let child : NamespaceId := ⟨graph.contents.length⟩
    (⟨graph.contents ++ [⟨.empty, []⟩], ⟨outer, name, child⟩ :: graph.links⟩, child)

/-- The namespace at the end of a relative path, with all that is missing on the way made by
`makeChild`. -/
def makePath (graph : NamespaceGraph) (start : NamespaceId) :
    NamespacePath → NamespaceGraph × NamespaceId
  | [] => (graph, start)
  | name :: rest =>
    let made := graph.makeChild start name
    made.1.makePath made.2 rest

/-- The graph with one more type, if there is the namespace and the name is free in it. -/
def declareType (graph : NamespaceGraph) (id : NamespaceId) (name : String) (hash : TypeHash) :
    NamespaceGraph :=
  match graph.contents[id.index]? with
  | none => graph
  | some contents =>
    if contents.types.contains name then graph
    else { graph with contents := graph.contents.modify id.index fun contents =>
      { contents with types := contents.types.insert name hash } }

/-- The graph with one more extension, if there is the namespace. -/
def declareExtension (graph : NamespaceGraph) (id : NamespaceId) (extension : ExtensionId) :
    NamespaceGraph :=
  match graph.contents[id.index]? with
  | none => graph
  | some _ => { graph with contents := graph.contents.modify id.index fun contents =>
      { contents with extensions := contents.extensions ++ [extension] } }

/-- The graph after an operation, as `NamespaceTree.apply` is the tree after it. -/
def apply (graph : NamespaceGraph) : NamespaceTree.Operation → NamespaceGraph
  | .makeChild parent name => (graph.makeChild parent name).1
  | .makePath start path => (graph.makePath start path).1
  | .declareType id name hash => graph.declareType id name hash
  | .declareExtension id extension => graph.declareExtension id extension

/-- The graph after some operations, one `apply` each. -/
def run (graph : NamespaceGraph) (operations : List NamespaceTree.Operation) : NamespaceGraph :=
  operations.foldl apply graph

/-- The `links` make a tree: from every namespace they lead to the global one in a single way. -/
structure TreeShaped (graph : NamespaceGraph) : Prop where
  /-- One link leads to every namespace but the global one, from a namespace made earlier. -/
  one_parent : ∀ id, id.index < graph.contents.length → id ≠ NamespaceTree.root →
    ∃ link, graph.links.filter (·.inner = id) = [link] ∧ link.outer.index < id.index
  /-- No link leads to the global namespace. -/
  no_parent : graph.links.filter (·.inner = NamespaceTree.root) = []
  /-- Links lead to namespaces that exist. -/
  within : ∀ link ∈ graph.links, link.inner.index < graph.contents.length
  /-- Namespaces directly within one have different names. -/
  siblings : ∀ link ∈ graph.links, ∀ other ∈ graph.links, link.outer = other.outer →
    link.name = other.name → link = other
  /-- Climbing ends at the global namespace. -/
  climbs : ∀ id, id.index < graph.contents.length →
    ∃ path, graph.Climbs id path NamespaceTree.root

/-- The graph answers as the tree does, and the names met in climbing (`Climbs`) make the path. -/
structure Agrees (graph : NamespaceGraph) (tree : NamespaceTree) : Prop where
  contents_eq : graph.contents = tree.spaces.map (·.contents)
  child?_eq : ∀ outer name, graph.child? outer name = tree.child? outer name
  parent?_eq : ∀ id, graph.parent? id = tree.parent? id
  name?_eq : ∀ id, graph.name? id = tree.name? id
  climbs_iff : ∀ {id path}, tree.path? id = some path → ∀ names top,
    graph.Climbs id names top ↔ names = path ∧ top = NamespaceTree.root

/-- The graph has the contents of `tree`, and a link for each namespace with a name, the later ones
leading from earlier ones. -/
structure Mirrors (graph : NamespaceGraph) (tree : NamespaceTree) : Prop where
  contents_eq : graph.contents = tree.spaces.map (·.contents)
  mem_links_iff : ∀ link, link ∈ graph.links ↔ ∃ outer,
    tree.path? link.outer = some outer ∧ tree.path? link.inner = some (outer ++ [link.name])
  nodup : (graph.links.map (·.inner)).Nodup
  earlier : ∀ link ∈ graph.links, link.outer.index < link.inner.index

/-! ## Steps along the links -/

/-- Where one thing at most passes a test, it is what `find?` finds. -/
theorem find?_eq_some_iff_mem {α : Type} {test : α → Bool} {list : List α}
    (hunique : ∀ a ∈ list, ∀ b ∈ list, test a = true → test b = true → a = b) {a : α} :
    list.find? test = some a ↔ a ∈ list ∧ test a = true := by
  refine ⟨fun h => ⟨List.mem_of_find?_eq_some h, List.find?_some h⟩, fun ⟨hin, htest⟩ => ?_⟩
  cases hfound : list.find? test with
  | none => exact absurd htest (List.find?_eq_none.1 hfound a hin)
  | some b =>
    rw [hunique b (List.mem_of_find?_eq_some hfound) a hin (List.find?_some hfound) htest]

namespace Mirrors

variable {graph : NamespaceGraph} {tree : NamespaceTree} {id : NamespaceId} {name : String}
  {path : NamespacePath} {link : NamespaceLink}

/-- Under `Mirrors`, every namespace that a link leads to exists. -/
theorem lt_length (h : graph.Mirrors tree) (hin : link ∈ graph.links) :
    link.inner.index < tree.spaces.length := by
  obtain ⟨_, _, hinner⟩ := (h.mem_links_iff link).1 hin
  exact NamespaceTree.lt_length_of_path? hinner

/-- Under `Mirrors`, one link leads to a namespace. -/
theorem linkTo?_eq_some_iff (h : graph.Mirrors tree) :
    graph.linkTo? id = some link ↔ link ∈ graph.links ∧ link.inner = id := by
  rw [linkTo?, find?_eq_some_iff_mem fun a ha b hb hta htb => ?_, decide_eq_true_eq]
  exact List.inj_on_of_nodup_map h.nodup ha hb
    ((of_decide_eq_true hta).trans (of_decide_eq_true htb).symm)

/-- Under `Mirrors`, no other link leads to the same namespace. -/
theorem filter_eq_singleton (h : graph.Mirrors tree) (hin : link ∈ graph.links) :
    graph.links.filter (·.inner = link.inner) = [link] := by
  have hnodup : (graph.links.filter (·.inner = link.inner)).Nodup :=
    h.nodup.of_map.filter _
  have hsame : ∀ other ∈ graph.links.filter (·.inner = link.inner), other = link := by
    intro other hother
    obtain ⟨hother, hinner⟩ := List.mem_filter.1 hother
    exact List.inj_on_of_nodup_map h.nodup hother hin (of_decide_eq_true hinner)
  refine List.perm_singleton.1 ((List.perm_ext_iff_of_nodup hnodup (List.nodup_singleton _)).2
    fun other => ⟨fun hother => List.mem_singleton.2 (hsame other hother), fun hother => ?_⟩)
  rw [List.mem_singleton.1 hother]
  exact List.mem_filter.2 ⟨hin, decide_eq_true rfl⟩

variable (h : graph.Mirrors tree) (hproper : tree.Proper)

include h hproper

/-- Under `Mirrors`, links from one namespace that carry the same name are the same. -/
theorem eq_of_name_eq {other : NamespaceLink} (hin : link ∈ graph.links)
    (hother : other ∈ graph.links) (houter : link.outer = other.outer)
    (hname : link.name = other.name) : link = other := by
  obtain ⟨path, hpath, hinner⟩ := (h.mem_links_iff link).1 hin
  obtain ⟨path', hpath', hinner'⟩ := (h.mem_links_iff other).1 hother
  -- Both lead to the namespace with the same path, and one link leads there.
  rw [← houter, hpath, Option.some.injEq] at hpath'
  rw [← hpath', ← hname] at hinner'
  exact List.inj_on_of_nodup_map h.nodup hin hother
    (NamespaceTree.path?_inj hproper.nodup hinner hinner')

/-- Under `Mirrors`, `child?` is that of the tree. -/
theorem child?_eq (outer : NamespaceId) (name : String) :
    graph.child? outer name = tree.child? outer name := by
  refine Option.ext fun inner => ?_
  rw [child?, NamespaceTree.child?_eq_some_iff hproper, Option.map_eq_some_iff]
  -- One link at most carries the name, so it does not matter which one a search meets first.
  have hunique : ∀ a ∈ graph.links, ∀ b ∈ graph.links,
      decide (a.outer = outer ∧ a.name = name) = true →
      decide (b.outer = outer ∧ b.name = name) = true → a = b := by
    intro a ha b hb hta htb
    simp only [decide_eq_true_eq] at hta htb
    exact h.eq_of_name_eq hproper ha hb (hta.1.trans htb.1.symm) (hta.2.trans htb.2.symm)
  simp only [find?_eq_some_iff_mem hunique, decide_eq_true_eq, h.mem_links_iff]
  constructor
  · rintro ⟨link, ⟨⟨path, hpath, hinner⟩, rfl, rfl⟩, rfl⟩
    exact ⟨path, hpath, hinner⟩
  · rintro ⟨path, hpath, hinner⟩
    exact ⟨⟨outer, name, inner⟩, ⟨⟨path, hpath, hinner⟩, rfl, rfl⟩, rfl⟩

/-- Under `Mirrors`, the link to a namespace carries the last name of its path. -/
theorem linkTo?_eq_some (hid : tree.path? id = some (path ++ [name])) :
    ∃ parent, tree.path? parent = some path ∧ graph.linkTo? id = some ⟨parent, name, id⟩ := by
  have hin : path ∈ tree.paths :=
    hproper.closed _ (NamespaceTree.mem_paths_iff.2 ⟨id, hid⟩) path (List.prefix_append path [name])
  obtain ⟨parent, hparent⟩ := NamespaceTree.mem_paths_iff.1 hin
  exact ⟨parent, hparent,
    h.linkTo?_eq_some_iff.2 ⟨(h.mem_links_iff _).2 ⟨path, hparent, hid⟩, rfl⟩⟩

/-- Under `Mirrors`, no link leads to the global namespace. -/
theorem linkTo?_root : graph.linkTo? NamespaceTree.root = none := by
  refine Option.eq_none_iff_forall_ne_some.2 fun link hlink => ?_
  obtain ⟨hin, hroot⟩ := h.linkTo?_eq_some_iff.1 hlink
  obtain ⟨outer, _, hinner⟩ := (h.mem_links_iff link).1 hin
  rw [hroot, hproper.root] at hinner
  cases List.append_ne_nil_of_right_ne_nil _ (List.cons_ne_nil _ _) (Option.some.inj hinner).symm

/-- Under `Mirrors`, climbing from a namespace meets the names of its path and ends at the global
namespace (`Climbs`). -/
theorem climbs_path (hid : tree.path? id = some path) :
    graph.Climbs id path NamespaceTree.root := by
  -- Each link takes away the last name, so the induction is on the path from its end.
  induction path using List.reverseRecOn generalizing id with
  | nil =>
    obtain rfl := NamespaceTree.path?_inj hproper.nodup hid hproper.root
    exact .ended (h.linkTo?_root hproper)
  | append_singleton outer name ih =>
    obtain ⟨parent, hparent, hlink⟩ := h.linkTo?_eq_some hproper hid
    exact .outward hlink (ih hparent)

end Mirrors

/-- Climbing (`Climbs`) has one outcome. -/
theorem Climbs.unique {graph : NamespaceGraph} {id top other : NamespaceId}
    {path names : NamespacePath} (h : graph.Climbs id path top)
    (hother : graph.Climbs id names other) : names = path ∧ other = top := by
  induction h generalizing names with
  | ended hnone =>
    cases hother with
    | ended => exact ⟨rfl, rfl⟩
    | outward hlink => cases hnone.symm.trans hlink
  | outward hlink _ ih =>
    cases hother with
    | ended hnone => cases hnone.symm.trans hlink
    | outward hlink' hrest =>
      obtain rfl := Option.some.inj (hlink.symm.trans hlink')
      obtain ⟨rfl, rfl⟩ := ih hrest
      exact ⟨rfl, rfl⟩

namespace Mirrors

variable {graph : NamespaceGraph} {tree : NamespaceTree} {id : NamespaceId} {name : String}
  {path : NamespacePath} (h : graph.Mirrors tree) (hproper : tree.Proper)

include h hproper

/-- Under `Mirrors`, `parent?` is that of the tree. -/
theorem parent?_eq (id : NamespaceId) : graph.parent? id = tree.parent? id := by
  refine Option.ext fun parent => ?_
  rw [parent?, Option.map_eq_some_iff, NamespaceTree.parent?_eq_some_iff hproper]
  simp only [h.linkTo?_eq_some_iff, h.mem_links_iff]
  constructor
  · rintro ⟨link, ⟨⟨outer, houter, hinner⟩, rfl⟩, rfl⟩
    exact ⟨outer, link.name, hinner, houter⟩
  · rintro ⟨outer, name, hinner, houter⟩
    exact ⟨⟨parent, name, id⟩, ⟨⟨outer, houter, hinner⟩, rfl⟩, rfl⟩

/-- Under `Mirrors`, `name?` is that of the tree. -/
theorem name?_eq (id : NamespaceId) : graph.name? id = tree.name? id := by
  refine Option.ext fun name => ?_
  rw [name?, Option.map_eq_some_iff, NamespaceTree.name?, Option.bind_eq_some_iff]
  constructor
  · rintro ⟨link, hlink, rfl⟩
    obtain ⟨hin, rfl⟩ := h.linkTo?_eq_some_iff.1 hlink
    obtain ⟨outer, _, hinner⟩ := (h.mem_links_iff link).1 hin
    exact ⟨_, hinner, List.getLast?_concat⟩
  · rintro ⟨whole, hid, hlast⟩
    obtain ⟨outer, rfl⟩ := List.getLast?_eq_some_iff.1 hlast
    obtain ⟨parent, _, hlink⟩ := h.linkTo?_eq_some hproper hid
    exact ⟨_, hlink, rfl⟩

/-- A graph that `Mirrors` a tree `Agrees` with it. -/
theorem agrees : graph.Agrees tree where
  contents_eq := h.contents_eq
  child?_eq := h.child?_eq hproper
  parent?_eq := h.parent?_eq hproper
  name?_eq := h.name?_eq hproper
  climbs_iff := by
    intro id path hid names top
    have hclimbs := h.climbs_path hproper hid
    constructor
    · exact hclimbs.unique
    · rintro ⟨rfl, rfl⟩
      exact hclimbs

/-- A graph that `Mirrors` a tree is `TreeShaped`. -/
theorem treeShaped : graph.TreeShaped := by
  have hlength : graph.contents.length = tree.spaces.length := by
    rw [h.contents_eq, List.length_map]
  have hpath : ∀ {id : NamespaceId}, id.index < graph.contents.length →
      ∃ path, tree.path? id = some path := by
    intro id hid
    rw [hlength] at hid
    exact ⟨_, Option.map_eq_some_iff.2 ⟨_, List.getElem?_eq_getElem hid, rfl⟩⟩
  refine ⟨fun id hid hne => ?_, ?_, fun link hin => hlength ▸ h.lt_length hin,
    fun link hin other hother => h.eq_of_name_eq hproper hin hother, fun id hid => ?_⟩
  · -- A namespace other than the global one has a path with a last name, which its link carries.
    obtain ⟨path, hpath⟩ := hpath hid
    rcases List.eq_nil_or_concat' path with rfl | ⟨outer, name, rfl⟩
    · exact absurd (NamespaceTree.path?_inj hproper.nodup hpath hproper.root) hne
    · obtain ⟨parent, _, hlink⟩ := h.linkTo?_eq_some hproper hpath
      obtain ⟨hin, _⟩ := h.linkTo?_eq_some_iff.1 hlink
      exact ⟨_, h.filter_eq_singleton hin, h.earlier _ hin⟩
  · refine List.filter_eq_nil_iff.2 fun link hin hroot => ?_
    have hlink := h.linkTo?_eq_some_iff.2 ⟨hin, of_decide_eq_true hroot⟩
    rw [h.linkTo?_root hproper] at hlink
    cases hlink
  · obtain ⟨path, hpath⟩ := hpath hid
    exact ⟨path, h.climbs_path hproper hpath⟩

end Mirrors

/-! ## Operations on both -/

namespace Mirrors

variable {graph : NamespaceGraph} {tree : NamespaceTree}

/-- The two start alike: `Mirrors` holds of the empty graph and the empty tree. -/
theorem empty : NamespaceGraph.empty.Mirrors .empty := by
  refine ⟨rfl, fun link => ⟨fun hin => absurd hin List.not_mem_nil, ?_⟩, List.nodup_nil,
    fun link hin => absurd hin List.not_mem_nil⟩
  -- The one namespace there is has no name.
  rintro ⟨outer, _, hinner⟩
  have hin := NamespaceTree.mem_paths_iff.2 ⟨_, hinner⟩
  cases List.append_ne_nil_of_right_ne_nil _ (List.cons_ne_nil _ _) (List.mem_singleton.1 hin)

/-- Where `append` makes a namespace within another, a link belongs to the larger tree if it is the
one to the new namespace, or if it belonged to the tree before. -/
theorem exists_path_append_iff (hproper : tree.Proper) {outer : NamespaceId}
    {base : NamespacePath} (houter : tree.path? outer = some base) {name : String}
    (hnew : base ++ [name] ∉ tree.paths) (link : NamespaceLink) :
    (∃ path, (tree.append (base ++ [name])).path? link.outer = some path ∧
        (tree.append (base ++ [name])).path? link.inner = some (path ++ [link.name])) ↔
      link = ⟨outer, name, ⟨tree.spaces.length⟩⟩ ∨
        ∃ path, tree.path? link.outer = some path ∧
          tree.path? link.inner = some (path ++ [link.name]) := by
  have hextends := NamespaceTree.extends_append tree (base ++ [name])
  have hnodup := NamespaceTree.nodup_paths_append hproper hnew
  have hlast := NamespaceTree.path?_append_length tree (base ++ [name])
  constructor
  · rintro ⟨path, hlinkOuter, hinner⟩
    have hin := NamespaceTree.mem_paths_iff.2 ⟨_, hinner⟩
    rw [NamespaceTree.paths_append, List.mem_append, List.mem_singleton] at hin
    rcases hin with hin | hsame
    · -- Both ends were there before.
      obtain ⟨inner, hold⟩ := NamespaceTree.mem_paths_iff.1 hin
      obtain ⟨around, haround⟩ := NamespaceTree.mem_paths_iff.1
        (hproper.closed _ hin path (List.prefix_append path [link.name]))
      rw [NamespaceTree.path?_inj hnodup hinner (hextends.path?_eq hold),
        NamespaceTree.path?_inj hnodup hlinkOuter (hextends.path?_eq haround)]
      exact .inr ⟨path, haround, hold⟩
    · -- The path is the new one, so the ends are the two namespaces in question.
      obtain ⟨rfl, hname⟩ := List.append_inj' hsame rfl
      rw [hsame] at hinner
      left
      rw [← NamespaceTree.path?_inj hnodup hinner hlast, ← List.singleton_inj.1 hname,
        ← NamespaceTree.path?_inj hnodup hlinkOuter (hextends.path?_eq houter)]
  · rintro (rfl | ⟨path, hpath, hinner⟩)
    · exact ⟨base, hextends.path?_eq houter, hlast⟩
    · exact ⟨path, hextends.path?_eq hpath, hextends.path?_eq hinner⟩

/-- `Mirrors` after a link and a namespace are added together. -/
theorem append (h : graph.Mirrors tree) (hproper : tree.Proper) {outer : NamespaceId}
    {base : NamespacePath} (houter : tree.path? outer = some base) {name : String}
    (hnew : base ++ [name] ∉ tree.paths) :
    Mirrors ⟨graph.contents ++ [⟨.empty, []⟩],
      ⟨outer, name, ⟨graph.contents.length⟩⟩ :: graph.links⟩ (tree.append (base ++ [name])) := by
  have hlength : graph.contents.length = tree.spaces.length := by
    rw [h.contents_eq, List.length_map]
  refine ⟨by rw [h.contents_eq, NamespaceTree.append, List.map_append]; rfl, fun link => ?_, ?_, ?_⟩
  · rw [List.mem_cons, h.mem_links_iff, hlength, exists_path_append_iff hproper houter hnew]
  · -- The links there are lead to namespaces of the tree, of which the new one is none.
    rw [List.map_cons, List.nodup_cons]
    refine ⟨fun hin => ?_, h.nodup⟩
    obtain ⟨link, hlink, hinner⟩ := List.mem_map.1 hin
    have hlt := h.lt_length hlink
    rw [hinner, hlength] at hlt
    exact Nat.lt_irrefl _ hlt
  · -- The new namespace comes after all others, the one around it among them.
    exact List.forall_mem_cons.2 ⟨hlength ▸ NamespaceTree.lt_length_of_path? houter, h.earlier⟩

/-- `Mirrors` after `makeChild`: a namespace is made in both, or found in both. -/
theorem makeChild (h : graph.Mirrors tree) (hproper : tree.Proper) {outer : NamespaceId}
    {base : NamespacePath} (houter : tree.path? outer = some base) (name : String) :
    (graph.makeChild outer name).1.Mirrors (tree.makeChild outer name).1 ∧
      (graph.makeChild outer name).2 = (tree.makeChild outer name).2 := by
  unfold NamespaceGraph.makeChild NamespaceTree.makeChild
  rw [h.child?_eq hproper, houter]
  cases hchild : tree.child? outer name with
  | some child => exact ⟨h, rfl⟩
  | none =>
    rw [NamespaceTree.child?, houter, Option.bind_some, NamespaceTree.idOf?_eq_none_iff] at hchild
    refine ⟨h.append hproper houter hchild, ?_⟩
    rw [h.contents_eq, List.length_map]

/-- `Mirrors` after `makePath`: namespaces are made along a path in both. -/
theorem makePath (h : graph.Mirrors tree) (hproper : tree.Proper) {start : NamespaceId}
    {base : NamespacePath} (hstart : tree.path? start = some base) (path : NamespacePath) :
    (graph.makePath start path).1.Mirrors (tree.makePath start path).1 ∧
      (graph.makePath start path).2 = (tree.makePath start path).2 := by
  induction path generalizing graph tree start base with
  | nil => exact ⟨h, rfl⟩
  | cons name rest ih =>
    obtain ⟨hfirst, hsame⟩ := h.makeChild hproper hstart name
    obtain ⟨hmade, _, hid, _⟩ := NamespaceTree.makeChild_spec hproper hstart name
    rw [NamespaceGraph.makePath, NamespaceTree.makePath, hsame]
    exact ih hfirst hmade hid

/-- `Mirrors` after a declaration, which concerns the contents of one namespace, and no link. -/
theorem modify (h : graph.Mirrors tree) (id : NamespaceId) {change : Namespace → Namespace}
    {changeContents : NamespaceContents → NamespaceContents}
    (hpath : ∀ space, (change space).path = space.path)
    (hchange : ∀ space, (change space).contents = changeContents space.contents) :
    Mirrors { graph with contents := graph.contents.modify id.index changeContents }
      (tree.modify id change) := by
  have hpaths := NamespaceTree.paths_modify tree id change hpath
  refine ⟨?_, fun link => ?_, h.nodup, h.earlier⟩
  · refine List.ext_getElem? fun index => ?_
    rw [h.contents_eq, NamespaceTree.modify, List.getElem?_modify, List.getElem?_map,
      List.getElem?_map, List.getElem?_modify]
    split <;> cases tree.spaces[index]? <;> simp [hchange]
  · simp only [NamespaceTree.path?_congr hpaths]
    exact h.mem_links_iff link

/-- Under `Mirrors`, what is declared in a namespace is the same in both. -/
theorem contents_getElem? (h : graph.Mirrors tree) (id : NamespaceId) :
    graph.contents[id.index]? = (tree.space? id).map (·.contents) := by
  rw [h.contents_eq, List.getElem?_map]
  rfl

/-- `Mirrors` after `apply`: every operation does the same to both. -/
theorem apply (h : graph.Mirrors tree) (hproper : tree.Proper)
    {operation : NamespaceTree.Operation} (hfits : operation.Fits tree) :
    (graph.apply operation).Mirrors (tree.apply operation) := by
  -- Making reads links here and paths there; a declaration looks at one namespace in both.
  cases operation with
  | makeChild parent name =>
    obtain ⟨base, hbase⟩ := NamespaceTree.isSome_space?_iff.1 hfits
    exact (h.makeChild hproper hbase name).1
  | makePath start path =>
    obtain ⟨base, hbase⟩ := NamespaceTree.isSome_space?_iff.1 hfits
    exact (h.makePath hproper hbase path).1
  | declareType id name hash =>
    rw [NamespaceGraph.apply, NamespaceTree.apply, NamespaceGraph.declareType, h.contents_getElem?,
      NamespaceTree.declareType]
    cases hspace : tree.space? id with
    | none => exact h
    | some space =>
      dsimp only [Option.map_some, Namespace.contents]
      split
      · exact h
      · exact h.modify id (fun _ => rfl) fun _ => rfl
  | declareExtension id extension =>
    rw [NamespaceGraph.apply, NamespaceTree.apply, NamespaceGraph.declareExtension,
      h.contents_getElem?, NamespaceTree.declareExtension]
    cases hspace : tree.space? id with
    | none => exact h
    | some space => exact h.modify id (fun _ => rfl) fun _ => rfl

/-- `Mirrors` after `run`: the two stay alike. -/
theorem run (h : graph.Mirrors tree) (hproper : tree.Proper)
    {operations : List NamespaceTree.Operation} (hfitting : tree.Fitting operations) :
    (graph.run operations).Mirrors (tree.run operations) := by
  induction operations generalizing graph tree with
  | nil => exact h
  | cons operation rest ih =>
    exact ih (h.apply hproper hfitting.1) (hproper.apply hfitting.1) hfitting.2

end Mirrors

end NamespaceGraph

/-! ## Namespaces and paths -/

namespace NamespaceTree

/-- After any operations each namespace has one path and each path one namespace (`path?`,
`follow?`). Kept as a graph, the namespaces make a tree (`TreeShaped`, `Agrees`) in which climbing
from a namespace meets the names of its path, and the path leads back to the namespace. The
namespace made along a path has that path behind the path of the start. No operation changes a
namespace in which it declares nothing, nor the path of any namespace, nor what lies around it. -/
theorem namespaces_match_paths {operations : List Operation} (h : empty.Fitting operations) :
    let tree := empty.run operations
    let graph := NamespaceGraph.empty.run operations
    graph.TreeShaped ∧ graph.Agrees tree ∧
    (∀ id path, tree.path? id = some path →
      tree.follow? root path = some id ∧ graph.follow? root path = some id) ∧
    (∀ start base path, tree.path? start = some base →
      let made := tree.makePath start path
      let madeGraph := graph.makePath start path
      made.1.path? made.2 = some (base ++ path) ∧ madeGraph.2 = made.2 ∧
        madeGraph.1.Climbs made.2 (base ++ path) root) ∧
    ∀ operation, operation.Fits tree → ∀ id space, tree.space? id = some space →
      (operation.declaresIn? ≠ some id → (tree.apply operation).space? id = some space) ∧
      (tree.apply operation).path? id = some space.path ∧
      (tree.apply operation).parent? id = tree.parent? id := by
  intro tree graph
  have hproper : tree.Proper := proper_run proper_empty h
  have hmirrors : graph.Mirrors tree := NamespaceGraph.Mirrors.empty.run proper_empty h
  refine ⟨hmirrors.treeShaped hproper, hmirrors.agrees hproper, fun id path hid => ?_,
    fun start base path hstart => ?_, fun operation hfits id space hspace => ?_⟩
  · have hfollow : tree.follow? root path = some id := by
      rw [follow?_eq_idOf? hproper hproper.root, List.nil_append]
      exact (idOf?_eq_some_iff hproper.nodup).2 hid
    refine ⟨hfollow, ?_⟩
    rw [NamespaceGraph.follow?, show graph.child? = tree.child? from
      funext fun outer => funext (hmirrors.child?_eq hproper outer), ← follow?_eq_foldlM hproper]
    exact hfollow
  · intro made madeGraph
    obtain ⟨hlater, _, hpath, _⟩ := makePath_spec hproper hstart path
    obtain ⟨hmade, hsame⟩ := hmirrors.makePath hproper hstart path
    exact ⟨hpath, hsame, hmade.climbs_path hlater hpath⟩
  · have hpath : tree.path? id = some space.path := Option.map_eq_some_iff.2 ⟨space, hspace, rfl⟩
    exact ⟨space?_apply hspace, path?_apply hpath, parent?_apply hproper hfits hpath⟩

/-- Namespaces with an empty name and with a separator in the name, made in several ways, and
declarations that succeed and that fail. -/
def oddOperations : List Operation :=
  [.makePath root ["A", "", "B::C"], .makeChild ⟨1⟩ "B", .declareType ⟨2⟩ "" ⟨7⟩,
    .makePath ⟨4⟩ ["C"], .declareType ⟨2⟩ "" ⟨8⟩, .declareExtension ⟨9⟩ ⟨⟨0⟩, 0⟩,
    .makePath root ["A", "B", "C", "A"]]

/-- After `oddOperations` the namespace `B::C` within one without a name has another path than `C`
within `B`. -/
theorem namespaces_match_paths_odd :
    let tree := empty.run oddOperations
    empty.Fitting oddOperations ∧
      tree.paths = [[], ["A"], ["A", ""], ["A", "", "B::C"], ["A", "B"], ["A", "B", "C"],
        ["A", "B", "C", "A"]] ∧
      (NamespaceGraph.empty.run oddOperations).TreeShaped ∧
      tree.follow? root ["A", "", "B::C"] = some ⟨3⟩ ∧
      (tree.makePath ⟨3⟩ ["D"]).1.path? (tree.makePath ⟨3⟩ ["D"]).2 =
        some ["A", "", "B::C", "D"] ∧
      (tree.apply (.declareType ⟨5⟩ "" ⟨9⟩)).typeIn? ⟨2⟩ "" = some ⟨7⟩ := by
  intro tree
  have hfitting : empty.Fitting oddOperations := by decide +kernel
  have hpath : tree.path? ⟨3⟩ = some ["A", "", "B::C"] := by decide +kernel
  obtain ⟨hshape, _, hback, hmade, hkept⟩ := namespaces_match_paths hfitting
  have htype : tree.typeIn? ⟨2⟩ "" = some ⟨7⟩ := by decide +kernel
  obtain ⟨space, hspace, _⟩ := Option.bind_eq_some_iff.1 htype
  refine ⟨hfitting, by decide +kernel, hshape, (hback ⟨3⟩ _ hpath).1,
    (hmade ⟨3⟩ _ ["D"] hpath).1, ?_⟩
  rw [typeIn?, (hkept (.declareType ⟨5⟩ "" ⟨9⟩) trivial ⟨2⟩ _ hspace).1 (by decide), ← hspace]
  exact htype

end NamespaceTree

end ExtensionMembers
