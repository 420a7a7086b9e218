import ExtensionMembers.Build.Assembly
import ExtensionMembers.Proofs.Namespace.Paths

/-!
# The search for an imported namespace

The path of a using directive is followed name by name from the namespace that holds the directive,
and failing that from the namespaces around it, one after the other, until there is none left. In a
proper tree this search comes to an end. Going to the namespace around a namespace drops the last
name of its path, so what the search finds is the namespace within the longest possible beginning of
the path.

## Main definitions

* `NamespaceTree.SearchesOutward`: the search from a namespace ends with a result.
* `NamespaceTree.InnermostWithin`: the result said by paths.

## Main results

* `NamespaceTree.follow?_eq_foldlM`: paths are followed name by name.
* `NamespaceTree.searchesOutward_iff`, `NamespaceTree.resolveImport?_iff`: what the search finds.
-/

namespace ExtensionMembers

namespace NamespaceTree

variable {tree : NamespaceTree} {path whole : NamespacePath} {start : NamespaceId}

/-! ## Steps -/

/-- `follow?` leads to the namespace with the longer path. -/
theorem follow?_eq_idOf? (hproper : tree.Proper) (hstart : tree.path? start = some whole)
    (path : NamespacePath) : tree.follow? start path = tree.idOf? (whole ++ path) := by
  unfold follow?
  split
  next hnil => rw [hnil, List.append_nil, (idOf?_eq_some_iff hproper.nodup).2 hstart]
  next => rw [hstart, Option.bind_some]

/-- `follow?` goes name by name (`child?`). -/
theorem follow?_eq_foldlM (hproper : tree.Proper) (start : NamespaceId) (path : NamespacePath) :
    tree.follow? start path = path.foldlM tree.child? start := by
  induction path generalizing start with
  | nil => rfl
  | cons name rest ih =>
    rw [List.foldlM_cons]
    cases hstart : tree.path? start with
    | none => simp [follow?, child?, hstart]
    | some base =>
      have hchild : tree.child? start name = tree.idOf? (base ++ [name]) := by
        rw [child?, hstart, Option.bind_some]
      rw [follow?_eq_idOf? hproper hstart, hchild]
      cases hfound : tree.idOf? (base ++ [name]) with
      | none =>
        -- What is missing has nothing within it.
        refine idOf?_eq_none_iff.2 fun hin => idOf?_eq_none_iff.1 hfound ?_
        exact hproper.closed _ hin _ ⟨rest, by simp⟩
      | some child =>
        rw [Option.bind_eq_bind, Option.bind_some, ← ih,
          follow?_eq_idOf? hproper (path?_of_idOf? hfound), List.append_assoc,
          List.singleton_append]

/-- No namespace is `enclosing` the global one. -/
theorem enclosing_of_path?_nil (hstart : tree.path? start = some []) :
    tree.enclosing start = [] := by
  simp [enclosing, NamespaceTree.path, hstart]

/-- `enclosing` any other namespace is the one whose path lacks the last name, and what encloses
that. -/
theorem exists_enclosing_eq_cons (hproper : tree.Proper) {outer : NamespacePath} {name : String}
    (hstart : tree.path? start = some (outer ++ [name])) :
    ∃ parent, tree.path? parent = some outer ∧
      tree.enclosing start = parent :: tree.enclosing parent := by
  have hin : outer ∈ tree.paths :=
    hproper.closed _ (mem_paths_iff.2 ⟨start, hstart⟩) outer (List.prefix_append outer [name])
  obtain ⟨parent, hparent⟩ := mem_paths_iff.1 hin
  refine ⟨parent, hparent, ?_⟩
  -- The shorter beginnings of the path are those of the path without its last name.
  have hbegin : ∀ count ∈ (List.range outer.length).reverse,
      tree.idOf? ((outer ++ [name]).take count) = tree.idOf? (outer.take count) := by
    intro count hcount
    rw [List.mem_reverse, List.mem_range] at hcount
    rw [List.take_append_of_le_length hcount.le]
  rw [enclosing, enclosing, NamespaceTree.path, hstart, NamespaceTree.path, hparent]
  dsimp only [Option.getD_some]
  rw [List.length_append, List.length_singleton, List.range_succ, List.reverse_append,
    List.reverse_singleton, List.singleton_append, List.filterMap_cons, List.take_left,
    (idOf?_eq_some_iff hproper.nodup).2 hparent, List.filterMap_congr hbegin]

/-- `parent?` drops the last name of the path of a namespace, and is none for the global
namespace. -/
theorem parent?_cases (hproper : tree.Proper) (hstart : tree.path? start = some whole) :
    whole = [] ∧ tree.parent? start = none ∨ ∃ outer name parent, whole = outer ++ [name] ∧
      tree.parent? start = some parent ∧ tree.path? parent = some outer := by
  rcases List.eq_nil_or_concat' whole with rfl | ⟨outer, name, rfl⟩
  · refine .inl ⟨rfl, ?_⟩
    rw [parent?, enclosing_of_path?_nil hstart]
    rfl
  · obtain ⟨parent, hparent, henclosing⟩ := exists_enclosing_eq_cons hproper hstart
    refine .inr ⟨outer, name, parent, rfl, ?_, hparent⟩
    rw [parent?, henclosing]
    rfl

/-! ## The search -/

/-- The search for the namespace with a path, as the engine's `resolve_namespace` goes from
namespace to namespace (`parent?`), ends with this result. -/
inductive SearchesOutward (tree : NamespaceTree) (path : NamespacePath) :
    NamespaceId → Option NamespaceId → Prop
  /-- The path leads on from here. -/
  | found {start id : NamespaceId} : path.foldlM tree.child? start = some id →
      SearchesOutward tree path start (some id)
  /-- It does not, and the search goes on from the namespace around this one. -/
  | outward {start parent : NamespaceId} {result : Option NamespaceId} :
      path.foldlM tree.child? start = none → tree.parent? start = some parent →
      SearchesOutward tree path parent result → SearchesOutward tree path start result
  /-- It does not, and nothing lies around this namespace. -/
  | ended {start : NamespaceId} : path.foldlM tree.child? start = none →
      tree.parent? start = none → SearchesOutward tree path start none

/-- Of the beginnings of the path `whole`, the longest one that `path` continues to a known path has
the namespace that is the result; there is no result if there is no such beginning. -/
inductive InnermostWithin (tree : NamespaceTree) (known : NamespacePath → Prop)
    (whole path : NamespacePath) : Option NamespaceId → Prop
  /-- The namespace within the beginning with `count` names. -/
  | found {id : NamespaceId} {count : Nat} : count ≤ whole.length →
      known (whole.take count ++ path) → tree.path? id = some (whole.take count ++ path) →
      (∀ longer, count < longer → longer ≤ whole.length → ¬ known (whole.take longer ++ path)) →
      InnermostWithin tree known whole path (some id)
  /-- No beginning can be continued. -/
  | missing : (∀ count ≤ whole.length, ¬ known (whole.take count ++ path)) →
      InnermostWithin tree known whole path none

/-- `SearchesOutward` ends with the namespace that `resolveImport?` gives. -/
theorem searchesOutward_resolveImport? (hproper : tree.Proper)
    (hstart : tree.path? start = some whole) (path : NamespacePath) :
    tree.SearchesOutward path start (tree.resolveImport? start path) := by
  -- Each step drops a name, so the induction is on the path from its end.
  induction whole using List.reverseRecOn generalizing start with
  | nil =>
    rw [resolveImport?, enclosing_of_path?_nil hstart, List.findSome?_singleton,
      follow?_eq_foldlM hproper]
    cases hfound : path.foldlM tree.child? start with
    | some id => exact .found hfound
    | none => exact .ended hfound (by rw [parent?, enclosing_of_path?_nil hstart]; rfl)
  | append_singleton outer name ih =>
    obtain ⟨parent, hparent, henclosing⟩ := exists_enclosing_eq_cons hproper hstart
    rw [resolveImport?, henclosing, List.findSome?_cons, follow?_eq_foldlM hproper]
    cases hfound : path.foldlM tree.child? start with
    | some id => exact .found hfound
    | none => exact .outward hfound (by rw [parent?, henclosing]; rfl) (ih hparent)

section Innermost

variable {known : NamespacePath → Prop} {result : Option NamespaceId}

/-- `InnermostWithin` passes over a beginning that cannot be continued. -/
theorem InnermostWithin.concat (h : tree.InnermostWithin known whole path result) {name : String}
    (hfails : ¬ known (whole ++ [name] ++ path)) :
    tree.InnermostWithin known (whole ++ [name]) path result := by
  have hbegin : ∀ {count}, count ≤ whole.length →
      (whole ++ [name]).take count = whole.take count := fun hcount =>
    List.take_append_of_le_length hcount
  have hlength : (whole ++ [name]).length = whole.length + 1 := by simp
  -- Besides the beginnings of `whole` there is one more, and that one cannot be continued.
  have hwhole : ∀ count ≤ (whole ++ [name]).length, ¬ count ≤ whole.length →
      ¬ known ((whole ++ [name]).take count ++ path) := by
    intro count hcount hmore
    rwa [List.take_of_length_le (by omega)]
  cases h with
  | found hcount hknown hid hlonger =>
    refine .found (hcount.trans (by omega)) (hbegin hcount ▸ hknown) (hbegin hcount ▸ hid)
      fun longer hlt hle => ?_
    by_cases hshort : longer ≤ whole.length
    · rw [hbegin hshort]
      exact hlonger longer hlt hshort
    · exact hwhole longer hle hshort
  | missing hnone =>
    refine .missing fun count hcount => ?_
    by_cases hshort : count ≤ whole.length
    · rw [hbegin hshort]
      exact hnone count hshort
    · exact hwhole count hcount hshort

/-- There is one result of `InnermostWithin`. -/
theorem InnermostWithin.unique (hproper : tree.Proper) {other : Option NamespaceId}
    (h : tree.InnermostWithin known whole path result)
    (hother : tree.InnermostWithin known whole path other) : result = other := by
  cases h with
  | @found id count hcount hknown hid hlonger =>
    cases hother with
    | @found id' count' hcount' hknown' hid' hlonger' =>
      -- Of two different beginnings the shorter one would not be the longest.
      obtain rfl : count = count' := by
        by_contra hne
        rcases Nat.lt_or_gt_of_ne hne with hlt | hlt
        · exact hlonger count' hlt hcount' hknown'
        · exact hlonger' count hlt hcount hknown
      rw [path?_inj hproper.nodup hid hid']
    | missing hnone => exact absurd hknown (hnone count hcount)
  | missing hnone =>
    cases hother with
    | found hcount hknown => exact absurd hknown (hnone _ hcount)
    | missing => rfl

variable (hproper : tree.Proper) (hknown : ∀ path, path ∈ tree.paths ↔ known path)

include hproper hknown

/-- Where the path leads on, the whole beginning is that of `InnermostWithin`. -/
theorem innermostWithin_of_foldlM {id : NamespaceId} (hstart : tree.path? start = some whole)
    (hfound : path.foldlM tree.child? start = some id) :
    tree.InnermostWithin known whole path (some id) := by
  rw [← follow?_eq_foldlM hproper, follow?_eq_idOf? hproper hstart] at hfound
  have hid := path?_of_idOf? hfound
  refine .found le_rfl ?_ ?_ fun longer hlt hle => absurd hlt (Nat.not_lt.2 hle)
  · rw [List.take_length, ← hknown]
    exact mem_paths_iff.2 ⟨id, hid⟩
  · rwa [List.take_length]

/-- Where the path does not lead on, the whole beginning cannot be continued to one that is
`known`. -/
theorem not_known_of_foldlM (hstart : tree.path? start = some whole)
    (hfound : path.foldlM tree.child? start = none) : ¬ known (whole ++ path) := by
  rw [← follow?_eq_foldlM hproper, follow?_eq_idOf? hproper hstart, idOf?_eq_none_iff] at hfound
  rwa [← hknown]

/-- What `SearchesOutward` finds is the namespace within the longest beginning of the path that it
starts from (`InnermostWithin`). -/
theorem SearchesOutward.innermostWithin (h : tree.SearchesOutward path start result)
    (hstart : tree.path? start = some whole) :
    tree.InnermostWithin known whole path result := by
  -- Going outward drops the last name of the path.
  induction h generalizing whole with
  | found hfound => exact innermostWithin_of_foldlM hproper hknown hstart hfound
  | @outward start parent result hfails hparent _ ih =>
    have hmissing := not_known_of_foldlM hproper hknown hstart hfails
    rcases parent?_cases hproper hstart with ⟨_, hnone⟩ | ⟨outer, name, around, rfl, haround, hpath⟩
    · rw [hnone] at hparent
      cases hparent
    · obtain rfl := Option.some.inj (haround.symm.trans hparent)
      exact (ih hpath).concat hmissing
  | @ended start hfails hparent =>
    have hmissing := not_known_of_foldlM hproper hknown hstart hfails
    rcases parent?_cases hproper hstart with ⟨rfl, _⟩ | ⟨outer, name, around, rfl, haround, _⟩
    · exact .missing fun count hcount => by rwa [List.take_nil]
    · rw [haround] at hparent
      cases hparent

/-- `resolveImport?` gives the namespace within the longest beginning of the path of the namespace
that holds the using directive (`InnermostWithin`). -/
theorem resolveImport?_iff (hstart : tree.path? start = some whole) :
    tree.resolveImport? start path = result ↔
      tree.InnermostWithin known whole path result := by
  have hspec := (searchesOutward_resolveImport? hproper hstart path).innermostWithin hproper hknown
    hstart
  constructor
  · rintro rfl
    exact hspec
  · exact fun h => hspec.unique hproper h

/-- `SearchesOutward` comes to an end, with what `resolveImport?` gives. -/
theorem searchesOutward_iff (hstart : tree.path? start = some whole) :
    tree.SearchesOutward path start result ↔ tree.resolveImport? start path = result := by
  constructor
  · intro h
    exact (resolveImport?_iff hproper hknown hstart).2 (h.innermostWithin hproper hknown hstart)
  · rintro rfl
    exact searchesOutward_resolveImport? hproper hstart path

end Innermost

end NamespaceTree

end ExtensionMembers
