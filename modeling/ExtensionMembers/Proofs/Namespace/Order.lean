import ExtensionMembers.Proofs.Namespace.Chain
import Mathlib.Data.List.TakeWhile

/-!
# The order of levels

A chain is meant to lead from the inside out. Between a scope and the scope around it, it goes up
the namespaces until it meets that of the scope around it. A block without a path opens the same
namespace once more, which is then not met again, so the chain runs up to the global namespace and
only then turns to the scope around the block. This module shows that nothing else disturbs the
order.

## Main definitions

* `NamespaceTree.LiesAround`: a namespace lies around another one.
* `ScopeChain.InnerFirst`: no level comes before one whose namespace it lies around.
* `ScopeTable.Reopens`: a scope opens the namespace of the scope around it once more.

## Main results

* `ScopeTable.NestsBy.innerFirst_iff`: when a chain leads from the inside out.
-/

namespace ExtensionMembers

/-- The namespace `outer` lies around `inner`, directly or not. -/
def NamespaceTree.LiesAround (tree : NamespaceTree) (outer inner : NamespaceId) : Prop :=
  ∃ path more, more ≠ [] ∧ tree.path? outer = some path ∧ tree.path? inner = some (path ++ more)

/-- The levels lead from the inside out: none comes before one whose namespace it lies around
(`LiesAround`). -/
def ScopeChain.InnerFirst (tree : NamespaceTree) (chain : ScopeChain) : Prop :=
  chain.levels.Pairwise fun level later =>
    ¬ tree.LiesAround level.namespaceId later.namespaceId

/-- A scope opens the namespace `space` that the scope around it has opened already. -/
def ScopeTable.Reopens (table : ScopeTable) (id : ScopeId) (space : NamespaceId) : Prop :=
  ∃ scope outer around, table.get? id = some scope ∧ scope.parent = some outer ∧
    table.get? outer = some around ∧ around.namespaceId = space ∧ scope.namespaceId = space

/-! ## Lengths of paths -/

/-- Of the `inits` of a path, the longer ones come first. -/
theorem pairwise_length_inits {α : Type} (list : List α) :
    list.inits.reverse.Pairwise fun longer shorter => shorter.length < longer.length := by
  rw [inits_eq_map_take, List.pairwise_reverse, List.pairwise_map]
  refine List.Pairwise.imp_of_mem (fun {count later} hcount hlater hlt => ?_)
    List.pairwise_lt_range
  rw [List.mem_range] at hcount hlater
  rw [List.length_take, List.length_take]
  omega

/-- The beginnings of a path that `levelsAt` has levels for, for a scope with this path: the path
itself, and the shorter ones before that of the scope around it. -/
theorem sublist_inits (outer whole : NamespacePath) :
    (whole :: whole.inits.reverse.tail.takeWhile (· ≠ outer)).Sublist whole.inits.reverse := by
  rw [reverse_inits_eq_cons whole]
  exact (List.takeWhile_sublist _).cons_cons whole

/-- They are all at least as long as the beginnings of the path `outer` of the scope around it,
unless the two paths are the same and not empty. -/
theorem forall_length_le_iff {outer : NamespacePath} (more : NamespacePath)
    {paths : List NamespacePath} (hbegin : ∀ beginning ∈ paths, beginning <+: outer)
    (hin : outer ∈ paths) :
    (∀ longer ∈ (outer ++ more) :: (outer ++ more).inits.reverse.tail.takeWhile (· ≠ outer),
        ∀ shorter ∈ paths, shorter.length ≤ longer.length) ↔
      (outer ++ more = outer → outer = []) := by
  constructor
  · intro h hsame
    rw [hsame] at h
    by_contra hne
    -- The path is no shorter beginning of itself, so these go on to the empty one.
    have hhead := reverse_inits_eq_cons outer
    have hnodup := List.nodup_cons.1 (hhead ▸ List.nodup_reverse.2 (nodup_inits outer))
    have hall : outer.inits.reverse.tail.takeWhile (· ≠ outer) = outer.inits.reverse.tail :=
      List.takeWhile_eq_self_iff.2 fun beginning hbeginning =>
        decide_eq_true fun heq => hnodup.1 (heq ▸ hbeginning)
    have hnil : [] ∈ outer :: outer.inits.reverse.tail := by
      rw [← hhead]
      simp
    have hle := h [] (hall.symm ▸ hnil) outer hin
    exact hne (List.length_eq_zero_iff.1 (Nat.le_zero.1 hle))
  · intro h longer hlonger shorter hshorter
    have hle := (hbegin shorter hshorter).length_le
    by_cases hmore : more = []
    · have hnil := h (by rw [hmore, List.append_nil])
      simp [hnil] at hle
      simp [hle]
    · rw [← List.takeWhile_cons_of_pos (by simpa using hmore), ← reverse_inits_eq_cons] at hlonger
      have hdescend := pairwise_length_inits (outer ++ more)
      rw [← takeWhile_ne_append_inits, List.pairwise_append] at hdescend
      exact hle.trans (hdescend.2.2 longer hlonger outer (by simp)).le

/-- Of two namespaces on the way to a third, the one with the shorter path `LiesAround` the
other. -/
theorem NamespaceTree.liesAround_iff {tree : NamespaceTree} {outer inner : NamespaceId}
    {path path' whole : NamespacePath} (houter : tree.path? outer = some path)
    (hinner : tree.path? inner = some path') (hpath : path <+: whole) (hpath' : path' <+: whole) :
    tree.LiesAround outer inner ↔ path.length < path'.length := by
  constructor
  · rintro ⟨base, more, hmore, hbase, hwhole⟩
    obtain rfl := Option.some.inj (houter.symm.trans hbase)
    obtain rfl := Option.some.inj (hinner.symm.trans hwhole)
    rw [List.length_append]
    exact Nat.lt_add_of_pos_right (List.length_pos_iff.2 hmore)
  · intro hlt
    obtain ⟨more, rfl⟩ := List.prefix_of_prefix_length_le hpath hpath' hlt.le
    refine ⟨path, more, fun hnil => ?_, houter, hinner⟩
    simp [hnil] at hlt

/-- Levels on the way to one namespace lead from the inside out (`LiesAround`) if their paths get no
longer. -/
theorem pairwise_liesAround_iff {tree : NamespaceTree} {levels : List ScopeLevel}
    {paths : List NamespacePath} {whole : NamespacePath}
    (hpaths : List.Forall₂ (fun level path => tree.path? level.namespaceId = some path) levels
      paths)
    (hbegin : ∀ path ∈ paths, path <+: whole) :
    levels.Pairwise (fun level later => ¬ tree.LiesAround level.namespaceId later.namespaceId) ↔
      paths.Pairwise fun longer shorter => shorter.length ≤ longer.length := by
  refine pairwise_iff_of_forall₂ ?_ (forall₂_and_right hpaths hbegin)
  rintro level path later path' ⟨hlevel, hpath⟩ ⟨hlater, hpath'⟩
  rw [NamespaceTree.liesAround_iff hlevel hlater hpath hpath', Nat.not_lt]

namespace ScopeTable

variable {table : ScopeTable} {tree : NamespaceTree} {id outer : ScopeId} {scope around : Scope}
  {blocks : List ScopeId} {path whole : NamespacePath}

/-- A scope that `Reopens` the global namespace does so without harm. -/
theorem forall_reopens_iff (hproper : tree.Proper) (hscope : table.get? id = some scope)
    (hparent : scope.parent = some outer) (haround : table.get? outer = some around)
    (houter : tree.path? around.namespaceId = some path)
    (hid : tree.path? scope.namespaceId = some whole) :
    (∀ space, table.Reopens id space → space = NamespaceTree.root) ↔
      (whole = path → path = []) := by
  constructor
  · rintro h rfl
    have hsame := NamespaceTree.path?_inj hproper.nodup houter hid
    have hroot := h scope.namespaceId ⟨scope, outer, around, hscope, hparent, haround, hsame, rfl⟩
    rw [hroot, hproper.root] at hid
    exact (Option.some.inj hid).symm
  · rintro h _ ⟨scope', outer', around', hscope', hparent', haround', hspace, rfl⟩
    obtain rfl := Option.some.inj (hscope.symm.trans hscope')
    obtain rfl := Option.some.inj (hparent.symm.trans hparent')
    obtain rfl := Option.some.inj (haround.symm.trans haround')
    rw [hspace, hid] at houter
    obtain rfl := Option.some.inj houter
    rw [h rfl] at hid
    exact NamespaceTree.path?_inj hproper.nodup hid hproper.root

namespace NestsBy

variable {allowed : NamespacePath → Prop} (h : NestsBy allowed table tree)

include h

/-- The levels of a chain have beginnings of the path of the scope, this one among them, and they
lead to shorter ones all the way if no block on the `LexicalPath` opens a namespace once more. -/
theorem exists_paths (hproper : tree.Proper) (hblocks : table.LexicalPath id blocks)
    (hscope : table.get? id = some scope) (hid : tree.path? scope.namespaceId = some whole) :
    ∃ paths, List.Forall₂ (fun level beginning => tree.path? level.namespaceId = some beginning)
        (blocks.flatMap (table.levelsAt tree)) paths ∧
      (∀ beginning ∈ paths, beginning <+: whole) ∧ whole ∈ paths ∧
      (paths.Pairwise (fun longer shorter => shorter.length ≤ longer.length) ↔
        ∀ block ∈ blocks, ∀ space, table.Reopens block space → space = NamespaceTree.root) := by
  -- From a file root inward: each scope puts levels before those around it, for its own path and
  -- the shorter ones that come before the path of the scope around it.
  induction hblocks generalizing scope whole with
  | @outermost id same hsame hparent =>
    obtain rfl := Option.some.inj (hscope.symm.trans hsame)
    have hroot := h.outermost hscope hparent
    obtain rfl := Option.some.inj (hid.symm.trans hroot)
    refine ⟨[[]], ?_, by simp, by simp, ?_⟩
    · rw [List.flatMap_singleton, levelsAt_outermost hproper hscope hid]
      exact .cons hid .nil
    · refine iff_of_true (List.pairwise_singleton _ _) (List.forall_mem_singleton.2 ?_)
      rintro _ ⟨scope', outer', _, hscope', hparent', _⟩
      obtain rfl := Option.some.inj (hscope.symm.trans hscope')
      rw [hparent] at hparent'
      cases hparent'
  | @within id outer same blocks hsame hparent _ ih =>
    obtain rfl := Option.some.inj (hscope.symm.trans hsame)
    obtain ⟨_, around, haround, _, path, more, _, houter, hwhole⟩ := h.within hscope hparent
    obtain rfl := Option.some.inj (hid.symm.trans hwhole)
    obtain ⟨paths, hpaths, hbegin, hin, hiff⟩ := ih haround houter
    have hown := forall₂_levelsAt_within hproper hscope hparent haround houter hid
    refine ⟨_, by rw [List.flatMap_cons]; exact List.rel_append hown hpaths, ?_,
      List.mem_append_left _ List.mem_cons_self, ?_⟩
    · refine List.forall_mem_append.2 ⟨fun beginning hbeginning => ?_, fun beginning hbeginning =>
        (hbegin beginning hbeginning).trans (List.prefix_append path more)⟩
      exact (List.mem_inits _ _).1 (List.mem_reverse.1 ((sublist_inits path _).subset hbeginning))
    · have hdescend := ((pairwise_length_inits (path ++ more)).sublist
        (sublist_inits path (path ++ more))).imp fun hlt => hlt.le
      rw [List.pairwise_append, and_iff_right hdescend, hiff, forall_length_le_iff more hbegin hin,
        List.forall_mem_cons, forall_reopens_iff hproper hscope hparent haround houter hid,
        and_comm]

/-- `ScopeTable.chain` leads from the inside out (`InnerFirst`) unless a block around the scope, or
the scope itself, `Reopens` a namespace other than the global one. -/
theorem innerFirst_iff (hproper : tree.Proper) (hblocks : table.LexicalPath id blocks)
    (hscope : table.get? id = some scope) (hid : tree.path? scope.namespaceId = some whole) :
    (table.chain tree id).InnerFirst tree ↔
      ∀ block ∈ blocks, ∀ space, table.Reopens block space → space = NamespaceTree.root := by
  obtain ⟨paths, hpaths, hbegin, _, hiff⟩ := h.exists_paths hproper hblocks hscope hid
  rw [← hiff, ScopeChain.InnerFirst, chain, h.outward_eq hblocks]
  exact pairwise_liesAround_iff hpaths hbegin

end NestsBy

end ScopeTable

end ExtensionMembers
