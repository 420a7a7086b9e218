import ExtensionMembers.Proofs.Collection.Correspondence
import ExtensionMembers.Proofs.Program.Flattening

/-!
# Nested blocks

The scope of a namespace block lies in the scope around the block and continues its path by the path
of the block: so it is recorded in the outline, block by block. A block with a path opens a
namespace further down, so where every block has a path, the scopes of a file nest as their paths
do.

## Main definitions

* `Item.allNameBlocks`: every namespace block, at any depth, has a path.
* `Item.allBlockPaths`: the paths of the namespace blocks, at any depth.
* `Outline.NestedBy`: scopes lie in earlier ones, and continue their paths by allowed ones.

## Main results

* `Outline.nestedBy_ofFile`: the scopes of a file are nested as its blocks are.
-/

namespace ExtensionMembers

mutual

/-- Whether every `Item.block` of an item, at any depth, has a path that is not empty. -/
def Item.namesBlocks : Item → Bool
  | .block path items => path ≠ [] && Item.allNameBlocks items
  | .importing _ | .type _ | .extension _ => true

/-- Whether `Item.namesBlocks` holds of each of some items. -/
def Item.allNameBlocks : List Item → Bool
  | [] => true
  | item :: rest => item.namesBlocks && Item.allNameBlocks rest

end

mutual

/-- The paths of each `Item.block` of an item, at any depth. -/
def Item.blockPaths : Item → List NamespacePath
  | .block path items => path :: Item.allBlockPaths items
  | .importing _ | .type _ | .extension _ => []

/-- The paths of the namespace blocks (`Item.blockPaths`) of some items. -/
def Item.allBlockPaths : List Item → List NamespacePath
  | [] => []
  | item :: rest => item.blockPaths ++ Item.allBlockPaths rest

end

mutual

theorem Item.ne_nil_of_namesBlocks :
    (item : Item) → item.namesBlocks = true → ∀ path ∈ item.blockPaths, path ≠ []
  | .block path items, hitem => by
    rw [Item.namesBlocks, Bool.and_eq_true, decide_eq_true_eq] at hitem
    rw [Item.blockPaths]
    exact List.forall_mem_cons.2 ⟨hitem.1, Item.ne_nil_of_allNameBlocks items hitem.2⟩
  | .importing _, _ => by simp [Item.blockPaths]
  | .type _, _ => by simp [Item.blockPaths]
  | .extension _, _ => by simp [Item.blockPaths]

theorem Item.ne_nil_of_allNameBlocks :
    (items : List Item) → Item.allNameBlocks items = true →
      ∀ path ∈ Item.allBlockPaths items, path ≠ []
  | [], _ => by simp [Item.allBlockPaths]
  | item :: rest, hitems => by
    rw [Item.allNameBlocks, Bool.and_eq_true] at hitems
    rw [Item.allBlockPaths]
    exact List.forall_mem_append.2 ⟨Item.ne_nil_of_namesBlocks item hitems.1,
      Item.ne_nil_of_allNameBlocks rest hitems.2⟩

end

theorem Item.allBlockPaths_eq_flatMap (items : List Item) :
    Item.allBlockPaths items = items.flatMap Item.blockPaths := by
  induction items with
  | nil => rw [Item.allBlockPaths, List.flatMap_nil]
  | cons item rest ih => rw [Item.allBlockPaths, ih, List.flatMap_cons]

/-- The path of a block that an item holds, or is, is one of its `blockPaths`. -/
theorem Item.mem_blockPaths {address base : Address} {path : NamespacePath} {items : List Item}
    {item : Item} (h : ⟨address, .block path items⟩ ∈ item.preorder base) :
    path ∈ item.blockPaths := by
  induction item using Item.contents_induction generalizing base with
  | step item ih =>
    rw [preorder_eq, List.mem_cons, mem_allPreorder_iff] at h
    -- The block is the item itself, or it is in one of the items within it.
    rcases h with h | ⟨index, inner, hinner, h⟩
    · obtain ⟨_, rfl⟩ := TextItem.mk.inj h
      rw [blockPaths]
      exact List.mem_cons_self
    · have hin := List.mem_of_getElem? hinner
      cases item with
      | block around contents =>
        rw [blockPaths, allBlockPaths_eq_flatMap]
        exact List.mem_cons_of_mem _ (List.mem_flatMap.2 ⟨inner, hin, ih inner hin h⟩)
      | importing _ => cases hin
      | type _ => cases hin
      | extension _ => cases hin

theorem Item.mem_allBlockPaths {address around : Address} {position : Nat} {path : NamespacePath}
    {items content : List Item}
    (h : ⟨address, .block path content⟩ ∈ allPreorder around position items) :
    path ∈ Item.allBlockPaths items := by
  obtain ⟨index, inner, hinner, h⟩ := mem_allPreorder_iff.1 h
  rw [allBlockPaths_eq_flatMap]
  exact List.mem_flatMap.2 ⟨inner, List.mem_of_getElem? hinner, mem_blockPaths h⟩

namespace Outline

/-- A scope lies in an earlier one (`OutlineScope.parent`), whose path it continues by an allowed
one, and one that lies in no other has the empty path. -/
structure NestedBy (allowed : NamespacePath → Prop) (outline : Outline) : Prop where
  outermost : ∀ {index : Nat} {scope : OutlineScope}, outline.scopes[index]? = some scope →
    scope.parent = none → scope.path = []
  within : ∀ {index : Nat} {scope : OutlineScope} {parent : Nat},
    outline.scopes[index]? = some scope → scope.parent = some parent →
      parent < index ∧ ∃ around more, outline.scopes[parent]? = some around ∧ allowed more ∧
        scope.path = around.path ++ more

variable {allowed : NamespacePath → Prop}

/-- Each scope of `Outline.ofFile` is that of a block in the text (`ScopeOf`). -/
theorem exists_scopeOf {file : SourceFile} {index : Nat} {scope : OutlineScope}
    (hscope : (ofFile file).scopes[index]? = some scope) :
    ∃ entry ∈ file.root.preorder [],
      ScopeOf (ofFile file).scopes (blocksOf (file.root.preorder [])) scope entry := by
  have hrel := rel_getElem? (follows_ofFile file).scopes index
  rw [hscope] at hrel
  generalize hentry : (blocksOf (file.root.preorder []))[index]? = found at hrel
  cases hrel with
  | some hof => exact ⟨_, (List.mem_filter.1 (List.mem_of_getElem? hentry)).1, hof⟩

/-- The scopes of `Outline.ofFile` are nested as the blocks are, and a block continues the path
around it by its own (`NestedBy`). -/
theorem nestedBy_ofFile {file : SourceFile}
    (hblocks : ∀ path ∈ Item.allBlockPaths file.items, allowed path) :
    (ofFile file).NestedBy allowed := by
  constructor
  · intro index scope hscope hparent
    obtain ⟨entry, _, hof⟩ := exists_scopeOf hscope
    cases hof with
    | root items => rfl
    | within position inner items hdenotes => cases hparent
  · intro index scope parent hscope hparent
    have hlt := (sound_ofFile file).parent_lt hscope hparent
    obtain ⟨entry, hentry, hof⟩ := exists_scopeOf hscope
    cases hof with
    | root items => cases hparent
    | within position inner items hdenotes =>
      obtain rfl := Option.some.inj hparent
      obtain ⟨around, haround, rfl⟩ := Option.map_eq_some_iff.1 hdenotes.path_eq
      -- It is not the file root, so the block is one of those in the file.
      rw [Item.preorder_eq, List.mem_cons] at hentry
      have hin := hentry.resolve_left (by simp)
      exact ⟨hlt, around, inner, haround, hblocks inner (Item.mem_allBlockPaths hin), rfl⟩

end Outline

end ExtensionMembers
