import ExtensionMembers.Program.Outline

/-!
# The blocks in a text

The scopes of a file can be read off its text: the file itself opens the global namespace, and each
namespace block the namespace with the paths of the blocks around it and its own. The outline of the
file lists the same scopes in the order of the text.

## Main definitions

* `OpenedBlock`: a block with its absolute path and its using directives.
* `SourceFile.opened`: the file root and the namespace blocks of a file, in the order of the text.
* `Item.HoldsBlock`: a namespace block stands among some items, at some depth.
* `IsOpened`: some block opens a namespace or one within it.

## Main results

* `Item.mem_allOpened_iff`: the blocks that are listed are those that stand in the text.
* `Outline.opened_ofFile`: the scopes in the outline of a file are the blocks in its text.
-/

namespace ExtensionMembers

/-- A file root or a namespace block, read off the text; `OutlineScope` without the parent. -/
structure OpenedBlock where
  /-- The absolute path. -/
  path : NamespacePath
  /-- The paths of its using directives, as written. -/
  usings : List NamespacePath
deriving DecidableEq

mutual

/-- The namespace blocks in an item of the namespace `path`, at any depth. -/
def Item.opened (path : NamespacePath) : Item → List OpenedBlock
  | .block inner items =>
    ⟨path ++ inner, items.filterMap Item.ofUsing?⟩ :: Item.allOpened (path ++ inner) items
  | .importing _ | .type _ | .extension _ => []

/-- The namespace blocks (`Item.opened`) in some items of the namespace `path`. -/
def Item.allOpened (path : NamespacePath) : List Item → List OpenedBlock
  | [] => []
  | item :: rest => item.opened path ++ Item.allOpened path rest

end

/-- The file root and the namespace blocks of a file (`Item.allOpened`). -/
def SourceFile.opened (file : SourceFile) : List OpenedBlock :=
  ⟨[], file.items.filterMap Item.ofUsing?⟩ :: Item.allOpened [] file.items

/-- A namespace block (`Item.block`) stands among some items, directly or within other blocks of
theirs. Listed are the paths of the blocks on the way to it, the outermost first and its own
last. -/
inductive Item.HoldsBlock : List Item → List NamespacePath → List Item → Prop
  | direct {items content : List Item} {path : NamespacePath} :
    .block path content ∈ items → HoldsBlock items [path] content
  | within {items inner content : List Item} {path : NamespacePath} {paths : List NamespacePath} :
    .block path inner ∈ items → HoldsBlock inner paths content →
    HoldsBlock items (path :: paths) content

/-- The path is empty, or a block of some file (`SourceFile.opened`) has it or goes on from it. -/
def IsOpened (files : List SourceFile) (path : NamespacePath) : Prop :=
  path = [] ∨ ∃ file ∈ files, ∃ block ∈ file.opened, path <+: block.path

namespace Item

theorem HoldsBlock.mono {items others content : List Item} {paths : List NamespacePath}
    (h : HoldsBlock items paths content) (hsub : items ⊆ others) :
    HoldsBlock others paths content := by
  cases h with
  | direct hin => exact .direct (hsub hin)
  | within hin hinner => exact .within (hsub hin) hinner

/-- `HoldsBlock` of several items: the first item holds a block, or the others do. -/
theorem holdsBlock_cons_iff (item : Item) (rest : List Item) {content : List Item}
    {paths : List NamespacePath} :
    HoldsBlock (item :: rest) paths content ↔
      HoldsBlock [item] paths content ∨ HoldsBlock rest paths content := by
  constructor
  · intro h
    cases h with
    | direct hin =>
      rcases List.mem_cons.1 hin with rfl | hin
      · exact .inl (.direct List.mem_cons_self)
      · exact .inr (.direct hin)
    | within hin hinner =>
      rcases List.mem_cons.1 hin with rfl | hin
      · exact .inl (.within List.mem_cons_self hinner)
      · exact .inr (.within hin hinner)
  · rintro (h | h)
    · exact h.mono (by simp)
    · exact h.mono (List.subset_cons_self item rest)

/-- `HoldsBlock` of a block: it holds itself and what its items hold. -/
theorem holdsBlock_block_iff {path : NamespacePath} {inner content : List Item}
    {paths : List NamespacePath} :
    HoldsBlock [.block path inner] paths content ↔
      paths = [path] ∧ content = inner ∨
        ∃ more, paths = path :: more ∧ HoldsBlock inner more content := by
  -- Whichever way a block is held, the only item to hold it is this one.
  constructor
  · intro h
    cases h with
    | direct hin =>
      obtain ⟨rfl, rfl⟩ := Item.block.inj (List.mem_singleton.1 hin)
      exact .inl ⟨rfl, rfl⟩
    | within hin hinner =>
      obtain ⟨rfl, rfl⟩ := Item.block.inj (List.mem_singleton.1 hin)
      exact .inr ⟨_, rfl, hinner⟩
  · rintro (⟨rfl, rfl⟩ | ⟨more, rfl, hinner⟩)
    · exact .direct List.mem_cons_self
    · exact .within List.mem_cons_self hinner

/-- `HoldsBlock` is false of items without a block. -/
theorem not_holdsBlock {items content : List Item} {paths : List NamespacePath}
    (h : ∀ path inner, .block path inner ∉ items) : ¬ HoldsBlock items paths content := by
  intro hholds
  cases hholds with
  | direct hin => exact h _ _ hin
  | within hin _ => exact h _ _ hin

/-! The blocks that are listed are those that the items hold, each with the paths on the way to it
put together and its using directives. -/

mutual

theorem mem_opened_iff {block : OpenedBlock} (base : NamespacePath) :
    (item : Item) → (block ∈ item.opened base ↔ ∃ paths content, HoldsBlock [item] paths content ∧
      block = ⟨base ++ paths.flatten, content.filterMap Item.ofUsing?⟩)
  | .block path inner => by
    rw [Item.opened, List.mem_cons, mem_allOpened_iff (base ++ path) inner]
    simp only [holdsBlock_block_iff]
    constructor
    · rintro (rfl | ⟨paths, content, hinner, rfl⟩)
      · exact ⟨[path], inner, .inl ⟨rfl, rfl⟩, by simp⟩
      · exact ⟨path :: paths, content, .inr ⟨paths, rfl, hinner⟩, by simp⟩
    · rintro ⟨_, content, ⟨rfl, rfl⟩ | ⟨paths, rfl, hinner⟩, rfl⟩
      · exact .inl (by simp)
      · exact .inr ⟨paths, content, hinner, by simp⟩
  | .importing _ => by
    simp [Item.opened, not_holdsBlock]
  | .type _ => by
    simp [Item.opened, not_holdsBlock]
  | .extension _ => by
    simp [Item.opened, not_holdsBlock]

theorem mem_allOpened_iff {block : OpenedBlock} (base : NamespacePath) :
    (items : List Item) → (block ∈ Item.allOpened base items ↔
      ∃ paths content, HoldsBlock items paths content ∧
        block = ⟨base ++ paths.flatten, content.filterMap Item.ofUsing?⟩)
  | [] => by
    simp [Item.allOpened, not_holdsBlock]
  | item :: rest => by
    rw [Item.allOpened, List.mem_append, mem_opened_iff base item, mem_allOpened_iff base rest]
    simp only [holdsBlock_cons_iff item rest, or_and_right, exists_or]

end

end Item

/-- Some block of a file (`SourceFile.opened`) has a path exactly if the path is that of the file
root, or is put together from the paths on the way to a namespace block in the text
(`HoldsBlock`). -/
theorem SourceFile.exists_opened_iff {file : SourceFile} {path : NamespacePath} :
    (∃ block ∈ file.opened, block.path = path) ↔
      path = [] ∨ ∃ paths content, Item.HoldsBlock file.items paths content ∧
        path = paths.flatten := by
  rw [SourceFile.opened]
  simp only [List.mem_cons, or_and_right, exists_or, exists_eq_left, Item.mem_allOpened_iff]
  refine or_congr eq_comm ⟨?_, ?_⟩
  · rintro ⟨_, ⟨paths, content, hholds, rfl⟩, rfl⟩
    exact ⟨paths, content, hholds, List.nil_append _⟩
  · rintro ⟨paths, content, hholds, rfl⟩
    exact ⟨_, ⟨paths, content, hholds, rfl⟩, List.nil_append _⟩

/-- The `OpenedBlock` that a scope is opened for. -/
def OutlineScope.block (scope : OutlineScope) : OpenedBlock := ⟨scope.path, scope.usings⟩

namespace Outline

/-- The blocks (`OutlineScope.block`) whose scopes an outline lists. -/
def opened (outline : Outline) : List OpenedBlock := outline.scopes.map (·.block)

theorem opened_openScope (outline : Outline) (parent : Option Nat) (path : NamespacePath)
    (items : List Item) :
    (outline.openScope parent path items).opened =
      outline.opened ++ [⟨path, items.filterMap Item.ofUsing?⟩] := by
  rw [opened, openScope, List.map_append]
  rfl

/-! The outline grows with each block, and declarations open nothing. -/

mutual

theorem opened_addItem (outline : Outline) (scope : Nat) (path : NamespacePath) :
    (item : Item) → (outline.addItem scope path item).opened = outline.opened ++ item.opened path
  | .block inner items => by
    rw [addItem, Item.opened, opened_addItems, opened_openScope, List.append_assoc,
      List.singleton_append]
  | .importing _ => by
    rw [addItem, Item.opened, List.append_nil]
  | .type _ => by
    rw [addItem, Item.opened, List.append_nil]
    rfl
  | .extension _ => by
    rw [addItem, Item.opened, List.append_nil]
    rfl

theorem opened_addItems (outline : Outline) (scope : Nat) (path : NamespacePath) :
    (items : List Item) →
      (outline.addItems scope path items).opened = outline.opened ++ Item.allOpened path items
  | [] => by
    rw [addItems, Item.allOpened, List.append_nil]
  | item :: rest => by
    rw [addItems, Item.allOpened, opened_addItems, opened_addItem, List.append_assoc]

end

/-- `Outline.ofFile` lists a scope for the file root and for each block in the text
(`SourceFile.opened`). -/
theorem opened_ofFile (file : SourceFile) : (ofFile file).opened = file.opened := by
  rw [ofFile, opened_addItems, opened_openScope]
  rfl

end Outline

end ExtensionMembers
