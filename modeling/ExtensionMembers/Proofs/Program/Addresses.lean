import ExtensionMembers.Program.Declaration
import Mathlib.Data.List.Basic

/-!
# Addresses of items

An item of a file is known by its address, the positions on the way to it: that of the outermost
block around it among the items of the file first, and its own among the items of the block directly
around it last. The file itself is taken as a block with the empty address. The text comes in the
order of the addresses, compared position by position: a block stands before what it holds, and
whatever it holds stands before the next item beside it.

## Main definitions

* `Address`, `Item.itemAt?`: addresses, and the item that an address leads to.
* `Item.preorder`: an item and all that it holds, in the order of the text.
* `Item.Lists`: the items of one kind, each once and in the order of the text.

## Main results

* `Item.mem_preorder_iff`: what is listed in pre-order is what addresses lead to.
* `Item.pairwise_preorder`: pre-order is the order of the text.
* `Item.lists_preorder`: the items of any kind, in pre-order, are each listed once and in order.
-/

namespace ExtensionMembers

/-- The positions on the way to an `Item`, the outermost first. -/
abbrev Address := List Nat

/-- An `Item` with its `Address`. -/
structure TextItem where
  /-- The address. -/
  address : Address
  /-- The item. -/
  item : Item

/-- The file as a block (`Item.block`), which opens the global namespace. -/
def SourceFile.root (file : SourceFile) : Item := .block [] file.items

namespace Item

/-- Whether the item is a namespace block, `Item.block`. -/
@[simp]
def isBlock : Item → Bool
  | block .. => true
  | _ => false

/-- Whether the item declares a type, `Item.type`. -/
@[simp]
def isType : Item → Bool
  | type _ => true
  | _ => false

/-- Whether the item declares an extension, `Item.extension`. -/
@[simp]
def isExtension : Item → Bool
  | extension _ => true
  | _ => false

/-- The items directly in an `Item.block`; other items hold none. -/
def contents : Item → List Item
  | block _ items => items
  | _ => []

/-- The item that an `Address` leads to from another one (`contents`); none if the address leaves
the text. -/
def itemAt? (item : Item) : Address → Option Item
  | [] => some item
  | position :: rest => item.contents[position]?.bind (·.itemAt? rest)

/-- The `TextItem`s listed are the items of one kind that an item holds, itself among them, each
once and in the order of the text. -/
structure Lists (root : Item) (kind : Item → Bool) (listed : List TextItem) : Prop where
  /-- Later in the list is later in the text. -/
  inOrder : listed.Pairwise (·.address < ·.address)
  /-- An item is listed with an address if this leads to it and it is of the kind. -/
  mem_iff : ∀ entry : TextItem, entry ∈ listed ↔
    root.itemAt? entry.address = some entry.item ∧ kind entry.item = true

mutual

/-- An `Item` at an address and all that it holds, a block before its items. -/
def preorder (address : Address) : Item → List TextItem
  | block path items => ⟨address, block path items⟩ :: allPreorder address 0 items
  | importing path => [⟨address, importing path⟩]
  | type declaration => [⟨address, type declaration⟩]
  | extension declaration => [⟨address, extension declaration⟩]

/-- Some items of the block at the address `around`, the first of them at `position`, and all that
they hold (`preorder`). -/
def allPreorder (around : Address) (position : Nat) : List Item → List TextItem
  | [] => []
  | item :: rest => item.preorder (around ++ [position]) ++ allPreorder around (position + 1) rest

end

theorem preorder_eq (address : Address) (item : Item) :
    item.preorder address = ⟨address, item⟩ :: allPreorder address 0 item.contents := by
  cases item <;> simp [preorder, allPreorder, contents]

/-! What holds of an item if it holds of those directly in it holds of every item. -/

mutual

theorem contents_induction {motive : Item → Prop}
    (step : ∀ item, (∀ inner ∈ item.contents, motive inner) → motive item) :
    (item : Item) → motive item
  | block _ items => step _ (contents_induction_all step items)
  | importing _ => step _ (by simp [contents])
  | type _ => step _ (by simp [contents])
  | extension _ => step _ (by simp [contents])

theorem contents_induction_all {motive : Item → Prop}
    (step : ∀ item, (∀ inner ∈ item.contents, motive inner) → motive item) :
    (items : List Item) → ∀ inner ∈ items, motive inner
  | [] => by simp
  | item :: rest =>
    List.forall_mem_cons.2 ⟨contents_induction step item, contents_induction_all step rest⟩

end

/-! ## Pre-order -/

/-- `allPreorder` lists each of some items from its own address on. -/
theorem mem_allPreorder_iff {entry : TextItem} {around : Address} {position : Nat}
    {items : List Item} :
    entry ∈ allPreorder around position items ↔ ∃ (index : Nat) (inner : Item),
      items[index]? = some inner ∧ entry ∈ inner.preorder (around ++ [position + index]) := by
  induction items generalizing position with
  | nil => simp [allPreorder]
  | cons item rest ih =>
    rw [allPreorder, List.mem_append, ih]
    constructor
    · rintro (hitem | ⟨index, inner, hinner, hentry⟩)
      · exact ⟨0, item, rfl, hitem⟩
      · exact ⟨index + 1, inner, hinner, by rwa [← Nat.add_assoc, Nat.add_right_comm]⟩
    · rintro ⟨_ | index, inner, hinner, hentry⟩
      · obtain rfl := Option.some.inj hinner
        exact .inl hentry
      · exact .inr ⟨index, inner, hinner, by rwa [Nat.add_right_comm, Nat.add_assoc]⟩

/-- What `preorder` lists from the address of an item on is what addresses lead to from the item
(`itemAt?`). -/
theorem mem_preorder_iff {entry : TextItem} {base : Address} {item : Item} :
    entry ∈ item.preorder base ↔
      ∃ rest, entry.address = base ++ rest ∧ item.itemAt? rest = some entry.item := by
  induction item using contents_induction generalizing base with
  | step item ih =>
    obtain ⟨address, found⟩ := entry
    -- An entry is the item itself, or is listed for one of the items directly in it.
    rw [preorder_eq, List.mem_cons, mem_allPreorder_iff, TextItem.mk.injEq]
    constructor
    · rintro (⟨rfl, rfl⟩ | ⟨index, inner, hinner, hentry⟩)
      · exact ⟨[], (List.append_nil _).symm, rfl⟩
      · obtain ⟨rest, rfl, hfound⟩ := (ih inner (List.mem_of_getElem? hinner)).1 hentry
        refine ⟨index :: rest, by simp, ?_⟩
        rw [itemAt?, hinner, Option.bind_some, hfound]
    · rintro ⟨_ | ⟨index, rest⟩, rfl, hfound⟩
      · exact .inl ⟨List.append_nil _, (Option.some.inj hfound).symm⟩
      · obtain ⟨inner, hinner, hrest⟩ := Option.bind_eq_some_iff.1 hfound
        refine .inr ⟨index, inner, hinner, (ih inner (List.mem_of_getElem? hinner)).2 ?_⟩
        exact ⟨rest, by simp, hrest⟩

/-- By its `Address`, a block stands before what it holds. -/
theorem lt_append_cons (address : Address) (position : Nat) (rest : Address) :
    address < address ++ position :: rest := by
  have hlt : address ++ [] < address ++ position :: rest :=
    List.append_left_lt (List.nil_lt_cons position rest)
  rwa [List.append_nil] at hlt

/-- By its `Address`, what an item holds stands before the next items beside it. -/
theorem append_cons_lt {first second : Nat} (h : first < second) (around rest other : Address) :
    around ++ first :: rest < around ++ second :: other :=
  List.append_left_lt (List.cons_lt_cons_iff.2 (.inl h))

/-- `allPreorder` is in the order of the text if `preorder` of each item is. -/
theorem pairwise_allPreorder {around : Address} {position : Nat} {items : List Item}
    (h : ∀ item ∈ items, ∀ base, (item.preorder base).Pairwise (·.address < ·.address)) :
    (allPreorder around position items).Pairwise (·.address < ·.address) := by
  induction items generalizing position with
  | nil => rw [allPreorder]; exact .nil
  | cons item rest ih =>
    obtain ⟨hitem, hrest⟩ := List.forall_mem_cons.1 h
    rw [allPreorder, List.pairwise_append]
    refine ⟨hitem _, ih hrest, fun entry hentry later hlater => ?_⟩
    -- The two addresses part at the positions of the two items, and the first item comes first.
    obtain ⟨below, hbelow, _⟩ := mem_preorder_iff.1 hentry
    obtain ⟨index, inner, _, hinner⟩ := mem_allPreorder_iff.1 hlater
    obtain ⟨beyond, hbeyond, _⟩ := mem_preorder_iff.1 hinner
    rw [hbelow, hbeyond, List.append_assoc, List.append_assoc]
    exact append_cons_lt (by omega) around below beyond

/-- `preorder` lists an item and all that it holds in the order of the text. -/
theorem pairwise_preorder (base : Address) (item : Item) :
    (item.preorder base).Pairwise (·.address < ·.address) := by
  induction item using contents_induction generalizing base with
  | step item ih =>
    rw [preorder_eq, List.pairwise_cons]
    -- The item comes first, since all that it holds has an address longer than its own.
    refine ⟨fun entry hentry => ?_, pairwise_allPreorder ih⟩
    obtain ⟨index, inner, _, hinner⟩ := mem_allPreorder_iff.1 hentry
    obtain ⟨below, hbelow, _⟩ := mem_preorder_iff.1 hinner
    rw [hbelow, List.append_assoc]
    exact lt_append_cons base _ below

/-- `preorder` lists the items of one kind, each once and in the order of the text (`Lists`). -/
theorem lists_preorder (root : Item) (kind : Item → Bool) :
    root.Lists kind ((root.preorder []).filter (kind ·.item)) := by
  refine ⟨(pairwise_preorder [] root).filter _, fun entry => ?_⟩
  rw [List.mem_filter, mem_preorder_iff]
  simp

/-- What the first of two blocks holds stands between them. -/
example : ((Item.block [] [.block ["Shop"] [.block ["Back"] [], .importing ["Tools"]],
    .block ["Yard"] []]).preorder []).map (·.address) =
      [[], [0], [0, 0], [0, 1], [1]] := rfl

end Item

end ExtensionMembers
