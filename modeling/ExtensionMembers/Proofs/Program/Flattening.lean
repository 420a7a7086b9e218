import ExtensionMembers.Proofs.Program.Addresses
import ExtensionMembers.Proofs.Program.Walk
import Mathlib.Data.List.Forall2

/-!
# The outline in the order of the text

The outline of a file lists its blocks, types and extensions as they come in the text, whatever the
depth at which they stand. Positions in the list of scopes stand for addresses: a scope knows the
scope of the block directly around its own, and a declaration that of the block it stands in.

## Main definitions

* `Outline.Denotes`: a scope is that of the block at an address and opens a namespace.
* `Outline.ScopeOf`, `Outline.Places`: what is recorded of a block and of a declaration.
* `Outline.Flattens`: an outline records some blocks, types and extensions, one after the other.

## Main results

* `Outline.Follows.addItem`: what the next item of a text adds to an outline.
* `Outline.ofFile_flattens`: the outline of a file records what is in the text, in its order.
-/

namespace ExtensionMembers

namespace Outline

/-! ## What an outline records -/

/-- The scope at position `scope` is that of the block at `address`, and opens the namespace with
the path `path`. -/
structure Denotes (scopes : List OutlineScope) (blocks : List TextItem) (scope : Nat)
    (address : Address) (path : NamespacePath) : Prop where
  address_eq : (blocks[scope]?).map (·.address) = some address
  path_eq : (scopes[scope]?).map (·.path) = some path

/-- An `OutlineScope` is that of a block. The scope of the file root lies in no other one; that of a
namespace block lies in the scope of the block directly around it, whose path it continues by its
own. Its using directives are those directly in the block, in the order of the text. -/
inductive ScopeOf (scopes : List OutlineScope) (blocks : List TextItem) :
    OutlineScope → TextItem → Prop
  | root (items : List Item) :
    ScopeOf scopes blocks ⟨none, [], items.filterMap Item.ofUsing?⟩ ⟨[], .block [] items⟩
  | within {parent : Nat} {around : Address} {path : NamespacePath} (position : Nat)
    (inner : NamespacePath) (items : List Item) : Denotes scopes blocks parent around path →
    ScopeOf scopes blocks ⟨some parent, path ++ inner, items.filterMap Item.ofUsing?⟩
      ⟨around ++ [position], .block inner items⟩

/-- A declaration at an `Address` is recorded with the scope of the block directly around it, and
with the qualified name made of the path of this scope and its own name. -/
def Places (scopes : List OutlineScope) (blocks : List TextItem) (address : Address) (scope : Nat)
    (name : QualifiedName) (own : String) : Prop :=
  ∃ (around : Address) (position : Nat), address = around ++ [position] ∧
    Denotes scopes blocks scope around name.path ∧ name.name = own

/-- An outline records `blocks`, `types` and `extensions`, each of these in order (`ScopeOf`,
`Places`). -/
structure Flattens (outline : Outline) (blocks types extensions : List TextItem) : Prop where
  /-- There is one scope for each block. -/
  scopes : List.Forall₂ (ScopeOf outline.scopes blocks) outline.scopes blocks
  /-- Each type is recorded with its declaration and its place. -/
  types : List.Forall₂ (fun type entry => entry.item = .type type.declaration ∧
    Places outline.scopes blocks entry.address type.scope type.name type.declaration.name)
    outline.types types
  /-- So is each extension. -/
  extensions : List.Forall₂ (fun extension entry => entry.item = .extension extension.declaration ∧
    Places outline.scopes blocks entry.address extension.scope extension.name
      extension.declaration.name)
    outline.extensions extensions

/-- The blocks (`Item.isBlock`) in what has been read of a text. -/
def blocksOf (read : List TextItem) : List TextItem := read.filter (·.item.isBlock)

/-- An outline records what has been read of a text (`Flattens`). -/
def Follows (outline : Outline) (read : List TextItem) : Prop :=
  outline.Flattens (blocksOf read) (read.filter (·.item.isType))
    (read.filter (·.item.isExtension))

/-! ## One more item -/

section Longer

variable {scopes later : List OutlineScope} {blocks more : List TextItem}
  (hscopes : scopes <+: later) (hblocks : blocks <+: more)

include hscopes hblocks

theorem Denotes.mono {scope : Nat} {address : Address} {path : NamespacePath}
    (h : Denotes scopes blocks scope address path) : Denotes later more scope address path :=
  ⟨map_of_earlier hblocks h.address_eq, map_of_earlier hscopes h.path_eq⟩

theorem ScopeOf.mono {scope : OutlineScope} {entry : TextItem}
    (h : ScopeOf scopes blocks scope entry) : ScopeOf later more scope entry := by
  cases h with
  | root items => exact .root items
  | within position inner items h => exact .within position inner items (h.mono hscopes hblocks)

theorem Places.mono {address : Address} {scope : Nat} {name : QualifiedName} {own : String}
    (h : Places scopes blocks address scope name own) :
    Places later more address scope name own := by
  obtain ⟨around, position, haddress, hscope, hname⟩ := h
  exact ⟨around, position, haddress, hscope.mono hscopes hblocks, hname⟩

end Longer

variable {outline : Outline} {blocks types extensions read : List TextItem}

/-- `Flattens` after `openScope`: the scope is that of the block read last. -/
theorem Flattens.openScope (h : outline.Flattens blocks types extensions) {parent : Option Nat}
    {path : NamespacePath} {items : List Item} {entry : TextItem}
    (hentry : ScopeOf outline.scopes blocks ⟨parent, path, items.filterMap Item.ofUsing?⟩ entry) :
    (outline.openScope parent path items).Flattens (blocks ++ [entry]) types extensions := by
  -- What was recorded before refers to earlier scopes only.
  have hscopes : outline.scopes <+: (outline.openScope parent path items).scopes :=
    List.prefix_append _ _
  have hblocks : blocks <+: blocks ++ [entry] := List.prefix_append _ _
  constructor
  · exact List.rel_append (h.scopes.imp fun _ _ hscope => hscope.mono hscopes hblocks)
      (.cons (hentry.mono hscopes hblocks) .nil)
  · exact h.types.imp fun _ _ htype => htype.imp_right (·.mono hscopes hblocks)
  · exact h.extensions.imp fun _ _ hextension => hextension.imp_right (·.mono hscopes hblocks)

section Declaration

variable (h : outline.Flattens blocks types extensions) {scope : Nat} {around : Address}
  {path : NamespacePath} (hscope : Denotes outline.scopes blocks scope around path)
  (position : Nat)

include h hscope

theorem Flattens.addType (declaration : TypeDeclaration) :
    (outline.addType scope path declaration).Flattens blocks
      (types ++ [⟨around ++ [position], .type declaration⟩]) extensions := by
  refine ⟨h.scopes, ?_, h.extensions⟩
  exact List.rel_append h.types (.cons ⟨rfl, around, position, rfl, hscope, rfl⟩ .nil)

theorem Flattens.addExtension (declaration : ExtensionDeclaration) :
    (outline.addExtension scope path declaration).Flattens blocks types
      (extensions ++ [⟨around ++ [position], .extension declaration⟩]) := by
  refine ⟨h.scopes, h.types, ?_⟩
  exact List.rel_append h.extensions (.cons ⟨rfl, around, position, rfl, hscope, rfl⟩ .nil)

end Declaration

/-! ## A whole text

A block is read before what it holds, so its scope is there when the items in it are read, and since
scopes are only ever added at the end, it is still at its position after any of them. -/

theorem blocksOf_append (read more : List TextItem) :
    blocksOf (read ++ more) = blocksOf read ++ blocksOf more :=
  List.filter_append _ _

/-- `Follows` after a block is read: `openScope` opens a scope in that of the block around it. -/
theorem Follows.openBlock (h : outline.Follows read) {scope : Nat} {around : Address}
    {path : NamespacePath} (hscope : Denotes outline.scopes (blocksOf read) scope around path)
    (position : Nat) (inner : NamespacePath) (items : List Item) :
    (outline.openScope (some scope) (path ++ inner) items).Follows
      (read ++ [⟨around ++ [position], .block inner items⟩]) := by
  rw [Follows, blocksOf_append]
  simpa [blocksOf] using
    Flattens.openScope h (.within position inner items hscope)

/-- The scope that `openScope` opens is that of the block read last (`Denotes`). -/
theorem Follows.denotes_openScope (h : outline.Follows read) (parent : Option Nat)
    (path inner : NamespacePath) (items : List Item) (address : Address) :
    Denotes (outline.openScope parent path items).scopes
      (blocksOf (read ++ [⟨address, .block inner items⟩])) outline.scopes.length address path := by
  constructor
  · -- As many scopes as blocks were there before.
    have hblocks : blocksOf [⟨address, .block inner items⟩] = [⟨address, .block inner items⟩] := rfl
    rw [blocksOf_append, hblocks, h.scopes.length_eq, List.getElem?_concat_length]
    rfl
  · rw [openScope, List.getElem?_concat_length]
    rfl

mutual

theorem Follows.addItem {outline : Outline} {read : List TextItem} (h : outline.Follows read)
    {scope : Nat} {around : Address} {path : NamespacePath}
    (hscope : Denotes outline.scopes (blocksOf read) scope around path) (position : Nat) :
    (item : Item) →
      (outline.addItem scope path item).Follows (read ++ item.preorder (around ++ [position]))
  | .block inner items => by
    have hopened := h.openBlock hscope position inner items
    have hnew := h.denotes_openScope (some scope) (path ++ inner) inner items (around ++ [position])
    rw [Outline.addItem, Item.preorder, List.append_cons]
    exact hopened.addItems hnew 0 items
  | .importing imported => by
    rw [Outline.addItem, Item.preorder]
    simpa [Follows, blocksOf] using h
  | .type declaration => by
    rw [Outline.addItem, Item.preorder]
    simpa [Follows, blocksOf] using
      Flattens.addType h hscope position declaration
  | .extension declaration => by
    rw [Outline.addItem, Item.preorder]
    simpa [Follows, blocksOf] using
      Flattens.addExtension h hscope position declaration

theorem Follows.addItems {outline : Outline} {read : List TextItem} (h : outline.Follows read)
    {scope : Nat} {around : Address} {path : NamespacePath}
    (hscope : Denotes outline.scopes (blocksOf read) scope around path) (position : Nat) :
    (items : List Item) →
      (outline.addItems scope path items).Follows (read ++ Item.allPreorder around position items)
  | [] => by
    rw [Outline.addItems, Item.allPreorder, List.append_nil]
    exact h
  | item :: rest => by
    have hitem := h.addItem hscope position item
    -- The scope around the items stays where it was.
    have hblocks : blocksOf read <+: blocksOf (read ++ item.preorder (around ++ [position])) :=
      blocksOf_append read _ ▸ List.prefix_append _ _
    have hnext := hscope.mono (scopes_addItem scope path outline item) hblocks
    rw [Outline.addItems, Item.allPreorder, ← List.append_assoc]
    exact hitem.addItems hnext (position + 1) rest

end

/-- `Outline.ofFile` records what the file holds in pre-order (`Item.preorder`). -/
theorem follows_ofFile (file : SourceFile) : (ofFile file).Follows (file.root.preorder []) := by
  have hempty : (Outline.mk file.id [] [] []).Flattens [] [] [] := ⟨.nil, .nil, .nil⟩
  have hopened : ((Outline.mk file.id [] [] []).openScope none [] file.items).Follows
      [⟨[], file.root⟩] := hempty.openScope (.root file.items)
  exact hopened.addItems ⟨rfl, rfl⟩ 0 file.items

/-- `Outline.ofFile` is made by a walk that knows each scope by its position (`walk?`), and it lists
what the file declares in the order of the text. There is a scope for the file root, which comes
first, lies in no other and has the empty path, and one for each namespace block, after that of the
block directly around it, whose path it continues (`ScopeOf`). Each has the using directives
directly in its block. Each type and each extension, at whatever depth, is recorded once, with the
scope of the block it stands in and the name it has there (`Places`). Extensions are numbered from 0
through the whole file. -/
theorem ofFile_flattens (file : SourceFile) :
    walk? file = some (ofFile file) ∧
      ∃ blocks types extensions : List TextItem,
        file.root.Lists Item.isBlock blocks ∧ file.root.Lists Item.isType types ∧
        file.root.Lists Item.isExtension extensions ∧
        (ofFile file).Flattens blocks types extensions ∧
        (∃ usings, (ofFile file).scopes[0]? = some ⟨none, [], usings⟩) ∧
        (∀ (index : Nat) (scope : OutlineScope) (parent : Nat),
          (ofFile file).scopes[index]? = some scope → scope.parent = some parent →
            parent < index) ∧
        (ofFile file).extensions.map (·.id) =
          (List.range (ofFile file).extensions.length).map (ExtensionId.mk file.id) := by
  refine ⟨walk?_eq_some file, _, _, _, Item.lists_preorder _ _, Item.lists_preorder _ _,
    Item.lists_preorder _ _, follows_ofFile file, ?_, ?_, ?_⟩
  · exact ⟨_, getElem?_scopes_ofFile_zero file⟩
  · intro index scope parent hscope hparent
    exact (sound_ofFile file).parent_lt hscope hparent
  · rw [(sound_ofFile file).ids, file_ofFile]

end Outline

end ExtensionMembers
