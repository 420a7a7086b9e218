import ExtensionMembers.Program.Outline
import Mathlib.Data.List.Infix

/-!
# Outlines of files and of edited files

The outline of a file is sound: scopes come after those around them, declarations lie in the
namespace of their scope, and extensions are numbered in the order of the text. The second part
follows three edits of a file into its outline: another number, other using directives, and one
more extension.

## Main definitions

* `Outline.Sound`: what holds of the outline of every file.
* `Item.withoutUsings`: some items without their using directives, at any depth.
* `Item.Inserted`: some items with one more extension, at any depth.
* `Outline.withFile`, `Outline.withoutUsings`, `Outline.Gains`: the same edits of outlines.

## Main results

* `Outline.sound_ofFile`: the outline of a file is sound.
* `Outline.ofFile_withFile`, `Outline.withoutUsings_ofFile`, `Outline.gains_ofFile`: what an edit of
  a file does to its outline.
-/

namespace ExtensionMembers

namespace Outline

/-! ## Sound outlines -/

structure Sound (outline : Outline) : Prop where
  parent_lt : ∀ {index : Nat} {scope : OutlineScope} {parent : Nat},
    outline.scopes[index]? = some scope → scope.parent = some parent → parent < index
  types_within : ∀ type ∈ outline.types,
    (outline.scopes[type.scope]?).map (·.path) = some type.name.path
  extensions_within : ∀ extension ∈ outline.extensions,
    (outline.scopes[extension.scope]?).map (·.path) = some extension.name.path
  ids : outline.extensions.map (·.id) =
    (List.range outline.extensions.length).map (ExtensionId.mk outline.file)

/-- What is read off an item of a list is read off it in a longer list as well. -/
theorem map_of_earlier {α β : Type} {list later : List α} (h : list <+: later) {index : Nat}
    {read : α → β} {value : β} (hvalue : (list[index]?).map read = some value) :
    (later[index]?).map read = some value := by
  obtain ⟨tail, rfl⟩ := h
  obtain ⟨item, hitem, _⟩ := Option.map_eq_some_iff.1 hvalue
  rwa [List.getElem?_append_left (List.getElem?_eq_some_iff.1 hitem).1]

/-- `openScope` puts the scope last, and the others stay where they are. -/
theorem getElem?_openScope_eq_some_iff {outline : Outline} {parent : Option Nat}
    {path : NamespacePath} {items : List Item} {index : Nat} {scope : OutlineScope} :
    (outline.openScope parent path items).scopes[index]? = some scope ↔
      outline.scopes[index]? = some scope ∨ index = outline.scopes.length ∧
        scope = ⟨parent, path, items.filterMap Item.ofUsing?⟩ := by
  rw [Outline.openScope, List.getElem?_append]
  split
  next hlt => simp [Nat.ne_of_lt hlt]
  next hge =>
    have hnone : outline.scopes[index]? = none := List.getElem?_eq_none (Nat.not_lt.1 hge)
    have hindex : index - outline.scopes.length = 0 ↔ index = outline.scopes.length := by omega
    simp [List.getElem?_singleton, hnone, hindex, eq_comm (a := scope)]

theorem Sound.openScope {outline : Outline} (h : outline.Sound) {parent : Option Nat}
    (hparent : ∀ index, parent = some index → index < outline.scopes.length)
    (path : NamespacePath) (items : List Item) : (outline.openScope parent path items).Sound := by
  have hlater := List.prefix_append outline.scopes [⟨parent, path, items.filterMap Item.ofUsing?⟩]
  refine ⟨fun {index scope around} hscope haround => ?_,
    fun type htype => map_of_earlier hlater (h.types_within type htype),
    fun extension hextension => map_of_earlier hlater (h.extensions_within _ hextension),
    h.ids⟩
  -- Of the new scope, the scope around it was there before.
  rcases getElem?_openScope_eq_some_iff.1 hscope with hscope | ⟨rfl, rfl⟩
  · exact h.parent_lt hscope haround
  · exact hparent around haround

theorem Sound.addType {outline : Outline} (h : outline.Sound) {scope : Nat} {path : NamespacePath}
    (hscope : (outline.scopes[scope]?).map (·.path) = some path) (declaration : TypeDeclaration) :
    (outline.addType scope path declaration).Sound := by
  refine ⟨h.parent_lt, fun type htype => ?_, h.extensions_within, h.ids⟩
  rcases List.mem_append.1 htype with htype | htype
  · exact h.types_within type htype
  · obtain rfl := List.mem_singleton.1 htype
    exact hscope

theorem Sound.addExtension {outline : Outline} (h : outline.Sound) {scope : Nat}
    {path : NamespacePath} (hscope : (outline.scopes[scope]?).map (·.path) = some path)
    (declaration : ExtensionDeclaration) :
    (outline.addExtension scope path declaration).Sound := by
  refine ⟨h.parent_lt, h.types_within, fun extension hextension => ?_, ?_⟩
  · rcases List.mem_append.1 hextension with hextension | hextension
    · exact h.extensions_within extension hextension
    · obtain rfl := List.mem_singleton.1 hextension
      exact hscope
  · simp [Outline.addExtension, h.ids, List.range_succ]

/-- `Sound` after a block: `openScope` opens a scope at the end, with the path that the block adds
to the one around it. -/
theorem Sound.openBlock {outline : Outline} (h : outline.Sound) {scope : Nat}
    {path : NamespacePath} (hscope : (outline.scopes[scope]?).map (·.path) = some path)
    (inner : NamespacePath) (items : List Item) :
    (outline.openScope (some scope) (path ++ inner) items).Sound ∧
      ((outline.openScope (some scope) (path ++ inner) items).scopes[outline.scopes.length]?).map
        (·.path) = some (path ++ inner) := by
  obtain ⟨_, hfound, _⟩ := Option.map_eq_some_iff.1 hscope
  have hlt := (List.getElem?_eq_some_iff.1 hfound).1
  exact ⟨h.openScope (fun index hindex => Option.some.inj hindex ▸ hlt) (path ++ inner) items,
    by simp [Outline.openScope]⟩

/-! Scopes are only added at the end. -/

mutual

theorem scopes_addItem (scope : Nat) (path : NamespacePath) (outline : Outline) :
    (item : Item) → outline.scopes <+: (outline.addItem scope path item).scopes
  | .block inner items => by
    rw [addItem]
    exact (List.prefix_append _ _).trans (scopes_addItems _ _ (outline.openScope _ _ items) items)
  | .importing _ => by
    rw [addItem]
  | .type _ => by
    rw [addItem]
    exact List.prefix_rfl
  | .extension _ => by
    rw [addItem]
    exact List.prefix_rfl

theorem scopes_addItems (scope : Nat) (path : NamespacePath) (outline : Outline) :
    (items : List Item) → outline.scopes <+: (outline.addItems scope path items).scopes
  | [] => by
    rw [addItems]
  | item :: rest => by
    rw [addItems]
    exact (scopes_addItem scope path outline item).trans (scopes_addItems scope path _ rest)

end

mutual

theorem Sound.addItem {outline : Outline} (h : outline.Sound) {scope : Nat} {path : NamespacePath}
    (hscope : (outline.scopes[scope]?).map (·.path) = some path) :
    (item : Item) → (outline.addItem scope path item).Sound
  | .block inner items => by
    obtain ⟨hopen, hnew⟩ := h.openBlock hscope inner items
    rw [Outline.addItem]
    exact hopen.addItems hnew items
  | .importing _ => by
    rw [Outline.addItem]
    exact h
  | .type declaration => by
    rw [Outline.addItem]
    exact h.addType hscope declaration
  | .extension declaration => by
    rw [Outline.addItem]
    exact h.addExtension hscope declaration

theorem Sound.addItems {outline : Outline} (h : outline.Sound) {scope : Nat} {path : NamespacePath}
    (hscope : (outline.scopes[scope]?).map (·.path) = some path) :
    (items : List Item) → (outline.addItems scope path items).Sound
  | [] => by
    rw [Outline.addItems]
    exact h
  | item :: rest => by
    -- The scope around the items stays where it was.
    have hnext := map_of_earlier (scopes_addItem scope path outline item) hscope
    rw [Outline.addItems]
    exact (h.addItem hscope item).addItems hnext rest

end

/-- `Outline.ofFile` is `Sound`. -/
theorem sound_ofFile (file : SourceFile) : (ofFile file).Sound := by
  have hempty : (Outline.mk file.id [] [] []).Sound := by
    constructor <;> simp
  have hnone : ∀ index, (none : Option Nat) = some index → index < 0 := by simp
  exact (hempty.openScope hnone [] file.items).addItems (by simp [openScope]) file.items

/-- The first scope of `Outline.ofFile` is that of the file root. -/
theorem getElem?_scopes_ofFile_zero (file : SourceFile) :
    (ofFile file).scopes[0]? = some ⟨none, [], file.items.filterMap Item.ofUsing?⟩ := by
  have hfirst : [⟨none, [], file.items.filterMap Item.ofUsing?⟩] <+: (ofFile file).scopes :=
    scopes_addItems 0 [] ((Outline.mk file.id [] [] []).openScope none [] file.items) file.items
  obtain ⟨rest, hscopes⟩ := hfirst
  rw [← hscopes]
  rfl

/-! ## Two outlines, side by side -/

/-- What `Rel` says of two outlines it says after the same item is added to both. -/
structure Kept (Rel : Outline → Outline → Prop) : Prop where
  length_eq : ∀ {outline other}, Rel outline other → other.scopes.length = outline.scopes.length
  openScope : ∀ {outline other}, Rel outline other → ∀ parent path items,
    Rel (outline.openScope parent path items) (other.openScope parent path items)
  addType : ∀ {outline other}, Rel outline other → ∀ scope path declaration,
    Rel (outline.addType scope path declaration) (other.addType scope path declaration)
  addExtension : ∀ {outline other}, Rel outline other → ∀ scope path declaration,
    Rel (outline.addExtension scope path declaration) (other.addExtension scope path declaration)

mutual

theorem Kept.addItem {Rel : Outline → Outline → Prop} (hkept : Kept Rel) {outline other : Outline}
    (h : Rel outline other) (scope : Nat) (path : NamespacePath) :
    (item : Item) → Rel (outline.addItem scope path item) (other.addItem scope path item)
  | .block inner items => by
    rw [Outline.addItem, Outline.addItem, hkept.length_eq h]
    exact hkept.addItems (hkept.openScope h _ _ items) _ _ items
  | .importing _ => by
    rwa [Outline.addItem, Outline.addItem]
  | .type declaration => by
    rw [Outline.addItem, Outline.addItem]
    exact hkept.addType h scope path declaration
  | .extension declaration => by
    rw [Outline.addItem, Outline.addItem]
    exact hkept.addExtension h scope path declaration

theorem Kept.addItems {Rel : Outline → Outline → Prop} (hkept : Kept Rel) {outline other : Outline}
    (h : Rel outline other) (scope : Nat) (path : NamespacePath) :
    (items : List Item) → Rel (outline.addItems scope path items) (other.addItems scope path items)
  | [] => by
    rwa [Outline.addItems, Outline.addItems]
  | item :: rest => by
    rw [Outline.addItems, Outline.addItems]
    exact hkept.addItems (hkept.addItem h scope path item) scope path rest

end

/-! ## Another number for the file -/

/-- The `Outline` as that of a file with another number. -/
def withFile (file : FileId) (outline : Outline) : Outline :=
  { outline with
    file
    extensions := outline.extensions.map fun extension =>
      { extension with id := ⟨file, extension.id.index⟩ } }

/-- The number of a file goes into the identities of its extensions in `Outline.ofFile` and nowhere
else. -/
theorem ofFile_withFile (file : SourceFile) (id : FileId) :
    ofFile { file with id } = (ofFile file).withFile id := by
  -- The relation is kept by every step, since none reads the number but for the identities.
  have hkept : Kept fun outline other => other = outline.withFile id := by
    constructor
    case length_eq =>
      rintro outline _ rfl
      rfl
    case addExtension =>
      rintro outline _ rfl scope path declaration
      simp [addExtension, withFile]
    all_goals
      rintro outline _ rfl _ _ _
      rfl
  exact hkept.addItems (by rfl) 0 [] file.items

theorem file_ofFile (file : SourceFile) : (ofFile file).file = file.id :=
  congrArg Outline.file (ofFile_withFile file file.id)

/-! ## Other using directives -/

end Outline

mutual

/-- An `Item` without its using directives, at any depth. -/
def Item.withoutUsings : Item → List Item
  | .block path items => [.block path (Item.allWithoutUsings items)]
  | .importing _ => []
  | .type declaration => [.type declaration]
  | .extension declaration => [.extension declaration]

/-- Some items without their using directives (`Item.withoutUsings`). -/
def Item.allWithoutUsings : List Item → List Item
  | [] => []
  | item :: rest => item.withoutUsings ++ Item.allWithoutUsings rest

end

theorem Item.filterMap_ofUsing?_allWithoutUsings (items : List Item) :
    (Item.allWithoutUsings items).filterMap Item.ofUsing? = [] := by
  induction items with
  | nil => rfl
  | cons item rest ih =>
    rw [Item.allWithoutUsings, List.filterMap_append, ih]
    cases item <;> rfl

namespace Outline

/-- The `Outline` as that of a file without using directives. -/
def withoutUsings (outline : Outline) : Outline :=
  { outline with scopes := outline.scopes.map fun scope => { scope with usings := [] } }

theorem withoutUsings_openScope (outline : Outline) (parent : Option Nat) (path : NamespacePath)
    (items : List Item) :
    (outline.openScope parent path items).withoutUsings =
      outline.withoutUsings.openScope parent path (Item.allWithoutUsings items) := by
  simp [openScope, withoutUsings, Item.filterMap_ofUsing?_allWithoutUsings]

theorem addItems_append (outline : Outline) (scope : Nat) (path : NamespacePath)
    (before after : List Item) :
    outline.addItems scope path (before ++ after) =
      (outline.addItems scope path before).addItems scope path after := by
  induction before generalizing outline with
  | nil => rw [List.nil_append, addItems]
  | cons item rest ih => rw [List.cons_append, addItems, ih, addItems]

mutual

theorem withoutUsings_addItem (outline : Outline) (scope : Nat) (path : NamespacePath) :
    (item : Item) → (outline.addItem scope path item).withoutUsings =
      outline.withoutUsings.addItems scope path item.withoutUsings
  | .block inner items => by
    rw [addItem, withoutUsings_addItems, withoutUsings_openScope, Item.withoutUsings, addItems,
      addItems, addItem]
    simp [withoutUsings]
  | .importing _ => by
    rw [addItem, Item.withoutUsings, addItems]
  | .type _ => by
    rw [addItem, Item.withoutUsings, addItems, addItems, addItem]
    rfl
  | .extension _ => by
    rw [addItem, Item.withoutUsings, addItems, addItems, addItem]
    rfl

theorem withoutUsings_addItems (outline : Outline) (scope : Nat) (path : NamespacePath) :
    (items : List Item) → (outline.addItems scope path items).withoutUsings =
      outline.withoutUsings.addItems scope path (Item.allWithoutUsings items)
  | [] => by
    rw [addItems, Item.allWithoutUsings, addItems]
  | item :: rest => by
    rw [addItems, withoutUsings_addItems, withoutUsings_addItem, Item.allWithoutUsings,
      addItems_append]

end

/-- Using directives show in the scopes of `Outline.ofFile` and nowhere else. -/
theorem withoutUsings_ofFile (file : SourceFile) :
    (ofFile file).withoutUsings =
      ofFile { file with items := Item.allWithoutUsings file.items } := by
  rw [ofFile, withoutUsings_addItems, withoutUsings_openScope]
  rfl

/-! ## One more extension -/

end Outline

/-- Some items, within a namespace with the path `base`, and the same with one more extension, at
some depth, in a block for the namespace with the path `path`. -/
inductive Item.Inserted (declaration : ExtensionDeclaration) :
    (base path : NamespacePath) → List Item → List Item → Prop
  | here (base : NamespacePath) (before after : List Item) :
      Inserted declaration base base (before ++ after) (before ++ .extension declaration :: after)
  | within {base inner path : NamespacePath} {items later : List Item} (before after : List Item) :
      Inserted declaration (base ++ inner) path items later →
      Inserted declaration base path (before ++ .block inner items :: after)
        (before ++ .block inner later :: after)

theorem Item.Inserted.usings_eq {declaration : ExtensionDeclaration} {base path : NamespacePath}
    {items later : List Item} (h : Item.Inserted declaration base path items later) :
    later.filterMap Item.ofUsing? = items.filterMap Item.ofUsing? := by
  cases h with
  | here before after => simp [List.filterMap_cons, Item.ofUsing?]
  | within before after _ => simp [List.filterMap_cons, Item.ofUsing?]

/-- The extension one place further back in its file, with the next `index`. -/
def OutlineExtension.movedOn (extension : OutlineExtension) : OutlineExtension :=
  { extension with id := ⟨extension.id.file, extension.id.index + 1⟩ }

namespace Outline

/-- The outline `later` is `outline` with one more extension, and those after it are one place
further back (`movedOn`). -/
def Gains (declaration : ExtensionDeclaration) (path : NamespacePath)
    (outline later : Outline) : Prop :=
  ∃ (before after : List OutlineExtension) (scope : Nat),
    outline.extensions = before ++ after ∧
      later = { outline with
        extensions := before ++ ⟨⟨outline.file, before.length⟩, ⟨path, declaration.name⟩, scope,
          declaration⟩ :: after.map .movedOn }

/-- `openScope` opens the same scope for a block with one more extension in it (`Item.Inserted`). -/
theorem openScope_inserted {declaration : ExtensionDeclaration} {base path : NamespacePath}
    {items later : List Item} (h : Item.Inserted declaration base path items later)
    (outline : Outline) (parent : Option Nat) (inner : NamespacePath) :
    outline.openScope parent inner later = outline.openScope parent inner items := by
  rw [openScope, openScope, h.usings_eq]

theorem kept_gains (declaration : ExtensionDeclaration) (path : NamespacePath) :
    Kept (Gains declaration path) := by
  constructor
  case length_eq =>
    rintro outline _ ⟨before, after, scope, _, rfl⟩
    rfl
  case addExtension =>
    -- An extension that comes later is numbered one further on.
    rintro outline _ ⟨before, after, scope, hall, rfl⟩ within around other
    refine ⟨before, after ++ [⟨⟨outline.file, outline.extensions.length⟩, ⟨around, other.name⟩,
      within, other⟩], scope, by simp [addExtension, hall], ?_⟩
    simp [addExtension, OutlineExtension.movedOn, hall, Nat.add_assoc]
  all_goals
    rintro outline _ ⟨before, after, scope, hall, rfl⟩ _ _ _
    exact ⟨before, after, scope, hall, rfl⟩

theorem gains_addItems {declaration : ExtensionDeclaration} {base path : NamespacePath}
    {items later : List Item} (h : Item.Inserted declaration base path items later)
    (outline : Outline) (scope : Nat) :
    Gains declaration path (outline.addItems scope base items)
      (outline.addItems scope base later) := by
  -- Up to the place of insertion the outlines are the same; from there on one has gained.
  induction h generalizing outline scope with
  | here base before after =>
    rw [addItems_append, addItems_append, addItems, addItem]
    refine (kept_gains declaration base).addItems ?_ scope base after
    exact ⟨_, [], scope, (List.append_nil _).symm, rfl⟩
  | @within base inner path items later before after hinner ih =>
    rw [addItems_append, addItems_append, addItems, addItems, addItem, addItem]
    refine (kept_gains declaration path).addItems ?_ scope base after
    rw [openScope_inserted hinner]
    exact ih _ _

/-- One more extension in a file (`Item.Inserted`) is one more in its `Outline.ofFile`. -/
theorem gains_ofFile {declaration : ExtensionDeclaration} {path : NamespacePath} {file : SourceFile}
    {items : List Item} (h : Item.Inserted declaration [] path file.items items) :
    Gains declaration path (ofFile file) (ofFile { file with items }) := by
  rw [ofFile, ofFile, openScope_inserted h]
  exact gains_addItems h _ 0

end Outline

end ExtensionMembers
