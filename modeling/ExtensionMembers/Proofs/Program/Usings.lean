import ExtensionMembers.Proofs.Collection.Correspondence
import ExtensionMembers.Proofs.Program.Outline

/-!
# Using directives as sets

A using directive may stand anywhere among the items of its block, and any number of times. Files
that differ in this alone have the same outline, but that the using directives of a scope may come
in another order and another number.

## Main definitions

* `Item.SameDeclarations`, `Item.SameUsings`: the same items, with the same set of using directives
  in each block.
* `Outline.SameUsings`: the same outline, with the same set of using directives in each scope.

## Main results

* `Item.SameUsings.of_filter_eq`: using directives of one block moved about or written again.
* `Outline.sameUsings_ofFile`: the outlines of such files.
-/

namespace ExtensionMembers

/-! ## Items -/

/-- The same declarations and blocks in the same order, with any using directives (`Item.importing`)
between them. In each of the blocks the same using directives stand, at any depth. -/
inductive Item.SameDeclarations : List Item → List Item → Prop
  | nil : SameDeclarations [] []
  | left {items others : List Item} (path : NamespacePath) :
    SameDeclarations items others → SameDeclarations (.importing path :: items) others
  | right {items others : List Item} (path : NamespacePath) :
    SameDeclarations items others → SameDeclarations items (.importing path :: others)
  | type {items others : List Item} (declaration : TypeDeclaration) :
    SameDeclarations items others →
    SameDeclarations (.type declaration :: items) (.type declaration :: others)
  | extension {items others : List Item} (declaration : ExtensionDeclaration) :
    SameDeclarations items others →
    SameDeclarations (.extension declaration :: items) (.extension declaration :: others)
  | block {items others inner inner' : List Item} (path : NamespacePath) :
    SameDeclarations inner inner' →
    SameMembers (inner.filterMap Item.ofUsing?) (inner'.filterMap Item.ofUsing?) →
    SameDeclarations items others →
    SameDeclarations (.block path inner :: items) (.block path inner' :: others)

/-- The same items (`SameDeclarations`), but that using directives may stand in other places of
their block and another number of times. -/
structure Item.SameUsings (items others : List Item) : Prop where
  declarations : SameDeclarations items others
  usings : SameMembers (items.filterMap Item.ofUsing?) (others.filterMap Item.ofUsing?)

/-- The same file, but that using directives may stand in other places of their block and another
number of times (`Item.SameUsings`). -/
structure SourceFile.SameUsings (file other : SourceFile) : Prop where
  id_eq : file.id = other.id
  items : Item.SameUsings file.items other.items

namespace Item

theorem eq_importing_of_ofUsing? {item : Item} {path : NamespacePath}
    (h : item.ofUsing? = some path) : item = .importing path := by
  cases item with
  | importing => rw [Option.some.inj h]
  | block | type | extension => cases h

theorem SameDeclarations.refl (items : List Item) : SameDeclarations items items := by
  match items with
  | [] => exact .nil
  | .importing path :: rest => exact .left path (.right path (refl rest))
  | .type declaration :: rest => exact .type declaration (refl rest)
  | .extension declaration :: rest => exact .extension declaration (refl rest)
  | .block path inner :: rest => exact .block path (refl inner) (.refl _) (refl rest)

theorem SameDeclarations.cons {items others : List Item} (item : Item)
    (h : SameDeclarations items others) : SameDeclarations (item :: items) (item :: others) := by
  cases item with
  | importing path => exact .left path (.right path h)
  | type declaration => exact .type declaration h
  | extension declaration => exact .extension declaration h
  | block path inner => exact .block path (.refl inner) (.refl _) h

/-- `SameDeclarations` of lists with the same items but for the using directives directly among
them. -/
theorem SameDeclarations.of_filter_eq {items others : List Item}
    (h : items.filter (·.ofUsing? = none) = others.filter (·.ofUsing? = none)) :
    SameDeclarations items others := by
  -- Using directives are passed over on either side until the next two other items meet.
  induction items generalizing others with
  | nil =>
    induction others with
    | nil => exact .nil
    | cons other others ih =>
      cases hother : other.ofUsing? with
      | none => simp [hother] at h
      | some path =>
        rw [eq_importing_of_ofUsing? hother]
        exact .right path (ih (by simpa [hother] using h))
  | cons item items ih =>
    cases hitem : item.ofUsing? with
    | some path =>
      rw [eq_importing_of_ofUsing? hitem]
      exact .left path (ih (by simpa [hitem] using h))
    | none =>
      induction others with
      | nil => simp [hitem] at h
      | cons other others ihOthers =>
        cases hother : other.ofUsing? with
        | some path =>
          rw [eq_importing_of_ofUsing? hother]
          exact .right path (ihOthers (by simpa [hother] using h))
        | none =>
          obtain ⟨rfl, hrest⟩ : item = other ∧ items.filter (·.ofUsing? = none) =
              others.filter (·.ofUsing? = none) := by simpa [hitem, hother] using h
          exact (ih hrest).cons item

/-- `SameUsings` where using directives that stand directly among some items are moved, and written
again. -/
theorem SameUsings.of_filter_eq {items others : List Item}
    (h : items.filter (·.ofUsing? = none) = others.filter (·.ofUsing? = none))
    (husings : SameMembers (items.filterMap ofUsing?) (others.filterMap ofUsing?)) :
    SameUsings items others :=
  ⟨.of_filter_eq h, husings⟩

end Item

theorem SourceFile.SameUsings.refl (file : SourceFile) : file.SameUsings file :=
  ⟨rfl, .refl file.items, .refl _⟩

/-! ## Outlines -/

/-- The same scope, with the same set of using directives (`SameMembers`). -/
structure OutlineScope.SameUsings (scope other : OutlineScope) : Prop where
  parent_eq : scope.parent = other.parent
  path_eq : scope.path = other.path
  usings : SameMembers scope.usings other.usings

/-- The same outline, with the same set of using directives in each scope
(`OutlineScope.SameUsings`). -/
structure Outline.SameUsings (outline other : Outline) : Prop where
  file_eq : outline.file = other.file
  scopes : List.Forall₂ OutlineScope.SameUsings outline.scopes other.scopes
  types_eq : outline.types = other.types
  extensions_eq : outline.extensions = other.extensions

namespace Outline

namespace SameUsings

variable {outline other : Outline} (h : outline.SameUsings other)

include h

theorem length_scopes : outline.scopes.length = other.scopes.length := h.scopes.length_eq

theorem openScope (parent : Option Nat) (path : NamespacePath) {items others : List Item}
    (husings : SameMembers (items.filterMap Item.ofUsing?) (others.filterMap Item.ofUsing?)) :
    (outline.openScope parent path items).SameUsings (other.openScope parent path others) :=
  ⟨h.file_eq, List.rel_append h.scopes (.cons ⟨rfl, rfl, husings⟩ .nil), h.types_eq,
    h.extensions_eq⟩

theorem addType (scope : Nat) (path : NamespacePath) (declaration : TypeDeclaration) :
    (outline.addType scope path declaration).SameUsings
      (other.addType scope path declaration) :=
  ⟨h.file_eq, h.scopes, congrArg (· ++ _) h.types_eq, h.extensions_eq⟩

theorem addExtension (scope : Nat) (path : NamespacePath) (declaration : ExtensionDeclaration) :
    (outline.addExtension scope path declaration).SameUsings
      (other.addExtension scope path declaration) := by
  refine ⟨h.file_eq, h.scopes, h.types_eq, ?_⟩
  rw [Outline.addExtension, Outline.addExtension, h.file_eq, h.extensions_eq]

end SameUsings

theorem addItems_importing (outline : Outline) (scope : Nat) (path imported : NamespacePath)
    (items : List Item) :
    outline.addItems scope path (.importing imported :: items) =
      outline.addItems scope path items := by
  rw [addItems, addItem]

/-- `addItems` adds the same for `SameDeclarations`: using directives that are left out or put in at
one place do not matter. -/
theorem SameUsings.addItems {items others : List Item} (hitems : Item.SameDeclarations items others)
    {outline other : Outline} (h : outline.SameUsings other) (scope : Nat)
    (path : NamespacePath) :
    (outline.addItems scope path items).SameUsings (other.addItems scope path others) := by
  -- The induction goes through the blocks, whose using directives are read when they are opened.
  induction hitems generalizing outline other scope path with
  | nil =>
    rw [Outline.addItems, Outline.addItems]
    exact h
  | left _ _ ih =>
    rw [addItems_importing]
    exact ih h scope path
  | right _ _ ih =>
    rw [addItems_importing]
    exact ih h scope path
  | type declaration _ ih =>
    rw [Outline.addItems, Outline.addItems, Outline.addItem, Outline.addItem]
    exact ih (h.addType scope path declaration) scope path
  | extension declaration _ ih =>
    rw [Outline.addItems, Outline.addItems, Outline.addItem, Outline.addItem]
    exact ih (h.addExtension scope path declaration) scope path
  | block inner _ husings _ ihInner ih =>
    rw [Outline.addItems, Outline.addItems, Outline.addItem, Outline.addItem, h.length_scopes]
    exact ih (ihInner (h.openScope (some scope) (path ++ inner) husings) _ _) scope path

/-- `Outline.ofFile` of files with `SameUsings` is the same but for these. -/
theorem sameUsings_ofFile {file other : SourceFile} (h : file.SameUsings other) :
    (ofFile file).SameUsings (ofFile other) := by
  rw [ofFile, ofFile, h.id_eq]
  have hempty : (Outline.mk other.id [] [] []).SameUsings (Outline.mk other.id [] [] []) :=
    ⟨rfl, .nil, rfl, rfl⟩
  exact .addItems h.items.declarations (hempty.openScope none [] h.items.usings) 0 []

end Outline

end ExtensionMembers
