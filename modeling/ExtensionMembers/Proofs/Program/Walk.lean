import ExtensionMembers.Proofs.Program.Outline

/-!
# The walk over a file

The outline of a file can also be made by a walk that knows a scope by its position alone: whatever
it meets, it looks the scope up among those opened so far, takes the path from there, and writes a
using directive into it. Such a walk fails if a position is out of range. It never is: a position is
handed down from where the scope was opened, and scopes are only ever added at the end.

## Main definitions

* `Outline.addUsings`: an outline with more using directives in one scope.
* `Outline.walkItem?`, `Outline.walkItems?`, `Outline.walk?`: the walk with positions.

## Main results

* `Outline.addItem_addUsings`: what an item declares does not depend on using directives.
* `Outline.walk?_eq_some`: the walk stays in range and makes the outline of the file.
-/

namespace ExtensionMembers

namespace Outline

/-- The outline with more using directives in the scope at position `scope`. -/
def addUsings (outline : Outline) (scope : Nat) (usings : List NamespacePath) : Outline :=
  { outline with scopes := outline.scopes.modify scope fun around =>
      { around with usings := around.usings ++ usings } }

mutual

/-- `addItem` with the scope looked up by its position, as the engine's walk does; none if the
position is out of range. -/
def walkItem? (scope : Nat) (outline : Outline) : Item → Option Outline
  | .block inner items => do
    let around ← outline.scopes[scope]?
    let opened := outline.openScope (some scope) (around.path ++ inner) []
    opened.walkItems? outline.scopes.length items
  | .importing path => do
    let around ← outline.scopes[scope]?
    return { outline with
      scopes := outline.scopes.set scope { around with usings := around.usings ++ [path] } }
  | .type declaration => do
    let around ← outline.scopes[scope]?
    return outline.addType scope around.path declaration
  | .extension declaration => do
    let around ← outline.scopes[scope]?
    return outline.addExtension scope around.path declaration

/-- `addItems` by `walkItem?`, the scope looked up by its position for each of the items. -/
def walkItems? (scope : Nat) (outline : Outline) : List Item → Option Outline
  | [] => some outline
  | item :: rest => do
    let next ← outline.walkItem? scope item
    next.walkItems? scope rest

end

/-- The outline of a file, made by the walk (`walkItems?`). -/
def walk? (file : SourceFile) : Option Outline :=
  ((Outline.mk file.id [] [] []).openScope none [] []).walkItems? 0 file.items

/-! ## Using directives -/

/-- `addUsings` changes nothing if there are no using directives. -/
theorem addUsings_nil (outline : Outline) (scope : Nat) : outline.addUsings scope [] = outline := by
  have hsame : (fun around : OutlineScope =>
      { around with usings := around.usings ++ [] }) = id := by
    funext around
    simp
  rw [addUsings, hsame, List.modify_id]

/-- `addUsings` of one list after the other. -/
theorem addUsings_addUsings (outline : Outline) (scope : Nat) (usings more : List NamespacePath) :
    (outline.addUsings scope usings).addUsings scope more =
      outline.addUsings scope (usings ++ more) := by
  simp only [addUsings, List.modify_modify_eq, Outline.mk.injEq, true_and, and_true]
  congr 1
  funext around
  simp [Function.comp]

theorem length_scopes_addUsings (outline : Outline) (scope : Nat) (usings : List NamespacePath) :
    (outline.addUsings scope usings).scopes.length = outline.scopes.length :=
  List.length_modify _ _ _

/-- `addUsings` leaves the paths of scopes as they are. -/
theorem map_path_addUsings (outline : Outline) (scope : Nat) (usings : List NamespacePath)
    (index : Nat) : ((outline.addUsings scope usings).scopes[index]?).map (·.path) =
      (outline.scopes[index]?).map (·.path) := by
  rw [addUsings, List.getElem?_modify, Option.map_eq_map, Option.map_map]
  congr 1
  funext around
  by_cases h : scope = index <;> simp [h]

/-- A change of an item of the first of two lists leaves the second one alone. -/
theorem modify_append_of_lt {α : Type} (change : α → α) {list : List α} (rest : List α)
    {index : Nat} (h : index < list.length) :
    (list ++ rest).modify index change = list.modify index change ++ rest := by
  induction list generalizing index with
  | nil => cases h
  | cons first list ih =>
    cases index with
    | zero => rfl
    | succ index =>
      rw [List.cons_append, List.modify_succ_cons, List.modify_succ_cons, List.cons_append,
        ih (Nat.lt_of_succ_lt_succ h)]

/-- `openScope` may come before or after `addUsings` to another scope. -/
theorem openScope_addUsings {outline : Outline} {scope : Nat} (h : scope < outline.scopes.length)
    (usings : List NamespacePath) (parent : Option Nat) (path : NamespacePath)
    (items : List Item) :
    (outline.addUsings scope usings).openScope parent path items =
      (outline.openScope parent path items).addUsings scope usings := by
  rw [addUsings, openScope, openScope, addUsings, modify_append_of_lt _ _ h]

/-- The element after all others is changed in place. -/
theorem modify_concat_length (scopes : List OutlineScope) (last : OutlineScope)
    (change : OutlineScope → OutlineScope) :
    (scopes ++ [last]).modify scopes.length change = scopes ++ [change last] := by
  induction scopes with
  | nil => rfl
  | cons first rest ih =>
    rw [List.cons_append, List.length_cons, List.modify_succ_cons, ih, List.cons_append]

/-- `openScope` without using directives, and `addUsings` afterwards, is `openScope` with them. -/
theorem addUsings_openScope (outline : Outline) (parent : Option Nat) (path : NamespacePath)
    (items : List Item) :
    (outline.openScope parent path []).addUsings outline.scopes.length
      (items.filterMap Item.ofUsing?) = outline.openScope parent path items := by
  rw [openScope, addUsings, modify_concat_length, openScope]
  rfl

/-! ## What items declare -/

mutual

/-- `addItem` does not depend on the using directives of the scopes before it. -/
theorem addItem_addUsings {outline : Outline} {target : Nat}
    (h : target < outline.scopes.length) (usings : List NamespacePath) (scope : Nat)
    (path : NamespacePath) :
    (item : Item) → (outline.addUsings target usings).addItem scope path item =
      (outline.addItem scope path item).addUsings target usings
  | .block inner items => by
    have hopen : target < (outline.openScope (some scope) (path ++ inner) items).scopes.length := by
      rw [openScope, List.length_append]
      omega
    rw [addItem, addItem, openScope_addUsings h, length_scopes_addUsings,
      addItems_addUsings hopen usings _ _ items]
  | .importing _ => by
    rw [addItem, addItem]
  | .type _ => by
    rw [addItem, addItem]
    rfl
  | .extension _ => by
    rw [addItem, addItem]
    rfl

theorem addItems_addUsings {outline : Outline} {target : Nat}
    (h : target < outline.scopes.length) (usings : List NamespacePath) (scope : Nat)
    (path : NamespacePath) :
    (items : List Item) → (outline.addUsings target usings).addItems scope path items =
      (outline.addItems scope path items).addUsings target usings
  | [] => by
    rw [addItems, addItems]
  | item :: rest => by
    have hnext := Nat.lt_of_lt_of_le h (scopes_addItem scope path outline item).length_le
    rw [addItems, addItems, addItem_addUsings h usings scope path item,
      addItems_addUsings hnext usings scope path rest]

end

/-! ## The walk -/

mutual

/-- `walkItem?`, at the position of a scope with a path, adds what `addItem` does. -/
theorem walkItem?_eq {outline : Outline} {scope : Nat} {path : NamespacePath}
    (h : (outline.scopes[scope]?).map (·.path) = some path) :
    (item : Item) → outline.walkItem? scope item =
      some ((outline.addItem scope path item).addUsings scope item.ofUsing?.toList)
  | .block inner items => by
    obtain ⟨around, haround, rfl⟩ := Option.map_eq_some_iff.1 h
    have hnew : ((outline.openScope (some scope) (around.path ++ inner) []).scopes[
        outline.scopes.length]?).map (·.path) = some (around.path ++ inner) := by
      simp [openScope]
    have hlast : outline.scopes.length <
        (outline.openScope (some scope) (around.path ++ inner) []).scopes.length := by
      simp [openScope]
    -- The walk opens the block without its using directives and meets them one by one inside.
    rw [walkItem?, haround, addItem, ← addUsings_openScope, addItems_addUsings hlast]
    exact (walkItems?_eq hnew items).trans (congrArg some (addUsings_nil _ _).symm)
  | .importing imported => by
    obtain ⟨around, haround, rfl⟩ := Option.map_eq_some_iff.1 h
    rw [walkItem?, haround, addItem, addUsings, List.modify_eq_set, haround]
    rfl
  | .type declaration => by
    obtain ⟨around, haround, rfl⟩ := Option.map_eq_some_iff.1 h
    rw [walkItem?, haround, addItem]
    exact congrArg some (addUsings_nil _ _).symm
  | .extension declaration => by
    obtain ⟨around, haround, rfl⟩ := Option.map_eq_some_iff.1 h
    rw [walkItem?, haround, addItem]
    exact congrArg some (addUsings_nil _ _).symm

theorem walkItems?_eq {outline : Outline} {scope : Nat} {path : NamespacePath}
    (h : (outline.scopes[scope]?).map (·.path) = some path) :
    (items : List Item) → outline.walkItems? scope items =
      some ((outline.addItems scope path items).addUsings scope (items.filterMap Item.ofUsing?))
  | [] => by
    rw [walkItems?, addItems]
    exact congrArg some (addUsings_nil _ _).symm
  | item :: rest => by
    have hlt : scope < outline.scopes.length := by
      obtain ⟨around, haround, _⟩ := Option.map_eq_some_iff.1 h
      exact (List.getElem?_eq_some_iff.1 haround).1
    have hkept := scopes_addItem scope path outline item
    -- The scope is still where it was, and has its path.
    have hnext : (((outline.addItem scope path item).addUsings scope
        item.ofUsing?.toList).scopes[scope]?).map (·.path) = some path := by
      rw [map_path_addUsings]
      exact map_of_earlier hkept h
    have husings : (item :: rest).filterMap Item.ofUsing? =
        item.ofUsing?.toList ++ rest.filterMap Item.ofUsing? := by
      cases hitem : item.ofUsing? with
      | none => rw [List.filterMap_cons_none hitem]; rfl
      | some imported => rw [List.filterMap_cons_some hitem]; rfl
    -- The using directives of the item go past what the rest declares, to join those of the rest.
    rw [walkItems?, walkItem?_eq h item, addItems, husings, ← addUsings_addUsings,
      ← addItems_addUsings (Nat.lt_of_lt_of_le hlt hkept.length_le)]
    exact walkItems?_eq hnext rest

end

/-- `walk?` looks up no scope out of range, and makes `Outline.ofFile`. -/
theorem walk?_eq_some (file : SourceFile) : walk? file = some (ofFile file) := by
  have hroot : (((Outline.mk file.id [] [] []).openScope none [] []).scopes[0]?).map (·.path) =
      some [] := rfl
  have hopened : 0 < ((Outline.mk file.id [] [] []).openScope none [] []).scopes.length :=
    Nat.zero_lt_one
  rw [walk?, walkItems?_eq hroot, ofFile, ← addUsings_openScope]
  exact congrArg some (addItems_addUsings hopened _ _ _ _).symm

end Outline

end ExtensionMembers
