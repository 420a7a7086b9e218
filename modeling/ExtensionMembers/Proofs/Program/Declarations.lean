import ExtensionMembers.Proofs.Program.Outline

/-!
# The declarations in a text

What a file declares can be read off its text block by block, each declaration with the qualified
name that the blocks around it give it. The outline of the file lists the same declarations, first
the types and then the extensions, both in the order of the text.

## Main definitions

* `Written`: a declaration with its qualified name.
* `Item.written`, `SourceFile.written`: the declarations in an item and in a file, in the order of
  the text.
* `SourceFile.typesFirst`: those in a file, the types before the extensions.

## Main results

* `Outline.written_ofFile`: the outline of a file lists the declarations in it.
-/

namespace ExtensionMembers

/-- A `TypeDeclaration` or an `ExtensionDeclaration` with its qualified name. -/
inductive Written where
  /-- A type. -/
  | type (name : QualifiedName) (declaration : TypeDeclaration)
  /-- An extension. -/
  | extension (name : QualifiedName) (declaration : ExtensionDeclaration)
deriving DecidableEq

/-- Whether a type is declared. -/
def Written.isType : Written → Bool
  | type .. => true
  | extension .. => false

mutual

/-- The declarations in an item of the namespace `path`, at any depth. -/
def Item.written (path : NamespacePath) : Item → List Written
  | .block inner items => Item.allWritten (path ++ inner) items
  | .importing _ => []
  | .type declaration => [.type ⟨path, declaration.name⟩ declaration]
  | .extension declaration => [.extension ⟨path, declaration.name⟩ declaration]

/-- The declarations (`Item.written`) in some items of the namespace `path`. -/
def Item.allWritten (path : NamespacePath) : List Item → List Written
  | [] => []
  | item :: rest => item.written path ++ Item.allWritten path rest

end

namespace SourceFile

/-- The declarations in a file, at any depth (`Item.allWritten`). -/
def written (file : SourceFile) : List Written := Item.allWritten [] file.items

/-- The declarations in a file (`written`), the types before the extensions. -/
def typesFirst (file : SourceFile) : List Written :=
  file.written.filter (·.isType) ++ file.written.filter (!·.isType)

/-- `typesFirst` loses nothing. -/
theorem typesFirst_perm (file : SourceFile) : file.typesFirst.Perm file.written :=
  List.filter_append_perm _ file.written

end SourceFile

namespace Outline

/-- The types that an outline lists, each as it is `Written`. -/
def writtenTypes (outline : Outline) : List Written :=
  outline.types.map fun type => .type type.name type.declaration

/-- The extensions that an outline lists, each as it is `Written`. -/
def writtenExtensions (outline : Outline) : List Written :=
  outline.extensions.map fun extension => .extension extension.name extension.declaration

/-- The outline `later` lists the declarations `written` more than `outline`. -/
structure Lists (later outline : Outline) (written : List Written) : Prop where
  types_eq : later.writtenTypes = outline.writtenTypes ++ written.filter (·.isType)
  extensions_eq : later.writtenExtensions =
    outline.writtenExtensions ++ written.filter (!·.isType)

theorem Lists.refl (outline : Outline) : outline.Lists outline [] := by
  constructor <;> simp

theorem Lists.trans {last later outline : Outline} {written more : List Written}
    (h : later.Lists outline written) (hmore : last.Lists later more) :
    last.Lists outline (written ++ more) := by
  constructor
  · rw [hmore.types_eq, h.types_eq, List.filter_append, List.append_assoc]
  · rw [hmore.extensions_eq, h.extensions_eq, List.filter_append, List.append_assoc]

/-! The outline grows with each item, and a block adds what its items add with their longer path. -/

mutual

theorem lists_addItem (outline : Outline) (scope : Nat) (path : NamespacePath) :
    (item : Item) → (outline.addItem scope path item).Lists outline (item.written path)
  | .block inner items => by
    rw [addItem, Item.written]
    -- A scope that is opened declares nothing by itself.
    have hopened : (outline.openScope (some scope) (path ++ inner) items).Lists outline [] := by
      constructor <;> simp [openScope, writtenTypes, writtenExtensions]
    exact hopened.trans (lists_addItems _ _ _ items)
  | .importing _ => by
    rw [addItem, Item.written]
    exact .refl outline
  | .type declaration => by
    rw [addItem, Item.written]
    constructor <;> simp [addType, writtenTypes, writtenExtensions, Written.isType]
  | .extension declaration => by
    rw [addItem, Item.written]
    constructor <;> simp [addExtension, writtenTypes, writtenExtensions, Written.isType]

theorem lists_addItems (outline : Outline) (scope : Nat) (path : NamespacePath) :
    (items : List Item) →
      (outline.addItems scope path items).Lists outline (Item.allWritten path items)
  | [] => by
    rw [addItems, Item.allWritten]
    exact .refl outline
  | item :: rest => by
    rw [addItems, Item.allWritten]
    exact (lists_addItem outline scope path item).trans (lists_addItems _ scope path rest)

end

/-- `Outline.ofFile` lists the declarations in the file, types and extensions apart
(`typesFirst`). -/
theorem written_ofFile (file : SourceFile) :
    (ofFile file).writtenTypes ++ (ofFile file).writtenExtensions = file.typesFirst := by
  have hlists := lists_addItems ((Outline.mk file.id [] [] []).openScope none [] file.items) 0 []
    file.items
  rw [ofFile, hlists.types_eq, hlists.extensions_eq]
  rfl

end Outline

end ExtensionMembers
