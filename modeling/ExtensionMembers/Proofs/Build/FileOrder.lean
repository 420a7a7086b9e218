import ExtensionMembers.Proofs.Build.Declaration
import ExtensionMembers.Proofs.Call.Legality

/-!
# The order in which files are given

Files with distinct numbers are assembled in the order of their numbers. So it does not matter in
which order they are given: the registry is the same to its last number, and so is all that is
noted, before it is sorted. Two compilations to which the same files are added in different orders
then answer every question alike.

## Main definitions

* `Compilation.SameAnswers`: two compilations that no question tells apart.

## Main results

* `assemble_perm`: the same files in another order make the same registry.
* `Compilation.sameAnswers_of_perm`: the same files may be added in any order.
-/

namespace ExtensionMembers

variable {files others : List SourceFile}

/-- Files with distinct numbers have the same `outlinesOf` in any order. -/
theorem outlinesOf_perm (hperm : files.Perm others) (hids : (files.map (·.id)).Nodup) :
    outlinesOf files = outlinesOf others := by
  refine stableSort_eq_of_perm _ (hperm.map Outline.ofFile) ?_
  have hkeys : ((files.map Outline.ofFile).map fun outline => [outline.file.index]) =
      (files.map (·.id)).map fun file => [file.index] := by
    simp [Function.comp_def, Outline.file_ofFile]
  rw [hkeys]
  refine hids.map fun file another heq => ?_
  rw [FileId.mk.injEq]
  simpa using heq

/-- `assemble` makes one registry of files with distinct numbers, with the same notes in the same
order, in whatever order they are given. -/
theorem assemble_perm (hperm : files.Perm others) (hids : (files.map (·.id)).Nodup)
    (options : Options) : assemble files options = assemble others options := by
  have hdeclared : Assembly.declareFiles files = Assembly.declareFiles others :=
    congrArg (List.foldl Assembly.declareOutline .start) (outlinesOf_perm hperm hids)
  rw [assemble, assemble, hdeclared]

namespace Compilation

/-- No question to two compilations (`scope`, `typeHash`, `resolve`, `resolveProtocols`) has
different answers. -/
structure SameAnswers (compilation other : Compilation) : Prop where
  report : compilation.report = other.report
  scope : ∀ file path, compilation.scope file path = other.scope file path
  typeHash : ∀ name, compilation.typeHash name = other.typeHash name
  resolve : ∀ sites, compilation.resolve sites = other.resolve sites
  resolveProtocols : ∀ sites,
    compilation.resolveProtocols sites = other.resolveProtocols sites

/-- `SameAnswers` rests on the options, the registry and the report; the files are not asked for
once a compilation is built. -/
theorem SameAnswers.of_registry {compilation other : Compilation}
    (hoptions : compilation.options = other.options)
    (hregistry : compilation.registry = other.registry)
    (hreport : compilation.report = other.report) : compilation.SameAnswers other := by
  have hbuilt : compilation.built = other.built := by rw [built, built, hregistry]
  have harrange : compilation.arrange = other.arrange := by
    funext report
    rw [arrange, arrange, hoptions]
  constructor
  · exact hreport
  · intro file path
    rw [Compilation.scope, Compilation.scope, hbuilt]
  · intro name
    rw [Compilation.typeHash, Compilation.typeHash, hbuilt]
  · intro sites
    rw [Compilation.resolve, Compilation.resolve, hbuilt, harrange]
  · intro sites
    rw [Compilation.resolveProtocols, Compilation.resolveProtocols, hbuilt, harrange]

/-- The order in which files with distinct numbers are added to a compilation does not matter.
`assemble` makes the same registry of them, and the same notes in the same order before these are
sorted, and once the compilation is built no question tells it from one with the files in another
order (`SameAnswers`). -/
theorem sameAnswers_of_perm (hperm : files.Perm others) (hids : (files.map (·.id)).Nodup)
    (options : Options) :
    assemble files options = assemble others options ∧
      ∃ compilation other, ofFiles files options = .ok compilation ∧
        ofFiles others options = .ok other ∧ compilation.SameAnswers other := by
  have hassemble := assemble_perm hperm hids options
  have hothers := (hperm.map (·.id)).nodup_iff.1 hids
  refine ⟨hassemble, _, _, ofFiles_eq hids options, ofFiles_eq hothers options, ?_⟩
  exact .of_registry rfl (by rw [hassemble]) (by rw [hassemble])

/-- An extension of shelves that finds them by an import, with one method. -/
def importedExtension (name : String) : List Item :=
  [.importing ["Shop"],
    .extension ⟨name, some (.parse "Shelf"), [],
      [{ (default : WrittenMember) with name := "Push" }], .unplaced⟩]

/-- The class of shelves in its namespace. -/
def shelfBlock : Item := .block ["Shop"] [.type ⟨.plainClass, "Shelf", none, [], .unplaced⟩]

/-- The first file extends a class that the second declares, and so does the third, which declares
the class again. -/
def shopFiles : List SourceFile :=
  [⟨⟨0⟩, "front", importedExtension "FrontTools"⟩, ⟨⟨1⟩, "shelf", [shelfBlock]⟩,
    ⟨⟨2⟩, "back", shelfBlock :: importedExtension "BackTools"⟩]

/-- The call of `Push` on a value of the class, in the first of `shopFiles`. -/
def pushCall : AccessSite where
  id := ⟨0⟩
  span := .unplaced
  scope := ⟨0⟩
  access := .onValue ⟨1⟩ (QualifiedName.mk ["Shop"] "Shelf").hash
  member := "Push"
  shape := .invoke []

/-- Given from the last to the first, `shopFiles` leave one duplicate and one ambiguous call, as
they do in the other order. -/
theorem sameAnswers_of_perm_reversed :
    let registry := (assemble shopFiles .standard).registry
    shopFiles.Perm shopFiles.reverse ∧ (shopFiles.map (·.id)).Nodup ∧
      (assemble shopFiles.reverse .standard).report.entries.map (·.kind) =
        [.duplicateDeclaration] ∧
      registry.lookupFault? (.ofSite pushCall) .unplaced
          (registry.resolve (.ofSite pushCall) (registry.chain ⟨0⟩)) =
        some ⟨.unplaced, .ambiguous "Push" [.global "FrontTools", .global "BackTools"]⟩ ∧
      assemble shopFiles .standard = assemble shopFiles.reverse .standard ∧
      ∃ compilation other, ofFiles shopFiles .standard = .ok compilation ∧
        ofFiles shopFiles.reverse .standard = .ok other ∧ compilation.SameAnswers other := by
  intro registry
  have hperm : shopFiles.Perm shopFiles.reverse := (List.reverse_perm shopFiles).symm
  have hids : (shopFiles.map (·.id)).Nodup := by decide
  exact ⟨hperm, hids, by decide +kernel, by decide +kernel,
    sameAnswers_of_perm hperm hids .standard⟩

end Compilation

end ExtensionMembers
