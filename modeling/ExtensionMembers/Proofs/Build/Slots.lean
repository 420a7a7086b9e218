import ExtensionMembers.Proofs.Build.References
import ExtensionMembers.Proofs.Collection.Traversal
import ExtensionMembers.Proofs.Lookup.Slots
import ExtensionMembers.Proofs.Program.Walk

/-!
# Slots in a registry in the making

Extensions are read from their slots before the registry is finished: `Assembly.completeExtension`
looks an extension up for the scope in which its signature is resolved, and looks it up again, with
its signature, to judge it. The table of slots is written while the extensions are declared. From
then on identities stay as they are, so that the one table serves every later step of the build.

## Main definitions

* `Registry.SlotsInRange`: a table of slots is that of a registry, and every read of it is in range.
* `Assembly.completeExtensionAt?`: `Assembly.completeExtension` with extensions read from slots.
* `assembleAt?`: `assemble` by positions, both in the walks over the files and in the slots.

## Main results

* `Registry.Slotted.completeExtension`: completing an extension writes no slot.
* `Registry.Slotted.completeExtensionAt?_eq_some`: it stays in range.
* `assembleAt?_eq_some`: the whole build stays in range.
-/

namespace ExtensionMembers

namespace Registry

/-- `slots` is the table kept beside `registry`, and `extensionAt?` is in range for every identity:
what it reads is `extension?`. -/
def SlotsInRange (registry : Registry) (slots : Table ExtensionId Nat) : Prop :=
  registry.Slotted slots ∧
    ∀ id, registry.extensionAt? slots id = some (registry.extension? id)

theorem Slotted.slotsInRange {registry : Registry} {slots : Table ExtensionId Nat}
    (h : registry.Slotted slots) : registry.SlotsInRange slots :=
  ⟨h, h.extensionAt?_eq_some⟩

end Registry

/-! ## The build by positions -/

namespace Assembly

/-- `completeExtension` with the extension read from its slot, and read again when it is signed;
none if a slot is out of range. -/
def completeExtensionAt? (slots : Table ExtensionId Nat) (assembly : Assembly)
    (pending : PendingExtension) : Option Assembly := do
  match ← assembly.registry.extensionAt? slots pending.id with
  | none => return assembly
  | some extension =>
    let signed := signExtension assembly.registry pending.declaration extension
    let registry := assembly.registry.modifyExtension pending.id fun _ => signed
    match ← registry.extensionAt? slots pending.id with
    | none => return { assembly with registry }
    | some judged =>
      return { assembly with registry }.judgeExtension pending.id (registry.extensionFaults judged)

/-- The assembly with the imports of all scopes resolved (`Registry.resolveImports`), the first step
of `complete`. -/
def importing (assembly : Assembly) : Assembly :=
  { assembly with registry := assembly.registry.resolveImports }

/-- `complete` with extensions read from their slots. -/
def completeAt? (slots : Table ExtensionId Nat) (assembly : Assembly) : Option Assembly :=
  let typed := assembly.types.foldl completeType assembly.importing
  typed.extensions.foldlM (completeExtensionAt? slots) typed

end Assembly

/-- `assemble` with the files walked by positions and with extensions read from the slots that their
declaration has written; none if a position is out of range. -/
def assembleAt? (files : List SourceFile) (options : Options) : Option Assembly := do
  let outlines ← files.mapM Outline.walk?
  let sorted := stableSort (fun outline => [outline.file.index]) outlines
  let declared := sorted.foldl Assembly.declareOutline .start
  let completed ← declared.completeAt? declared.registry.slots
  return completed.finish options

/-! ## Slots stay in range -/

namespace Registry.Slotted

variable {assembly : Assembly} {slots : Table ExtensionId Nat} (h : assembly.registry.Slotted slots)

include h

theorem foldl_completeType (pending : List PendingType) :
    (pending.foldl Assembly.completeType assembly).registry.Slotted slots :=
  Assembly.registry_foldl (P := fun registry => registry.Slotted slots)
    (fun _ pending h => .modifyType pending.hash _ h) pending h

/-- `completeExtension` writes no slot. -/
theorem completeExtension (pending : PendingExtension) :
    (assembly.completeExtension pending).registry.Slotted slots :=
  Assembly.registry_completeExtension (P := fun registry => registry.Slotted slots)
    (fun _ id _ h hkeeps => .modifyExtension id _ h hkeeps) h pending

theorem foldl_completeExtension (pending : List PendingExtension) :
    (pending.foldl Assembly.completeExtension assembly).registry.Slotted slots :=
  Assembly.registry_foldl (P := fun registry => registry.Slotted slots)
    (fun _ pending h => completeExtension h pending) pending h

/-- Both reads of `completeExtensionAt?` are in range, and the second one gives the signed
extension. -/
theorem completeExtensionAt?_eq_some (pending : PendingExtension) :
    assembly.completeExtensionAt? slots pending = some (assembly.completeExtension pending) := by
  unfold Assembly.completeExtensionAt? Assembly.completeExtension
  rw [h.extensionAt?_eq_some, Option.bind_eq_bind, Option.bind_some]
  cases hfound : assembly.registry.extension? pending.id with
  | none => rfl
  | some extension =>
    have hid : extension.id = pending.id := id_of_extension? hfound
    let signed := Assembly.signExtension assembly.registry pending.declaration extension
    have hkeeps : ∀ other : Extension, other.id = pending.id → signed.id = pending.id :=
      fun _ _ => hid
    have hread : (assembly.registry.modifyExtension pending.id fun _ => signed).extensionAt? slots
        pending.id = some (some signed) := by
      rw [(h.modifyExtension pending.id _ hkeeps).extensionAt?_eq_some,
        extension?_modifyExtension _ hkeeps, hfound]
      rfl
    dsimp only
    rw [hread]
    rfl

/-- `completeAt?` stays in range on a program that is declared. -/
theorem completeAt?_eq_some : assembly.completeAt? slots = some assembly.complete := by
  have himported : assembly.importing.registry.Slotted slots := .changeScopes _ h
  exact foldlM_eq_some_foldl (P := fun stage : Assembly => stage.registry.Slotted slots)
    (fun _ pending h => completeExtensionAt?_eq_some h pending)
    (fun _ pending h => completeExtension h pending) _ (foldl_completeType himported _)

end Registry.Slotted

/-- `Slotted` holds of the table of slots that `declareFiles` has written. -/
theorem Registry.slotted_declareFiles (files : List SourceFile) :
    (Assembly.declareFiles files).registry.Slotted (Assembly.declareFiles files).registry.slots :=
  (reachable_declareFiles files).slotted

/-- `Slotted` holds, with the slots that the declarations have written, while some of the extensions
are completed. -/
theorem Registry.slotted_completing (files : List SourceFile) (pending : List PendingExtension) :
    (pending.foldl Assembly.completeExtension (Assembly.completedTypes files)).registry.Slotted
      (Assembly.declareFiles files).registry.slots := by
  have himported : (Assembly.declareFiles files).importing.registry.Slotted
      (Assembly.declareFiles files).registry.slots :=
    .changeScopes _ (slotted_declareFiles files)
  exact (himported.foldl_completeType (Assembly.declareFiles files).types).foldl_completeExtension
    pending

/-- `assemble` writes no slot after the declarations. -/
theorem Registry.slots_assemble (files : List SourceFile) (options : Options) :
    (assemble files options).registry.slots = (Assembly.declareFiles files).registry.slots := by
  have hcomplete := slotted_completing files (Assembly.completedTypes files).extensions
  rw [← Assembly.complete_eq_foldl] at hcomplete
  exact (Slotted.reindex hcomplete).eq_slots.symm

/-- `assembleAt?` stays in range, and gives the registry and report of `assemble`. -/
theorem assembleAt?_eq_some (files : List SourceFile) (options : Options) :
    assembleAt? files options = some (assemble files options) := by
  have hwalks : files.mapM Outline.walk? = some (files.map .ofFile) :=
    mapM_eq_some_map fun file _ => Outline.walk?_eq_some file
  rw [assembleAt?, hwalks, Option.bind_eq_bind, Option.bind_some]
  dsimp only
  rw [← Assembly.declareFiles, (Registry.slotted_declareFiles files).completeAt?_eq_some]
  rfl

end ExtensionMembers
