import ExtensionMembers.Proofs.Build.Phases
import ExtensionMembers.Proofs.Build.Storage
import ExtensionMembers.Proofs.Name.Reading

/-!
# Types asked for by name

A built compilation is asked for the hash of a type by a text. The text is read as a qualified name
and the hash of that name is looked up, so a registered type answers to its own text if its name is
read back from it.

## Main definitions

* `Compilation.OfItsFiles`: a compilation has the registry of its files, if it has one.

## Main results

* `Compilation.ofItsFiles_after`: so does every compilation, whatever is called.
* `Compilation.names_read_back`: names read from texts, and the types that answer to their texts.
-/

namespace ExtensionMembers

namespace Compilation

/-- If the compilation is built, its registry is the one that `assemble` makes of its files. -/
def OfItsFiles (compilation : Compilation) : Prop :=
  ∀ registry, compilation.registry = some registry →
    registry = (assemble compilation.files compilation.options).registry

variable {compilation : Compilation}

/-- `perform` keeps `OfItsFiles`: files are added before the build, and the build makes the
registry. -/
theorem OfItsFiles.perform (h : compilation.OfItsFiles) (call : Call) :
    (compilation.perform call).2.OfItsFiles := by
  rcases perform_cases compilation call with ⟨file, _, hopen, _, hperform⟩ |
    ⟨_, _, hperform⟩ | ⟨hsame, _⟩
  · -- There is no registry yet, and the file does not make one.
    rw [hperform]
    intro registry hregistry
    rw [isBuilt, show compilation.registry = some registry from hregistry] at hopen
    cases hopen
  · rw [hperform]
    exact fun registry hregistry => (Option.some.inj hregistry).symm
  · rwa [hsame]

/-- Whatever is called (`after`), the registry is that of the files. -/
theorem ofItsFiles_after (h : compilation.OfItsFiles) (calls : List Call) :
    (compilation.after calls).OfItsFiles := by
  induction calls generalizing compilation with
  | nil => exact h
  | cons call rest ih => exact ih (h.perform call)

/-- A type of a built compilation is registered under its own `NamedType.hash`. -/
theorem hash_of_type? {options : Options} {calls : List Call} {registry : Registry}
    (hregistry : ((empty options).after calls).registry = some registry) {hash : TypeHash}
    {type : NamedType} (htype : registry.type? hash = some type) : type.hash = hash := by
  have hempty : ((empty options).files.map (·.id)).Nodup := List.nodup_nil
  have hids := nodup_after hempty calls
  have hfiles : (empty options).OfItsFiles := fun _ hnone => by cases hnone
  rw [ofItsFiles_after hfiles calls registry hregistry] at htype
  exact ((Registry.holds_assemble hids _).heading_mem htype).2

/-- `Compilation.typeHash` answers the text of a registered name that `QualifiedName.parse` reads
back. -/
theorem typeHash_text {registry : Registry} (hregistry : compilation.registry = some registry)
    {name : QualifiedName} (hread : QualifiedName.parse name.text = name)
    (hin : registry.containsType name.hash = true) :
    compilation.typeHash name.text = .ok name.hash := by
  have hbuilt : compilation.built = .ok registry := by rw [built, hregistry]
  rw [typeHash, hbuilt, hread]
  show (if registry.containsType name.hash = true then _ else _) = _
  rw [if_pos hin]

/-- Reading the text of a name that was read gives the same name (`QualifiedName.parse`). A name is
read back from its text exactly if it is well formed (`WellFormed`) or the empty global name. In a
built compilation `typeHash` answers the text of every registered type with such a name with the
hash of the type. -/
theorem names_read_back :
    (∀ text, QualifiedName.parse (QualifiedName.parse text).text = QualifiedName.parse text) ∧
    (∀ name, QualifiedName.parse name.text = name ↔
      name = .global "" ∨ name.WellFormed) ∧
    ∀ options calls registry, ((empty options).after calls).registry = some registry →
      ∀ hash type, registry.type? hash = some type →
        type.name = .global "" ∨ type.name.WellFormed →
        type.hash = hash ∧ ((empty options).after calls).typeHash type.name.text = .ok hash := by
  refine ⟨QualifiedName.parse_text_parse, fun name => QualifiedName.parse_text_iff,
    fun options calls registry hregistry hash type htype hname => ?_⟩
  obtain rfl := hash_of_type? hregistry htype
  refine ⟨rfl, typeHash_text hregistry (QualifiedName.parse_text_iff.2 hname) ?_⟩
  exact Option.isSome_of_eq_some htype

/-- A class whose name starts with a colon, within a namespace, and an extension whose name ends
with one. -/
def colonFile : SourceFile :=
  ⟨⟨0⟩, "colons", [.block ["A"] [.type ⟨.plainClass, ":B", none, [], .unplaced⟩],
    .extension ⟨"C:", some (.parse "A:::B"), [], [], .unplaced⟩]⟩

/-- The class of `colonFile` answers to a text with three colons in a row. -/
theorem names_read_back_colons :
    let state := (empty .standard).after [.addFile colonFile, .build]
    let registry := (assemble [colonFile] .standard).registry
    let name : QualifiedName := ⟨["A"], ":B"⟩
    state.registry = some registry ∧ (registry.type? name.hash).map (·.name) = some name ∧
      name.WellFormed ∧ name.text = "A:::B" ∧
      state.typeHash "A:::B" = .ok name.hash := by
  intro state registry name
  have hregistry : state.registry = some registry := rfl
  have hnamed : (registry.type? name.hash).map (·.name) = some name := by decide +kernel
  have hformed : name.WellFormed := ⟨by decide, by decide⟩
  have htext : name.text = "A:::B" := by decide +kernel
  obtain ⟨type, htype, hname⟩ := Option.map_eq_some_iff.1 hnamed
  obtain ⟨-, hhash⟩ := names_read_back.2.2 .standard [.addFile colonFile, .build] registry
    hregistry name.hash type htype (.inr (hname ▸ hformed))
  rw [hname, htext] at hhash
  exact ⟨hregistry, hnamed, hformed, htext, hhash⟩

end Compilation

end ExtensionMembers
