import ExtensionMembers.Proofs.Call.Legality
import ExtensionMembers.Proofs.Collection.Stability

/-!
# Uses handed over in batches

Uses are lowered one by one in a registry that does not change any more, so it does not matter
whether they are handed over at once or in batches. The diagnostics of each batch may be sorted
already when they are put together. Sorting them once more gives what sorting all at once does, also
for diagnostics of one kind at one place, which keep the order of their uses.

## Main definitions

* `Compilation.IgnoresBatches`: a call has the same result for items at once and in batches.

## Main results

* `Compilation.ignoresBatches_of_lower`: a call that lowers its items one by one.
* `Compilation.resolve_batches`: uses of members and of protocols.
-/

namespace ExtensionMembers

namespace Compilation

variable {α β : Type} {compilation : Compilation}

/-- What a call gives for some items, `whole`, is what calls for batches of them give, `outputs`,
put together. The items come out batch by batch. If diagnostics are sorted, those of a batch come
before those of the next where their keys are equal. -/
structure PutsTogether (sorts : Bool) (outputs : List (List β × Report))
    (whole : List β × Report) : Prop where
  items_eq : whole.1 = outputs.flatMap (·.1)
  ascending : sorts = true → ∀ output ∈ outputs, output.2.entries.Pairwise fun earlier later =>
    keyLe earlier.key later.key = true
  sorted_eq : sorts = true → whole.2 = (Report.concat (outputs.map (·.2))).sorted
  stablySorts_iff : sorts = true → ∀ entries,
    StablySorts Diagnostic.key (outputs.flatMap (·.2.entries)) entries ↔ entries = whole.2.entries
  unsorted_eq : sorts = false → whole.2 = Report.concat (outputs.map (·.2))

/-- A call, `run`, never fails, and what it gives for some items can be put together
(`PutsTogether`) from what it gives for batches of them, however the items are split. -/
def IgnoresBatches (compilation : Compilation)
    (run : List α → Except CompilationFault (List β × Report)) : Prop :=
  ∀ batches : List (List α), ∃ outputs whole,
    List.Forall₂ (fun batch output => run batch = .ok output) batches outputs ∧
      run batches.flatten = .ok whole ∧
      PutsTogether compilation.options.sortsDiagnostics outputs whole

/-- `Report.concat` of the reports of all items goes batch by batch. -/
theorem entries_concat_flatten (report : α → Report) (batches : List (List α)) :
    (Report.concat (batches.flatten.map report)).entries =
      batches.flatMap fun batch => (Report.concat (batch.map report)).entries := by
  rw [List.map_flatten, Report.concat, ← List.flatMap_def, List.flatMap_assoc]
  rfl

/-- The diagnostics of all items are sorted (`StablySorts`) as those of batches are that are sorted
already. -/
theorem stablySorts_batches_iff (report : α → Report) (batches : List (List α))
    (entries : List Diagnostic) :
    StablySorts Diagnostic.key
        (batches.flatMap fun batch => (Report.concat (batch.map report)).sorted.entries) entries ↔
      entries = (Report.concat (batches.flatten.map report)).sorted.entries := by
  have hparts : List.Forall₂ (StablySorts Diagnostic.key)
      (batches.map fun batch => (Report.concat (batch.map report)).entries)
      (batches.map fun batch => (Report.concat (batch.map report)).sorted.entries) :=
    List.forall₂_map_left_iff.2 (List.forall₂_map_right_iff.2
      (List.forall₂_same.2 fun _ _ => stablySorts_stableSort _ _))
  rw [List.flatMap_def, stablySorts_flatten_iff hparts, ← List.flatMap_def,
    ← entries_concat_flatten, stablySorts_iff]
  rfl

/-- A call that lowers its items one by one `IgnoresBatches`. -/
theorem ignoresBatches_of_lower {run : List α → Except CompilationFault (List β × Report)}
    (result : α → β) (report : α → Report) (hrun : ∀ items, run items =
      .ok (items.map result, compilation.arrange (.concat (items.map report)))) :
    compilation.IgnoresBatches run := by
  intro batches
  refine ⟨batches.map fun batch =>
      (batch.map result, compilation.arrange (.concat (batch.map report))), _,
    List.forall₂_map_right_iff.2 (List.forall₂_same.2 fun batch _ => hrun batch),
    hrun batches.flatten, ?_⟩
  have hitems : batches.flatten.map result = batches.flatMap (·.map result) := by
    rw [List.map_flatten, List.flatMap_def]
  unfold arrange
  cases compilation.options.sortsDiagnostics with
  | false =>
    -- Unsorted, the reports of the batches are parts of the report on all items.
    refine ⟨by rwa [List.flatMap_map], nofun, nofun, nofun, fun _ => ?_⟩
    have hentries := entries_concat_flatten report batches
    rw [← List.flatMap_map] at hentries
    rw [List.map_map]
    exact congrArg Report.mk hentries
  | true =>
    -- Sorted, each of them is in order by itself, and a stable sort makes one order of them.
    have hsorts := stablySorts_batches_iff report batches
    refine ⟨by rwa [List.flatMap_map], fun _ output houtput => ?_, fun _ => ?_, fun _ entries => ?_,
      nofun⟩
    · obtain ⟨batch, _, rfl⟩ := List.mem_map.1 houtput
      exact stableSort_sorted _ _
    · have hentries := (hsorts _).1 (stablySorts_stableSort _ _)
      rw [← List.flatMap_map] at hentries
      rw [List.map_map]
      exact congrArg Report.mk hentries.symm
    · rw [List.flatMap_map]
      exact hsorts entries

/-- Nothing depends on how uses of members or of protocols are handed over to a built compilation:
`resolve` and `resolveProtocols` give for batches of them, put together, what one call for all of
them gives. -/
theorem resolve_batches (hbuilt : compilation.isBuilt = true) :
    compilation.IgnoresBatches compilation.resolve ∧
      compilation.IgnoresBatches compilation.resolveProtocols := by
  obtain ⟨registry, hregistry⟩ := Option.isSome_iff_exists.1 hbuilt
  have hbuilt : compilation.built = .ok registry := by rw [built, hregistry]
  constructor
  · refine ignoresBatches_of_lower (fun site => (registry.lowerSite site).1)
      (fun site => (registry.lowerSite site).2) fun sites => ?_
    rw [resolve, hbuilt]
    simp only [Registry.lowerSites, List.map_map]
    rfl
  · refine ignoresBatches_of_lower (fun site => (registry.lowerProtocol site).1)
      (fun site => (registry.lowerProtocol site).2) fun sites => ?_
    rw [resolveProtocols, hbuilt]
    simp only [Registry.lowerProtocols, List.map_map]
    rfl

/-- A class without members. -/
def chestFile : SourceFile := ⟨⟨0⟩, "chest", [.type ⟨.plainClass, "Chest", none, [], .unplaced⟩]⟩

/-- The reading of a member of the class, on a line. -/
def chestRead (line : Nat) (member : String) : AccessSite where
  id := ⟨0⟩
  span := ⟨⟨0⟩, line, 1, 3⟩
  scope := ⟨0⟩
  access := .onValue ⟨1⟩ (QualifiedName.global "Chest").hash
  member
  shape := .get

/-- Of three readings (`chestRead`) that fail, the first two are at one place. Their diagnostics
stay in this order behind that of the third, although the second and the third are handed over
together. -/
theorem resolve_batches_chest :
    let batches := [[chestRead 7 "Lid"], [chestRead 7 "Key", chestRead 3 "Lock"]]
    ∃ compilation, ofFiles [chestFile] .standard = .ok compilation ∧ compilation.isBuilt = true ∧
      ∃ outputs whole,
        List.Forall₂ (fun batch output => compilation.resolve batch = .ok output) batches outputs ∧
        compilation.resolve batches.flatten = .ok whole ∧ PutsTogether true outputs whole ∧
        whole.2.entries.map (·.message) =
          ["at 3:1: 'Chest' has no member 'Lock' taking 0 argument(s)",
            "at 7:1: 'Chest' has no member 'Lid' taking 0 argument(s)",
            "at 7:1: 'Chest' has no member 'Key' taking 0 argument(s)"] := by
  intro batches
  let compilation : Compilation := ⟨.standard, [chestFile],
    some (assemble [chestFile] .standard).registry,
    (empty .standard).arrange (assemble [chestFile] .standard).report⟩
  have hfiles : ofFiles [chestFile] .standard = .ok compilation := ofFiles_eq (by decide) .standard
  have hbuilt : compilation.isBuilt = true := rfl
  obtain ⟨outputs, whole, houtputs, hwhole, hparts⟩ := (resolve_batches hbuilt).1 batches
  refine ⟨compilation, hfiles, hbuilt, outputs, whole, houtputs, hwhole, hparts, ?_⟩
  have hmessages : (compilation.resolve batches.flatten).map (·.2.entries.map (·.message)) =
      .ok ["at 3:1: 'Chest' has no member 'Lock' taking 0 argument(s)",
        "at 7:1: 'Chest' has no member 'Lid' taking 0 argument(s)",
        "at 7:1: 'Chest' has no member 'Key' taking 0 argument(s)"] := by
    decide +kernel
  rw [hwhole] at hmessages
  exact Except.ok.inj hmessages

end Compilation

end ExtensionMembers
