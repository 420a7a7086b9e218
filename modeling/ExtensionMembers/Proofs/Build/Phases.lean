import ExtensionMembers.Proofs.Call.Legality
import Mathlib.Data.List.Induction

/-!
# The two phases of a compilation

A compilation is used through calls that change it in place or fail. Up to its one build it takes
files and answers no question; from then on it answers questions and nothing changes it any more.
A call that fails leaves no trace.

## Main definitions

* `Compilation.Call`, `Compilation.Answer`: the calls and what they give back.
* `Compilation.Call.steps`, `Compilation.perform`: what a call does in place, write by write.
* `Compilation.after`, `Compilation.succeeded`: the state after some calls, and which succeeded.
* `IsFirstRepeated`: the first number that a file has in common with a file before it.

## Main results

* `Compilation.perform_cases`: what a call can do.
* `Compilation.builds_once`: the phases of a compilation, and what making one at once is.
-/

namespace ExtensionMembers

namespace Compilation

/-! ## Calls in place -/

/-- The calls of a compilation, those of the driver of the specification (§2.1). -/
inductive Call where
  /-- Adding a file. -/
  | addFile (file : SourceFile)
  /-- Building. -/
  | build
  /-- The scope of a file for a namespace. -/
  | scope (file : FileId) (path : NamespacePath)
  /-- The hash of a type by its name. -/
  | typeHash (name : String)
  /-- Lowering uses of members. -/
  | resolve (sites : List AccessSite)
  /-- Lowering uses of protocols. -/
  | resolveProtocols (sites : List ProtocolSite)
deriving Inhabited

/-- What a call gives back if it does not fail. -/
inductive Answer where
  /-- Nothing. -/
  | done
  /-- A scope. -/
  | scope (scope : ScopeId)
  /-- A hash. -/
  | typeHash (hash : TypeHash)
  /-- Lowered uses of members, with their diagnostics. -/
  | uses (lowered : List LoweredAccess × Report)
  /-- Lowered uses of protocols, with their diagnostics. -/
  | protocols (lowered : List LoweredProtocol × Report)
deriving Inhabited

/-- Steps on a `Compilation` in place, up to an answer or a fault: what is written before a fault
stays written. -/
abbrev InPlace : Type := StateM Compilation (Except CompilationFault Answer)

namespace Call

/-- The file that an `addFile` call adds. -/
def file? : Call → Option SourceFile
  | addFile file => some file
  | _ => none

/-- Whether a call is a question: neither `addFile` nor `build`. -/
def isQuery : Call → Bool
  | addFile _ | build => false
  | _ => true

/-- The steps of a `Call`, read and write by read and write (`InPlace`). -/
def steps : Call → InPlace
  | addFile file => do
    if (← get).isBuilt then return .error .alreadyBuilt
    if file.id ∈ (← get).files.map (·.id) then return .error (.duplicateFile file.id)
    modify fun state => { state with files := state.files ++ [file] }
    return .ok .done
  | build => do
    if (← get).isBuilt then return .error .alreadyBuilt
    let assembly := assemble (← get).files (← get).options
    modify fun state => { state with report := assembly.report }
    if (← get).options.sortsDiagnostics then
      modify fun state => { state with report := state.report.sorted }
    modify fun state => { state with registry := some assembly.registry }
    return .ok .done
  | scope file path => return ((← get).scope file path).map .scope
  | typeHash name => return ((← get).typeHash name).map .typeHash
  | resolve sites => return ((← get).resolve sites).map .uses
  | resolveProtocols sites => return ((← get).resolveProtocols sites).map .protocols

end Call

/-- A call: its answer, and the compilation that its `steps` leave. -/
def perform (compilation : Compilation) (call : Call) :
    Except CompilationFault Answer × Compilation :=
  (call.steps.run compilation).run

/-- The answer of `perform`. -/
def answer (compilation : Compilation) (call : Call) : Except CompilationFault Answer :=
  (compilation.perform call).1

/-- The compilation after some calls, one `perform` each. -/
def after (compilation : Compilation) (calls : List Call) : Compilation :=
  calls.foldl (fun state call => (state.perform call).2) compilation

/-- A call, unless its `answer` is a fault. -/
def accepted (compilation : Compilation) (call : Call) : List Call :=
  match compilation.answer call with
  | .ok _ => [call]
  | .error _ => []

/-- Those of some calls that do not fail (`accepted`), each made on what the ones before it left. -/
def succeeded (compilation : Compilation) : List Call → List Call
  | [] => []
  | call :: rest => compilation.accepted call ++ (compilation.perform call).2.succeeded rest

/-! ## What a call can do -/

section Perform

variable {compilation : Compilation}

/-- `perform` on `addFile` either does all that `Compilation.addFile` does or nothing. -/
theorem perform_addFile (compilation : Compilation) (file : SourceFile) :
    compilation.perform (.addFile file) = match compilation.addFile file with
      | .ok next => (.ok .done, next)
      | .error fault => (.error fault, compilation) := by
  unfold addFile
  by_cases hbuilt : compilation.isBuilt = true
  · simp [perform, Call.steps, hbuilt]
  · by_cases hadded : file.id ∈ compilation.files.map (·.id)
    · simp [perform, Call.steps, hbuilt, hadded, -List.mem_map]
    · simp [perform, Call.steps, hbuilt, hadded, -List.mem_map]

/-- So does `perform` on `build`, although it writes more than once. -/
theorem perform_build (compilation : Compilation) :
    compilation.perform .build = match compilation.build with
      | .ok next => (.ok .done, next)
      | .error fault => (.error fault, compilation) := by
  unfold build
  by_cases hbuilt : compilation.isBuilt = true
  · simp [perform, Call.steps, hbuilt]
  · cases hsorts : compilation.options.sortsDiagnostics
    · simp [perform, Call.steps, hbuilt, hsorts, arrange]
    · simp [perform, Call.steps, hbuilt, hsorts, arrange]

/-- The first `build` succeeds, and makes the registry of the files by `assemble`. -/
theorem perform_build_of_open (hopen : compilation.isBuilt = false) :
    compilation.perform .build = (.ok .done, { compilation with
      registry := some (assemble compilation.files compilation.options).registry
      report := compilation.arrange
        (assemble compilation.files compilation.options).report }) := by
  rw [perform_build, build, hopen]
  rfl

/-- `perform` on a question changes nothing, and before the build it has no answer. -/
theorem perform_query {call : Call} (hcall : call.isQuery = true) :
    (compilation.perform call).2 = compilation ∧
      (compilation.isBuilt = false → compilation.answer call = .error .notBuilt) := by
  -- Every question first asks for the registry, which there is not before the build.
  have hbuilt : compilation.isBuilt = false → compilation.built = .error .notBuilt := by
    intro hopen
    rw [built, Option.isNone_iff_eq_none.1 (Option.isSome_eq_false_iff.1 hopen)]
  cases call with
  | addFile file => cases hcall
  | build => cases hcall
  | scope file path =>
    refine ⟨rfl, fun hopen => ?_⟩
    show (compilation.scope file path).map Answer.scope = _
    rw [Compilation.scope, hbuilt hopen]
    rfl
  | typeHash name =>
    refine ⟨rfl, fun hopen => ?_⟩
    show (compilation.typeHash name).map Answer.typeHash = _
    rw [Compilation.typeHash, hbuilt hopen]
    rfl
  | resolve sites =>
    refine ⟨rfl, fun hopen => ?_⟩
    show (compilation.resolve sites).map Answer.uses = _
    rw [Compilation.resolve, hbuilt hopen]
    rfl
  | resolveProtocols sites =>
    refine ⟨rfl, fun hopen => ?_⟩
    show (compilation.resolveProtocols sites).map Answer.protocols = _
    rw [Compilation.resolveProtocols, hbuilt hopen]
    rfl

/-- What `perform` can do: until the build a call adds a file with a new number, or builds. Any
other call leaves the compilation as it was, and is a question or fails. -/
theorem perform_cases (compilation : Compilation) (call : Call) :
    (∃ file, call = .addFile file ∧ compilation.isBuilt = false ∧
        file.id ∉ compilation.files.map (·.id) ∧
        compilation.perform call =
          (.ok .done, { compilation with files := compilation.files ++ [file] })) ∨
      (call = .build ∧ compilation.isBuilt = false ∧
        compilation.perform call = (.ok .done, { compilation with
          registry := some (assemble compilation.files compilation.options).registry
          report := compilation.arrange
            (assemble compilation.files compilation.options).report })) ∨
      ((compilation.perform call).2 = compilation ∧
        (call.isQuery = true ∨ ∃ fault, compilation.answer call = .error fault)) := by
  cases call with
  | addFile file =>
    rw [answer, perform_addFile, addFile]
    cases hbuilt : compilation.isBuilt with
    | true => exact .inr (.inr ⟨rfl, .inr ⟨_, rfl⟩⟩)
    | false =>
      -- Before the build only a number that is taken stands against a file.
      by_cases hadded : file.id ∈ compilation.files.map (·.id)
      · rw [if_neg Bool.false_ne_true, if_pos hadded]
        exact .inr (.inr ⟨rfl, .inr ⟨_, rfl⟩⟩)
      · rw [if_neg Bool.false_ne_true, if_neg hadded]
        exact .inl ⟨file, rfl, rfl, hadded, rfl⟩
  | build =>
    cases hbuilt : compilation.isBuilt with
    | true =>
      rw [answer, perform_build, build, if_pos hbuilt]
      exact .inr (.inr ⟨rfl, .inr ⟨_, rfl⟩⟩)
    | false => exact .inr (.inl ⟨rfl, rfl, perform_build_of_open hbuilt⟩)
  | scope file path => exact .inr (.inr ⟨(perform_query rfl).1, .inl rfl⟩)
  | typeHash name => exact .inr (.inr ⟨(perform_query rfl).1, .inl rfl⟩)
  | resolve sites => exact .inr (.inr ⟨(perform_query rfl).1, .inl rfl⟩)
  | resolveProtocols sites => exact .inr (.inr ⟨(perform_query rfl).1, .inl rfl⟩)

/-- `perform` changes nothing where it fails. -/
theorem perform_of_error {call : Call} {fault : CompilationFault}
    (h : compilation.answer call = .error fault) : (compilation.perform call).2 = compilation := by
  rcases perform_cases compilation call with ⟨file, _, _, _, hperform⟩ |
    ⟨_, _, hperform⟩ | ⟨hsame, _⟩
  · rw [answer, hperform] at h
    cases h
  · rw [answer, hperform] at h
    cases h
  · exact hsame

/-- `perform` changes nothing once the compilation is built. -/
theorem perform_of_isBuilt (hbuilt : compilation.isBuilt = true) (call : Call) :
    (compilation.perform call).2 = compilation := by
  rcases perform_cases compilation call with ⟨file, _, hopen, _⟩ | ⟨_, hopen, _⟩ | ⟨hsame, _⟩
  · rw [hbuilt] at hopen
    cases hopen
  · rw [hbuilt] at hopen
    cases hopen
  · exact hsame

/-- What `perform` adds to the files is the file of a call that does not fail. -/
theorem files_perform (compilation : Compilation) (call : Call) :
    (compilation.perform call).2.files =
      compilation.files ++ (compilation.accepted call).filterMap Call.file? := by
  rw [accepted, answer]
  rcases perform_cases compilation call with ⟨file, rfl, _, _, hperform⟩ |
    ⟨rfl, _, hperform⟩ | ⟨hsame, hquery | ⟨fault, hfault⟩⟩
  · rw [hperform]
    rfl
  · rw [hperform]
    exact (List.append_nil _).symm
  · rw [hsame]
    have hnone : call.file? = none := by cases call <;> first | rfl | cases hquery
    cases (compilation.perform call).1 <;> simp [hnone]
  · rw [hsame, ← answer, hfault]
    simp

/-- A compilation is built by a `build` that does not fail. -/
theorem isBuilt_perform (compilation : Compilation) (call : Call) :
    (compilation.perform call).2.isBuilt = true ↔
      compilation.isBuilt = true ∨ .build ∈ compilation.accepted call := by
  rw [accepted, answer]
  rcases perform_cases compilation call with ⟨file, rfl, hopen, _, hperform⟩ |
    ⟨rfl, _, hperform⟩ | ⟨hsame, hquery | ⟨fault, hfault⟩⟩
  · rw [hperform]
    simp [isBuilt]
  · rw [hperform]
    simp [isBuilt]
  · rw [hsame]
    have hne : Call.build ≠ call := by rintro rfl; cases hquery
    cases (compilation.perform call).1 <;> simp [hne]
  · rw [hsame, ← answer, hfault]
    simp

/-- `perform` keeps the numbers of the files distinct. -/
theorem nodup_perform (h : (compilation.files.map (·.id)).Nodup) (call : Call) :
    ((compilation.perform call).2.files.map (·.id)).Nodup := by
  rcases perform_cases compilation call with ⟨file, _, _, hnew, hperform⟩ |
    ⟨_, _, hperform⟩ | ⟨hsame, _⟩
  · rw [hperform, List.map_append, List.map_singleton, ← List.concat_eq_append]
    exact .concat hnew h
  · rw [hperform]
    exact h
  · rw [hsame]
    exact h

end Perform

/-! ## What holds after some calls -/

section After

variable {compilation : Compilation}

/-- A compilation has the files of the calls that `succeeded`. -/
theorem files_after (compilation : Compilation) (calls : List Call) :
    (compilation.after calls).files =
      compilation.files ++ (compilation.succeeded calls).filterMap Call.file? := by
  induction calls generalizing compilation with
  | nil => exact (List.append_nil _).symm
  | cons call rest ih =>
    rw [after, List.foldl_cons, ← after, ih, files_perform, succeeded, List.filterMap_append,
      List.append_assoc]

/-- A compilation is built if it was, or a `build` is among the calls that `succeeded`. -/
theorem isBuilt_after (compilation : Compilation) (calls : List Call) :
    (compilation.after calls).isBuilt = true ↔
      compilation.isBuilt = true ∨ .build ∈ compilation.succeeded calls := by
  induction calls generalizing compilation with
  | nil => simp [after, succeeded]
  | cons call rest ih =>
    rw [after, List.foldl_cons, ← after, ih, isBuilt_perform, succeeded, List.mem_append, or_assoc]

/-- `after` keeps the numbers of the files distinct. -/
theorem nodup_after (h : (compilation.files.map (·.id)).Nodup) (calls : List Call) :
    ((compilation.after calls).files.map (·.id)).Nodup := by
  induction calls generalizing compilation with
  | nil => exact h
  | cons call rest ih => exact ih (nodup_perform h call)

/-- `after` leaves a compilation that is built as it is. -/
theorem after_of_isBuilt (hbuilt : compilation.isBuilt = true) (calls : List Call) :
    compilation.after calls = compilation := by
  induction calls with
  | nil => rfl
  | cons call rest ih => rw [after, List.foldl_cons, perform_of_isBuilt hbuilt, ← after, ih]

/-- `after` makes the calls of one list after those of the other. -/
theorem after_append (compilation : Compilation) (calls more : List Call) :
    compilation.after (calls ++ more) = (compilation.after calls).after more :=
  List.foldl_append

/-- `succeeded` of two lists: the calls of the second are made on what the first leaves. -/
theorem succeeded_append (compilation : Compilation) (calls more : List Call) :
    compilation.succeeded (calls ++ more) =
      compilation.succeeded calls ++ (compilation.after calls).succeeded more := by
  induction calls generalizing compilation with
  | nil => rfl
  | cons call rest ih => rw [List.cons_append, succeeded, ih, succeeded, List.append_assoc]; rfl

end After

/-! ## Making a compilation at once -/

/-- A file of `files` has the number `id` of a file before it, and it is the first such file. -/
def IsFirstRepeated (files : List SourceFile) (id : FileId) : Prop :=
  ∃ before file rest, files = before ++ file :: rest ∧ (before.map (·.id)).Nodup ∧
    file.id ∈ before.map (·.id) ∧ file.id = id

/-- Where numbers are not distinct there is one with `IsFirstRepeated`. -/
theorem exists_isFirstRepeated_iff {files : List SourceFile} :
    (∃ id, IsFirstRepeated files id) ↔ ¬ (files.map (·.id)).Nodup := by
  constructor
  · rintro ⟨id, before, file, rest, rfl, _, hin, _⟩ hids
    rw [List.map_append, List.map_cons] at hids
    exact (List.nodup_append.1 hids).2.2 file.id hin file.id (by simp) rfl
  · intro hids
    induction files using List.reverseRecOn with
    | nil => exact absurd List.nodup_nil hids
    | append_singleton files last ih =>
      by_cases hbefore : (files.map (·.id)).Nodup
      · -- The files before have distinct numbers, so the last one repeats.
        refine ⟨last.id, files, last, [], rfl, hbefore, ?_, rfl⟩
        by_contra hnew
        rw [List.map_append, List.map_singleton, ← List.concat_eq_append] at hids
        exact hids (.concat hnew hbefore)
      · obtain ⟨id, before, file, rest, rfl, hfirst⟩ := ih hbefore
        exact ⟨id, before, file, rest ++ [last], by simp, hfirst⟩

/-- `ofFiles` fails with the number for which `IsFirstRepeated` holds, and only so. -/
theorem ofFiles_eq_error_iff {files : List SourceFile} {options : Options} {id : FileId} :
    ofFiles files options = .error (.duplicateFile id) ↔ IsFirstRepeated files id := by
  have hrefused : ∀ id, IsFirstRepeated files id →
      ofFiles files options = .error (.duplicateFile id) := by
    rintro id ⟨before, file, rest, rfl, hbefore, hin, rfl⟩
    have hadd : addFile ⟨options, before, none, .empty⟩ file =
        .error (.duplicateFile file.id) := by
      simp only [addFile, isBuilt, Option.isSome_none, Bool.false_eq_true, if_false, if_pos hin]
    rw [ofFiles, List.foldlM_append, foldlM_addFile (empty options) rfl hbefore]
    -- The files before are added, and the next one is refused.
    show (addFile ⟨options, before, none, .empty⟩ file >>= fun state => rest.foldlM addFile state)
      >>= build = _
    rw [hadd]
    rfl
  refine ⟨fun h => ?_, hrefused id⟩
  by_cases hids : (files.map (·.id)).Nodup
  · rw [ofFiles_eq hids] at h
    cases h
  · obtain ⟨first, hfirst⟩ := exists_isFirstRepeated_iff.2 hids
    rw [hrefused first hfirst] at h
    cases h
    exact hfirst

/-- Files that `Compilation.addFile` adds one after the other are added by a call each. -/
theorem after_addFile {compilation next : Compilation} {files : List SourceFile}
    (h : files.foldlM addFile compilation = .ok next) :
    compilation.after (files.map .addFile) = next ∧
      compilation.succeeded (files.map .addFile) = files.map .addFile := by
  induction files generalizing compilation with
  | nil => exact ⟨Except.ok.inj h, rfl⟩
  | cons file rest ih =>
    rw [List.foldlM_cons] at h
    obtain ⟨second, hadd, hrest⟩ := bind_eq_ok_iff.1 h
    have hperform := perform_addFile compilation file
    rw [hadd] at hperform
    obtain ⟨hafter, hsucceeded⟩ := ih hrest
    rw [List.map_cons, after, List.foldl_cons, succeeded, accepted, answer, hperform, hsucceeded]
    exact ⟨hafter, rfl⟩

/-- What holds of a compilation, `state`, after some calls of which `accepted` did not fail. -/
structure TwoPhases (state : Compilation) (accepted : List Call) : Prop where
  /-- The files are those of the calls that did not fail. -/
  files_eq : state.files = accepted.filterMap Call.file?
  /-- Their numbers are distinct. -/
  ids_nodup : (state.files.map (·.id)).Nodup
  /-- A call that fails changes nothing. -/
  unchanged : ∀ call fault, state.answer call = .error fault → (state.perform call).2 = state
  /-- Building succeeds if it did not before. -/
  build_iff : state.answer .build = .ok .done ↔ .build ∉ accepted
  /-- Before the build no question has an answer. -/
  unanswered : .build ∉ accepted → ∀ call, call.isQuery = true →
    state.answer call = .error .notBuilt
  /-- After the build there is no other one, and no file is taken. -/
  closed : .build ∈ accepted → state.answer .build = .error .alreadyBuilt ∧
    ∀ file, state.answer (.addFile file) = .error .alreadyBuilt
  /-- After the build nothing changes any more, and so the answers stay the same. -/
  frozen : .build ∈ accepted → ∀ later, state.after later = state

/-- A compilation goes through its two phases (`TwoPhases`), whatever is called. -/
theorem twoPhases (options : Options) (calls : List Call) :
    TwoPhases ((empty options).after calls) ((empty options).succeeded calls) := by
  have hbuilt := isBuilt_after (empty options) calls
  have hempty : ((empty options).files.map (·.id)).Nodup := List.nodup_nil
  have hnodup := nodup_after hempty calls
  have hfiles := files_after (empty options) calls
  -- What is known of the calls is all in these facts; from here on any such state will do.
  generalize (empty options).after calls = state at hbuilt hnodup hfiles ⊢
  generalize (empty options).succeeded calls = accepted at hbuilt hfiles ⊢
  have hopen : .build ∉ accepted → state.isBuilt = false := by
    intro hout
    rw [← Bool.not_eq_true, hbuilt]
    exact not_or.2 ⟨Bool.false_ne_true, hout⟩
  have hclosed : .build ∈ accepted → state.isBuilt = true := fun hin => hbuilt.2 (.inr hin)
  have hbuild : .build ∈ accepted → state.answer .build = .error .alreadyBuilt := by
    intro hin
    rw [answer, perform_build, build, if_pos (hclosed hin)]
  refine ⟨hfiles, hnodup, fun call fault => perform_of_error, ⟨fun hdone hin => ?_, fun hout => ?_⟩,
    fun hout call hcall => (perform_query hcall).2 (hopen hout),
    fun hin => ⟨hbuild hin, fun file => ?_⟩, fun hin => after_of_isBuilt (hclosed hin)⟩
  · rw [hbuild hin] at hdone
    cases hdone
  · rw [answer, perform_build_of_open (hopen hout)]
  · rw [answer, perform_addFile, addFile, if_pos (hclosed hin)]

/-- A compilation goes through its two phases (`TwoPhases`), whatever is called. Made at once from
some files by `ofFiles` it is what adding them one by one and building makes of it, unless a number
is repeated; then the first such number (`IsFirstRepeated`) is the reason that it is not made. -/
theorem builds_once (options : Options) :
    (∀ calls, TwoPhases ((empty options).after calls) ((empty options).succeeded calls)) ∧
    ∀ files,
      (∀ id, ofFiles files options = .error (.duplicateFile id) ↔ IsFirstRepeated files id) ∧
      ((∀ id, ¬ IsFirstRepeated files id) →
        let calls := files.map Call.addFile ++ [.build]
        ofFiles files options = .ok ((empty options).after calls) ∧
          (empty options).succeeded calls = calls) := by
  refine ⟨twoPhases options, fun files => ⟨fun id => ofFiles_eq_error_iff, fun hnone => ?_⟩⟩
  have hids : (files.map (·.id)).Nodup := by
    by_contra hrepeated
    exact not_exists.2 hnone (exists_isFirstRepeated_iff.2 hrepeated)
  obtain ⟨hadded, hsucceeded⟩ := after_addFile (foldlM_addFile (empty options) rfl hids)
  -- Adding the files leaves a state that is not built, and building it is the last call.
  constructor
  · rw [ofFiles_eq hids, after_append, hadded, after, List.foldl_cons, perform_build_of_open rfl]
    rfl
  · rw [succeeded_append, hsucceeded, hadded, succeeded, accepted, answer,
      perform_build_of_open rfl]
    rfl

/-- A file is added, a scope is asked for too early, the file is added again, and all is built. -/
def hastyCalls : List Call :=
  [.addFile storeFile, .scope ⟨0⟩ [], .addFile storeFile, .build, .scope ⟨0⟩ []]

/-- After `hastyCalls` the file is added once, and no other one after the build; made at once from
the file twice, the compilation is refused. -/
theorem builds_once_hasty :
    let state := (empty .standard).after hastyCalls
    .build ∈ (empty .standard).succeeded hastyCalls ∧ state.files.map (·.id) = [⟨0⟩] ∧
      state.answer (.addFile { storeFile with id := ⟨1⟩ }) = .error .alreadyBuilt ∧
      (∀ later, state.after later = state) ∧
      ofFiles [storeFile, storeFile] .standard = .error (.duplicateFile ⟨0⟩) := by
  intro state
  have hbuilt : .build ∈ (empty .standard).succeeded hastyCalls :=
    ((isBuilt_after _ _).1 (by decide +kernel)).resolve_left (by decide)
  obtain ⟨hphases, hfiles⟩ := builds_once .standard
  have hstate := hphases hastyCalls
  have hrepeated : IsFirstRepeated [storeFile, storeFile] ⟨0⟩ :=
    ⟨[storeFile], storeFile, [], rfl, List.nodup_singleton _, by simp, rfl⟩
  exact ⟨hbuilt, by decide +kernel, (hstate.closed hbuilt).2 _, hstate.frozen hbuilt,
    ((hfiles _).1 _).2 hrepeated⟩

end Compilation

end ExtensionMembers
