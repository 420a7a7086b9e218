import ExtensionMembers.Proofs.Build.Judgement
import ExtensionMembers.Proofs.Program.Declarations

/-!
# Every declaration is accounted for

Files are declared in the order of their numbers, in each the types and then the extensions. Of the
declarations of one name the first is registered; every later one, and every one of a name that is
built in, is noted once and left out of everything that follows.

## Main definitions

* `Declared.written`: a declaration as it stands in the text.
* `named`: the declarations of one name.
* `Assembly.Accounts`: what becomes of the declarations of a program.

## Main results

* `named_enlisted`: which declarations of a name are registered and which are passed over.
* `map_written_declarationsOf`: the order in which the declarations of the files come.
* `assemble_accounts`: in the build of some files every declaration is accounted for.
-/

namespace ExtensionMembers

/-! ## Registered and passed over -/

/-- The declarations of `all` with one name. -/
def named (name : QualifiedName) (all : List Declared) : List Declared :=
  all.filter (·.name = name)

theorem named_append (name : QualifiedName) (all later : List Declared) :
    named name (all ++ later) = named name all ++ named name later :=
  List.filter_append ..

/-- `enlist`, declaration by declaration of one name: of those of a name that is free the first is
registered and the others are passed over (`repeatedFrom`); of those of a name that is taken all are
passed over. -/
theorem named_enlisted (name : QualifiedName) (declared all : List Declared) :
    named name (all.foldl enlist declared) = named name declared ++
        (if name ∈ (registeredTypes declared).map (·.name) then [] else (named name all).take 1) ∧
      named name (repeatedFrom declared all) =
        if name ∈ (registeredTypes declared).map (·.name) then named name all
          else (named name all).drop 1 := by
  -- Each declaration can take its name, so the list of registered ones varies in the induction.
  induction all generalizing declared with
  | nil => simp [named, repeatedFrom]
  | cons next rest ih =>
    obtain ⟨hfirst, hlater⟩ := ih (enlist declared next)
    rw [List.foldl_cons, repeatedFrom, named_append, hfirst, hlater]
    have hcons : named name (next :: rest) =
        if next.name = name then next :: named name rest else named name rest := by
      simp [named, List.filter_cons]
    by_cases htaken : next.name ∈ (registeredTypes declared).map (·.name)
    · rw [enlist, if_pos htaken, passOver, if_pos htaken, hcons]
      by_cases hname : next.name = name
      · subst hname
        simp [htaken, named]
      · simp [hname, named]
    · -- The declaration takes its name, and leaves every other name as it was.
      have hnames : (registeredTypes (declared ++ [next])).map (·.name) =
          (registeredTypes declared).map (·.name) ++ [next.name] := by
        rw [registeredTypes_concat, List.map_append]
        rfl
      rw [enlist, if_neg htaken, passOver, if_neg htaken, hcons, hnames, named_append]
      by_cases hname : next.name = name
      · subst hname
        simp [htaken, named]
      · simp [hname, Ne.symm hname, named]

/-- Every declaration is either registered by `enlist` or passed over, among `repeatedFrom`. -/
theorem enlisted_perm (declared all : List Declared) :
    (all.foldl enlist declared ++ repeatedFrom declared all).Perm (declared ++ all) := by
  induction all generalizing declared with
  | nil => simp [repeatedFrom]
  | cons next rest ih =>
    rw [List.foldl_cons, repeatedFrom]
    by_cases htaken : next.name ∈ (registeredTypes declared).map (·.name)
    · -- The declaration goes to the other list, and is taken out of the middle.
      rw [enlist, if_pos htaken, passOver, if_pos htaken, List.singleton_append]
      exact (List.perm_middle.trans ((ih declared).cons next)).trans List.perm_middle.symm
    · rw [enlist, if_neg htaken, passOver, if_neg htaken, List.nil_append]
      simpa using ih (declared ++ [next])

/-- What is left to complete (`pendingType?`, `pendingExtension?`) are the types and the extensions
that are registered. -/
theorem length_pending (declared : List Declared) :
    (declared.filterMap (·.pendingType?)).length +
      (declared.filterMap (·.pendingExtension?)).length = declared.length := by
  induction declared with
  | nil => rfl
  | cons next rest ih =>
    rw [List.length_cons, ← ih]
    -- A declaration is counted once, as a type or as an extension.
    cases next with
    | type =>
      show (rest.filterMap (·.pendingType?)).length + 1 +
        (rest.filterMap (·.pendingExtension?)).length = _
      omega
    | extension =>
      show (rest.filterMap (·.pendingType?)).length +
        ((rest.filterMap (·.pendingExtension?)).length + 1) = _
      omega

/-! ## The order of the text -/

/-- A declaration as it stands in the text: a `Declared` less its place in the program. -/
def Declared.written : Declared → Written
  | type name _ declaration => .type name declaration
  | extension _ name _ declaration => .extension name declaration

theorem map_written_declaredFrom (first : Nat) (outlines : List Outline) :
    (declaredFrom first outlines).map (·.written) =
      outlines.flatMap fun outline => outline.writtenTypes ++ outline.writtenExtensions := by
  induction outlines generalizing first with
  | nil => rfl
  | cons outline rest ih =>
    -- Scopes are numbered on from file to file, but the numbers are no part of the text.
    rw [declaredFrom, List.map_append, ih, List.flatMap_cons, Outline.declared, List.map_append,
      List.map_map, List.map_map]
    rfl

/-- `outlinesOf` are the outlines of the files, which are sorted by their numbers. -/
theorem outlinesOf_eq_map (files : List SourceFile) :
    outlinesOf files = (stableSort (fun file => [file.id.index]) files).map Outline.ofFile := by
  have hfiles : List.Forall₂ (fun file outline => Outline.ofFile file = outline) files
      (files.map Outline.ofFile) := by
    rw [List.forall₂_map_right_iff, List.forall₂_same]
    exact fun _ _ => rfl
  have hsorted : List.Forall₂ (fun file outline => Outline.ofFile file = outline)
      (stableSort (fun file => [file.id.index]) files) (outlinesOf files) :=
    forall₂_stableSort (fun file outline h => by rw [← h, Outline.file_ofFile]) hfiles
  rw [← List.map_id (outlinesOf files)]
  exact (map_eq_of_forall₂ (fun _ _ h => h) hsorted).symm

/-- The order of `declarationsOf`: files in the order of their numbers, each with its types before
its extensions, and either of them in the order of the text. -/
theorem map_written_declarationsOf (files : List SourceFile) :
    (declarationsOf files).map (·.written) =
      (stableSort (fun file => [file.id.index]) files).flatMap (·.typesFirst) := by
  rw [declarationsOf, map_written_declaredFrom, outlinesOf_eq_map, List.flatMap_map]
  simp only [Outline.written_ofFile]

/-- `declarationsOf` has as many declarations as the texts of the files. -/
theorem length_declarationsOf (files : List SourceFile) :
    (declarationsOf files).length = (files.map (·.written.length)).sum := by
  have hlength := congrArg List.length (map_written_declarationsOf files)
  rw [List.length_map, List.length_flatMap] at hlength
  have hsorted := stableSort_perm (fun file : SourceFile => [file.id.index]) files
  have hsame : ∀ file ∈ files, file.typesFirst.length = file.written.length :=
    fun file _ => file.typesFirst_perm.length_eq
  rw [hlength, (hsorted.map _).sum_nat, List.map_congr_left hsame]

/-! ## The whole -/

/-- What becomes of the declarations of a program, of which some are `registered` and others,
`repeated`, are passed over. -/
structure Assembly.Accounts (assembly : Assembly) (all registered repeated : List Declared) :
    Prop where
  /-- The first declaration of a name is registered, unless the name is built in. -/
  first : ∀ name, named name registered =
    if name ∈ BuiltIn.types.map (·.name) then [] else (named name all).take 1
  /-- Every later one is passed over, and so is every one of a name that is built in. -/
  later : ∀ name, named name repeated =
    if name ∈ BuiltIn.types.map (·.name) then named name all else (named name all).drop 1
  /-- The types that are completed are the registered ones. -/
  types_eq : assembly.types = registered.filterMap (·.pendingType?)
  /-- The extensions that are completed are the registered ones. -/
  extensions_eq : assembly.extensions = registered.filterMap (·.pendingExtension?)
  /-- Each declaration that is passed over is noted once, at its place. -/
  notes : assembly.report.ofKind .duplicateDeclaration = repeated.map (·.duplicateNote)
  /-- An extension that is passed over is neither registered nor indexed. -/
  left_out : ∀ next ∈ repeated, ∀ id, next.id? = some id →
    id ∉ assembly.registry.extensions.map (·.id) ∧ id ∉ assembly.registry.index.map (·.2)

/-- `repeatedOf` are the only declarations noted as duplicates by `assemble`. -/
theorem ofKind_assemble {files : List SourceFile} (hids : (files.map (·.id)).Nodup)
    (options : Options) :
    (assemble files options).report.ofKind .duplicateDeclaration =
      (repeatedOf files).map (·.duplicateNote) := by
  have hreport := (report_assemble hids options).1
  rw [Report.ofKind, hreport, (Assembly.records_declareFiles files).report_eq, List.filter_append,
    List.filter_append]
  have hnotes : ((repeatedOf files).map (·.duplicateNote)).filter
      (·.kind = .duplicateDeclaration) = (repeatedOf files).map (·.duplicateNote) := by
    rw [List.filter_eq_self, List.forall_mem_map]
    exact fun _ _ => rfl
  -- Neither a broken rule nor a hidden member is a name that is taken.
  have hfaults : ∀ registry : Registry, (registry.extensions.flatMap registry.faultNotes).filter
      (·.kind = .duplicateDeclaration) = [] := by
    intro registry
    rw [List.filter_eq_nil_iff]
    intro note hnote hkind
    obtain ⟨extension, _, hfault⟩ := List.mem_flatMap.1 hnote
    obtain ⟨fault, _, rfl⟩ := List.mem_map.1 hfault
    have hbroken := fault.isBrokenRule_kind
    rw [of_decide_eq_true hkind] at hbroken
    cases hbroken
  have hhidden : ((if options.notesHidden then
      (Assembly.hiddenNotes (assemble files options).registry).entries else []).filter
        (·.kind = .duplicateDeclaration)) = [] := by
    rw [List.filter_eq_nil_iff]
    intro note hnote hkind
    split at hnote
    · rw [kind_of_mem_hiddenNotes hnote] at hkind
      cases of_decide_eq_true hkind
    · cases hnote
  rw [hnotes, hfaults, hhidden, List.append_nil, List.append_nil]

/-- What `assemble` completes is what is registered, `declaredOf`. -/
theorem pending_assemble {files : List SourceFile} (hids : (files.map (·.id)).Nodup)
    (options : Options) :
    (assemble files options).types = (declaredOf files).filterMap (·.pendingType?) ∧
      (assemble files options).extensions =
        (declaredOf files).filterMap (·.pendingExtension?) := by
  have hrecords := Assembly.records_declareFiles files
  obtain ⟨_, _, hcomplete⟩ := Registry.complete_eq hrecords (Registry.nodup_id_declaredOf hids)
  rw [← hrecords.types_eq, ← hrecords.extensions_eq, assemble, hcomplete]
  exact ⟨rfl, rfl⟩

/-- The identity of an extension of `repeatedOf` is not that of one of `declaredOf`. -/
theorem id?_ne_of_repeated {files : List SourceFile} (hids : (files.map (·.id)).Nodup)
    {next : Declared} (hnext : next ∈ repeatedOf files) {id : ExtensionId}
    (hid : next.id? = some id) : id ∉ (declaredOf files).filterMap (·.id?) := by
  -- Registered or not, no two declared extensions have the same identity.
  have hperm : (declaredOf files ++ repeatedOf files).Perm (declarationsOf files) :=
    enlisted_perm [] (declarationsOf files)
  have hall : ((declaredOf files ++ repeatedOf files).filterMap (·.id?)).Nodup :=
    (hperm.filterMap _).nodup_iff.2 ((ordered_declarationsOf hids).imp ExtensionId.Before.ne)
  rw [List.filterMap_append, List.nodup_append] at hall
  exact fun hin => hall.2.2 id hin id (List.mem_filterMap.2 ⟨next, hnext, hid⟩) rfl

/-- In the build of some files with different numbers every declaration is accounted for
(`Assembly.Accounts`). Those of one name come in the order of the files, in each file types before
extensions, and either in the order of the text. The first is registered, the others are noted as
duplicates and are no part of the registry, and the numbers of both add up to the number of
declarations in the text (`declareType` and `declareExtension` pass none over for want of a
scope). -/
theorem assemble_accounts {files : List SourceFile} (hids : (files.map (·.id)).Nodup)
    (options : Options) :
    let assembly := assemble files options
    assembly.Accounts (declarationsOf files) (declaredOf files) (repeatedOf files) ∧
      assembly.registry.Holds (scopesOf files) (declaredOf files) ∧
      (declarationsOf files).map (·.written) =
        (stableSort (fun file => [file.id.index]) files).flatMap (·.typesFirst) ∧
      assembly.types.length + assembly.extensions.length +
          (assembly.report.ofKind .duplicateDeclaration).length =
        (files.map (·.written.length)).sum := by
  intro assembly
  have hholds := Registry.holds_assemble hids options
  have hnotes := ofKind_assemble hids options
  obtain ⟨htypes, hextensions⟩ := pending_assemble hids options
  -- Before the first declaration the names of the built-in types are taken.
  have hnames : (registeredTypes []).map (·.name) = BuiltIn.types.map (·.name) := by
    rw [registeredTypes, List.map_nil, List.append_nil]
  have hnamed := fun name => named_enlisted name [] (declarationsOf files)
  rw [hnames] at hnamed
  have hids' : assembly.registry.extensions.map (·.id) = (declaredOf files).filterMap (·.id?) := by
    rw [hholds.extensions_eq, map_id_finished?]
  have hindex := Registry.indexWithinExtensions_of_reachable
    (Registry.reachable_assemble files options)
  refine ⟨⟨fun name => (hnamed name).1, fun name => (hnamed name).2, htypes, hextensions, hnotes,
    fun next hnext id hid => ?_⟩, hholds, map_written_declarationsOf files, ?_⟩
  · -- The index lists only extensions that are registered.
    have hout := id?_ne_of_repeated hids hnext hid
    rw [← hids'] at hout
    exact ⟨hout, fun hin => hout (hindex.subset hin)⟩
  · rw [htypes, hextensions, hnotes, length_pending, List.length_map, ← length_declarationsOf]
    exact List.length_append.symm.trans (enlisted_perm [] (declarationsOf files)).length_eq

/-- Two files, the later one given first. In the earlier one a built-in name is declared, and an
extension stands before a type of the same name; the later one opens its namespace again. -/
def stockFiles : List SourceFile :=
  [⟨⟨1⟩, "later", [type "Shelf", .block ["Shop"] [type "Shelf", .block ["Back"] [type "Labels"]],
      .block ["Shop", "Back"] [labels "Labels"]]⟩,
    ⟨⟨0⟩, "earlier", [labels "Shelf", type "int",
      .block ["Shop"] [labels "Labels", type "Labels", labels "Labels"]]⟩]
where
  type (name : String) : Item := .type ⟨.plainClass, name, none, [], .unplaced⟩
  labels (name : String) : Item := .extension ⟨name, some (.parse "string"), [], [], .unplaced⟩

/-- Of the nine declarations of `stockFiles` four are registered. -/
theorem assemble_accounts_stock :
    let assembly := assemble stockFiles .standard
    (stockFiles.map (·.id)).Nodup ∧
      (declaredOf stockFiles).map (fun next => (next.name.text, next.id?)) =
        [("Shop::Labels", none), ("Shelf", some ⟨⟨0⟩, 0⟩), ("Shop::Shelf", none),
          ("Shop::Back::Labels", none)] ∧
      (repeatedOf stockFiles).map (fun next => (next.name.text, next.id?)) =
        [("int", none), ("Shop::Labels", some ⟨⟨0⟩, 1⟩), ("Shop::Labels", some ⟨⟨0⟩, 2⟩),
          ("Shelf", none), ("Shop::Back::Labels", some ⟨⟨1⟩, 0⟩)] ∧
      assembly.Accounts (declarationsOf stockFiles) (declaredOf stockFiles)
        (repeatedOf stockFiles) ∧
      assembly.types.length + assembly.extensions.length +
        (assembly.report.ofKind .duplicateDeclaration).length = 9 := by
  intro assembly
  have hids : (stockFiles.map (·.id)).Nodup := by decide
  obtain ⟨haccounts, _, _, htotal⟩ := assemble_accounts hids .standard
  exact ⟨hids, by decide +kernel, by decide +kernel, haccounts, htotal.trans (by decide +kernel)⟩

end ExtensionMembers
