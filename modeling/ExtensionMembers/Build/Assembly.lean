import ExtensionMembers.Build.Legality
import ExtensionMembers.Build.Signature
import ExtensionMembers.Fault
import ExtensionMembers.Lookup.Resolution
import ExtensionMembers.Program.Outline

/-!
# Assembling a registry from files

Files are assembled in the order of their numbers, whatever the order they are given in. First
everything is declared: for each file its scopes, its types, then its extensions. Only then are
the imports resolved, so that a name may be used before it is declared, then the signatures of
types and extensions. Extensions that break a rule become invalid. At last members that can never
be reached are noted, if asked for, and the valid extensions are indexed.

* `Assembly`: the registry so far, with what is noted and what is left to do.
* `Assembly.declareOutline`: the declarations of one file.
* `Registry.resolveImports`: the namespaces that using directives mean.
* `Assembly.completeType`, `Assembly.completeExtension`: the signatures of one declaration.
* `assemble`: the finished registry of some files.

## References

- Specification, §4.1, Augmentation Registry (the order of registration), §4.6, Extended-Type
  Validator, and §10.3, Configuration (`CompilerOptions`)
-/

namespace ExtensionMembers

/-- The options of a compilation, the `CompilerOptions` of the specification (§10.3). -/
structure Options where
  /-- Whether use sites may be handled side by side, which changes no answer. -/
  parallel : Bool
  /-- Whether members of extensions that can never be reached are noted. -/
  notesHidden : Bool
  /-- Whether diagnostics are sorted by place. -/
  sortsDiagnostics : Bool
deriving DecidableEq, Inhabited

/-- Everything switched on. -/
def Options.standard : Options := ⟨true, true, true⟩

/-- A type of which only the name is declared; `Assembly.completeType` does the rest. -/
structure PendingType where
  /-- The hash. -/
  hash : TypeHash
  /-- The scope of the declaration. -/
  scope : ScopeId
  /-- The declaration. -/
  declaration : TypeDeclaration
deriving DecidableEq, Inhabited

/-- An extension of which only the name is declared; `Assembly.completeExtension` does the rest. -/
structure PendingExtension where
  /-- The identity. -/
  id : ExtensionId
  /-- The declaration. -/
  declaration : ExtensionDeclaration
deriving DecidableEq, Inhabited

/-- A registry in the making, the engine's `CompletionPass`. -/
structure Assembly where
  /-- The registry so far. -/
  registry : Registry
  /-- What is noted so far. -/
  report : Report
  /-- The types that were declared. -/
  types : List PendingType
  /-- The extensions that were declared. -/
  extensions : List PendingExtension
  /-- The number of declared extensions that broke a rule. -/
  invalid : Nat
deriving Inhabited

/-! ## Imports -/

/-- The engine's `resolve_namespace`: the namespace that the path of a using directive means within
a namespace. The path is tried there (`follow?`), then in the namespaces around it (`enclosing`),
innermost first. -/
def NamespaceTree.resolveImport? (tree : NamespaceTree) (start : NamespaceId)
    (path : NamespacePath) : Option NamespaceId :=
  (start :: tree.enclosing start).findSome? fun id => tree.follow? id path

/-- The scope with its imports resolved; paths that mean no namespace are dropped. -/
def Scope.resolveImports (tree : NamespaceTree) (scope : Scope) : Scope :=
  { scope with imports := scope.usings.filterMap (tree.resolveImport? scope.namespaceId) }

/-- The engine's `resolve_usings`: the registry with the imports of all scopes resolved. -/
def Registry.resolveImports (registry : Registry) : Registry :=
  { registry with
    scopes := ⟨registry.scopes.scopes.map (Scope.resolveImports registry.namespaces)⟩ }

namespace Assembly

/-- The assembly in which nothing but the built-in types is declared. -/
def start : Assembly := ⟨.withBuiltIns, .empty, [], [], 0⟩

/-- The assembly with one more diagnostic, that of a fault. -/
def note (assembly : Assembly) (fault : Fault) : Assembly :=
  { assembly with report := assembly.report.push fault.diagnostic }

/-! ## Declarations -/

/-- Declares a scope of a file after those scopes of the file that are declared already, the first
loop of the engine's `declare_file`. -/
def declareScope (file : FileId) (opened : Assembly × List ScopeId) (scope : OutlineScope) :
    Assembly × List ScopeId :=
  let registry := opened.1.registry
  let made := registry.namespaces.makePath NamespaceTree.root scope.path
  let parent := scope.parent.bind fun index => opened.2[index]?
  ({ opened.1 with registry := { registry with
      namespaces := made.1
      scopes := registry.scopes.add ⟨file, parent, made.2, scope.usings, []⟩ } },
    opened.2 ++ [⟨registry.scopes.size⟩])

/-- Declares the name of a type of a file with these scopes, the second loop of the engine's
`declare_file`. A type whose scope is none of them is passed over. -/
def declareType (scopes : List ScopeId) (assembly : Assembly) (type : OutlineType) : Assembly :=
  match scopes[type.scope]? with
  | none => assembly
  | some scope =>
    let bare := NamedType.bare type.name type.declaration.kind.typeKind type.declaration.span
    match assembly.registry.registerType bare with
    | (.ok _, registry) =>
      { assembly with
        registry
        types := assembly.types ++ [⟨bare.hash, scope, type.declaration⟩] }
    | (.error fault, registry) => { assembly with registry }.note (.declaration fault)

/-- Declares the name of an extension of a file with these scopes, the third loop of the engine's
`declare_file`. An extension whose scope is none of them is passed over. -/
def declareExtension (scopes : List ScopeId) (assembly : Assembly)
    (extension : OutlineExtension) : Assembly :=
  match scopes[extension.scope]? with
  | none => assembly
  | some scope =>
    let declared := Extension.declared extension.id extension.name scope extension.declaration.span
    match assembly.registry.registerExtension declared with
    | (.ok _, registry) =>
      { assembly with
        registry
        extensions := assembly.extensions ++ [⟨extension.id, extension.declaration⟩] }
    | (.error fault, registry) => { assembly with registry }.note (.declaration fault)

/-- The engine's `declare_file`: declares the scopes of a file, then its types, then its
extensions. -/
def declareOutline (assembly : Assembly) (outline : Outline) : Assembly :=
  let opened := outline.scopes.foldl (declareScope outline.file) (assembly, [])
  let named := outline.types.foldl (declareType opened.2) opened.1
  outline.extensions.foldl (declareExtension opened.2) named

/-! ## Signatures -/

/-- The engine's `complete_type`: resolves the base and the members of a declared type. -/
def completeType (assembly : Assembly) (pending : PendingType) : Assembly :=
  let registry := assembly.registry
  let chain := registry.chain pending.scope
  let tree := registry.namespaces
  let base := pending.declaration.base.bind fun base => (tree.typeRef chain [] base).namedHash?
  let members := pending.declaration.members.map (tree.member chain [])
  { assembly with
    registry := registry.modifyType pending.hash fun type => { type with base, members } }

/-- The declared extension with its extended type and its members resolved, the first half of the
engine's `complete_unit`. -/
def signExtension (registry : Registry) (declaration : ExtensionDeclaration)
    (extension : Extension) : Extension :=
  let chain := registry.chain extension.scope
  let tree := registry.namespaces
  let extended := declaration.target.map (tree.typeRef chain declaration.typeParameters)
  let target? := (extended.bind (·.namedHash?)).bind registry.type?
  { extension with
    extended
    isStaticOnly := target?.any (·.isStaticOnly)
    members := declaration.members.map (tree.member chain declaration.typeParameters) }

/-- Notes the rules that an extension breaks, if any, and marks it as invalid then, the second half
of the engine's `complete_unit`. -/
def judgeExtension (assembly : Assembly) (id : ExtensionId) : List ExtensionFault → Assembly
  | [] => assembly
  | faults =>
    let noted := (faults.map Fault.extension).foldl note assembly
    { noted with
      registry := noted.registry.modifyExtension id fun extension =>
        { extension with isValid := false }
      invalid := noted.invalid + 1 }

/-- The engine's `complete_unit`: resolves the extended type and the members of a declared extension
(`signExtension`) and judges it (`judgeExtension`). -/
def completeExtension (assembly : Assembly) (pending : PendingExtension) : Assembly :=
  -- Of several extensions with one identity only the last one is ever found.
  match assembly.registry.extension? pending.id with
  | none => assembly
  | some extension =>
    let signed := signExtension assembly.registry pending.declaration extension
    let registry := assembly.registry.modifyExtension pending.id fun _ => signed
    { assembly with registry }.judgeExtension pending.id (registry.extensionFaults signed)

/-! ## Hidden members -/

/-- The note on a member of an extension that can never be reached, of kind
`DiagnosticKind.memberHidden`. -/
def hiddenNote (extension : Extension) (member : Member) : Diagnostic where
  kind := .memberHidden
  span := member.span
  extensions := [extension.name]
  message := "at " ++ member.span.text ++ ": '" ++ member.name ++ "' in '" ++ extension.name.text
    ++ "' is hidden by a member of the extended type"

/-- The engine's `report_shadowed`: the notes on the `Registry.hiddenMembers` of valid
extensions. -/
def hiddenNotes (registry : Registry) : Report :=
  ⟨(registry.extensions.filter (·.isValid)).flatMap fun extension =>
    (registry.hiddenMembers extension).map (hiddenNote extension)⟩

/-! ## The whole -/

/-- Everything declared, nothing resolved: the outlines of the files (`Outline.ofFile`) in the order
of the file numbers. -/
def declareFiles (files : List SourceFile) : Assembly :=
  ((stableSort (fun outline => [outline.file.index]) (files.map Outline.ofFile))).foldl
    declareOutline start

/-- Imports and signatures resolved and extensions judged: `resolveImports`, every `completeType`,
then every `completeExtension`. -/
def complete (assembly : Assembly) : Assembly :=
  let assembly := { assembly with registry := assembly.registry.resolveImports }
  -- Types come before extensions, whose judgement looks at the kinds of types only.
  let assembly := assembly.types.foldl completeType assembly
  assembly.extensions.foldl completeExtension assembly

/-- Hidden members noted if asked for (`hiddenNotes`), and the valid extensions indexed
(`Registry.reindex`). -/
def finish (options : Options) (assembly : Assembly) : Assembly :=
  { assembly with
    registry := assembly.registry.reindex
    report := if options.notesHidden then assembly.report.append (hiddenNotes assembly.registry)
      else assembly.report }

end Assembly

/-- The engine's `register_files`: the finished registry of some files, with what is noted, in the
order it was met. -/
def assemble (files : List SourceFile) (options : Options) : Assembly :=
  (Assembly.declareFiles files).complete.finish options

end ExtensionMembers
