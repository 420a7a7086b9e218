import ExtensionMembers.Build.Assembly
import ExtensionMembers.Protocol.Plan

/-!
# Compilations

Files are added to a compilation one by one; then it is built, once. From then on it answers any
number of questions about scopes, types and use sites, and accepts no more files.

* `Compilation.addFile`, `Compilation.build`, `Compilation.ofFiles`: up to the build.
* `Compilation.scope`, `Compilation.typeHash`: what scopes and types are called.
* `Compilation.resolve`, `Compilation.resolveProtocols`: use sites, lowered.

## References

- Specification, §2.1, Workspace layout (the `Compilation` driver), and §5, Concurrency & Resource
  Model
-/

namespace ExtensionMembers

/-- A misuse of a compilation, the engine's `CompilationError`. -/
inductive CompilationFault where
  /-- The file was added before. -/
  | duplicateFile (file : FileId)
  /-- The compilation is built already. -/
  | alreadyBuilt
  /-- The compilation is not built yet. -/
  | notBuilt
  /-- The file opens no such namespace. -/
  | unknownScope (file : FileId) (path : NamespacePath)
  /-- There is no such type; the name is given as it was asked for. -/
  | unknownType (name : String)
deriving DecidableEq, Inhabited

/-- The wording of a misuse. -/
def CompilationFault.message : CompilationFault → String
  | duplicateFile file => "file " ++ file.text ++ " was added twice"
  | alreadyBuilt => "the compilation has already been built"
  | notBuilt => "the compilation has not been built yet"
  | unknownScope file path =>
    "file " ++ file.text ++ " has no block for namespace '" ++ joinPath path ++ "'"
  | unknownType name => "no type named '" ++ name ++ "' is registered"

/-- Files that are compiled together, the `Compilation` driver of the specification (§2.1). -/
structure Compilation where
  /-- The options. -/
  options : Options
  /-- The files in the order they were added. -/
  files : List SourceFile
  /-- The registry, once it is built. -/
  registry : Option Registry
  /-- What was noted at the build. -/
  report : Report

namespace Compilation

/-- A compilation without files. -/
def empty (options : Options) : Compilation := ⟨options, [], none, .empty⟩

instance : Inhabited Compilation := ⟨empty .standard⟩

/-- Whether the compilation is built. -/
def isBuilt (compilation : Compilation) : Bool := compilation.registry.isSome

/-- The report, sorted (`Report.sorted`) if the options say so. -/
def arrange (compilation : Compilation) (report : Report) : Report :=
  if compilation.options.sortsDiagnostics then report.sorted else report

/-- The engine's `add_file`: the compilation with one more file. -/
def addFile (compilation : Compilation) (file : SourceFile) :
    Except CompilationFault Compilation :=
  if compilation.isBuilt then .error .alreadyBuilt
  else if file.id ∈ compilation.files.map (·.id) then .error (.duplicateFile file.id)
  else .ok { compilation with files := compilation.files ++ [file] }

/-- The engine's `build`: the compilation with its registry made by `assemble`. -/
def build (compilation : Compilation) : Except CompilationFault Compilation :=
  if compilation.isBuilt then .error .alreadyBuilt
  else
    let assembly := assemble compilation.files compilation.options
    .ok { compilation with
      registry := some assembly.registry, report := compilation.arrange assembly.report }

/-- The engine's `from_files`: the compilation of some files, built. -/
def ofFiles (files : List SourceFile) (options : Options) :
    Except CompilationFault Compilation := do
  let compilation ← files.foldlM addFile (empty options)
  compilation.build

/-- The registry of a built compilation; before the build there is a fault,
`CompilationFault.notBuilt`. -/
def built (compilation : Compilation) : Except CompilationFault Registry :=
  match compilation.registry with
  | some registry => .ok registry
  | none => .error .notBuilt

/-- The engine's `scope`: the first scope of a file that opens the namespace with a path. -/
def scope (compilation : Compilation) (file : FileId) (path : NamespacePath) :
    Except CompilationFault ScopeId := do
  let registry ← compilation.built
  match registry.scopeOf? file path with
  | some scope => .ok scope
  | none => .error (.unknownScope file path)

/-- The engine's `type_hash`: the hash of the type with a qualified name. -/
def typeHash (compilation : Compilation) (name : String) : Except CompilationFault TypeHash := do
  let registry ← compilation.built
  let hash := (QualifiedName.parse name).hash
  if registry.containsType hash then .ok hash else .error (.unknownType name)

/-- The engine's `resolve`: uses of members resolved and lowered (`Registry.lowerSites`), with their
diagnostics. -/
def resolve (compilation : Compilation) (sites : List AccessSite) :
    Except CompilationFault (List LoweredAccess × Report) := do
  let registry ← compilation.built
  let lowered := registry.lowerSites sites
  return (lowered.1, compilation.arrange lowered.2)

/-- The engine's `resolve_protocols`: protocol uses lowered (`Registry.lowerProtocols`), with their
diagnostics. -/
def resolveProtocols (compilation : Compilation) (sites : List ProtocolSite) :
    Except CompilationFault (List LoweredProtocol × Report) := do
  let registry ← compilation.built
  let lowered := registry.lowerProtocols sites
  return (lowered.1, compilation.arrange lowered.2)

end Compilation

end ExtensionMembers
