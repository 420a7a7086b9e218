import ExtensionMembers.Collection.StableSort
import ExtensionMembers.Name.Qualified
import ExtensionMembers.Source.Span

/-!
# Diagnostics

Nothing a program contains stops the engine; what is wrong is noted as a diagnostic.

* `DiagnosticKind`: the closed set of things that can be noted, with a severity each.
* `Diagnostic`: one note.
* `Report`: the notes of a run; `Report.sorted` orders them by place and kind.

## References

- Specification, §6, External Interfaces (the kinds), and §7.1, Error stack (`Diagnostics`)
-/

namespace ExtensionMembers

/-- How serious a diagnostic is. -/
inductive Severity where
  /-- The program is wrong. -/
  | error
  /-- The program is suspicious. -/
  | warning
deriving DecidableEq, Inhabited

/-- The word for a severity. -/
def Severity.text : Severity → String
  | error => "error"
  | warning => "warning"

/-- What a diagnostic is about, the `DiagnosticKind` of the specification (§6). -/
inductive DiagnosticKind where
  /-- The extended type is of a form that cannot be extended, or means no single type. -/
  | extendedTypeInvalid
  /-- The extension names no type. -/
  | extendedTypeMissing
  /-- A member of an extension declares a receiver parameter. -/
  | receiverDeclared
  /-- An instance member is attached to a type with static members only. -/
  | instanceInStaticOnly
  /-- A member with a foreign function is not static. -/
  | foreignInstance
  /-- Several extensions of equal rank supply the member. -/
  | memberAmbiguous
  /-- Nothing supplies the member. -/
  | memberNotFound
  /-- The arguments do not fit the parameters. -/
  | argumentMismatch
  /-- The member cannot be read, or cannot be assigned. -/
  | accessorMissing
  /-- The name is taken. -/
  | duplicateDeclaration
  /-- A member of an extension can never be reached. -/
  | memberHidden
deriving DecidableEq, Inhabited

namespace DiagnosticKind

/-- The word for a kind in the text of diagnostics. -/
def text : DiagnosticKind → String
  | extendedTypeInvalid => "ExtendedTypeInvalid"
  | extendedTypeMissing => "ExtendedTypeMissing"
  | receiverDeclared => "ExtensionMethodFormInExtensionUnit"
  | instanceInStaticOnly => "InstanceMemberInStaticOnlyExtension"
  | foreignInstance => "ForeignBindingOnInstanceMember"
  | memberAmbiguous => "AmbiguousAugmentationMember"
  | memberNotFound => "MemberNotFound"
  | argumentMismatch => "ArgumentMismatch"
  | accessorMissing => "AccessorMissing"
  | duplicateDeclaration => "DuplicateDeclaration"
  | memberHidden => "AugmentationMemberShadowed"

/-- All kinds in the order in which diagnostics of one place are sorted. -/
def all : List DiagnosticKind :=
  [extendedTypeInvalid, extendedTypeMissing, receiverDeclared, instanceInStaticOnly,
    foreignInstance, memberAmbiguous, memberNotFound, argumentMismatch, accessorMissing,
    duplicateDeclaration, memberHidden]

/-- The position of a kind in `DiagnosticKind.all`. -/
def rank (kind : DiagnosticKind) : Nat := all.idxOf kind

/-- Only a hidden member is no error. -/
def severity : DiagnosticKind → Severity
  | memberHidden => .warning
  | _ => .error

end DiagnosticKind

/-- A note on something wrong or suspicious, the engine's `Diagnostic`. -/
structure Diagnostic where
  /-- What it is about. -/
  kind : DiagnosticKind
  /-- The place. -/
  span : Span
  /-- The extensions involved, in declaration order. -/
  extensions : List QualifiedName
  /-- The wording. -/
  message : String
deriving DecidableEq, Inhabited

namespace Diagnostic

/-- How serious the diagnostic is. -/
def severity (diagnostic : Diagnostic) : Severity := diagnostic.kind.severity

/-- Whether the diagnostic is an error. -/
def isError (diagnostic : Diagnostic) : Bool := diagnostic.severity = .error

/-- The key of the sorted order: `Span.key` of the place, then the rank of the kind. -/
def key (diagnostic : Diagnostic) : List Nat := diagnostic.span.key ++ [diagnostic.kind.rank]

/-- The diagnostic on one line. -/
def text (diagnostic : Diagnostic) : String :=
  diagnostic.span.placed ++ ": " ++ diagnostic.severity.text ++ "[" ++ diagnostic.kind.text
    ++ "]: " ++ diagnostic.message

end Diagnostic

/-- The diagnostics of a run, the `Diagnostics` of the specification (§7.1). -/
structure Report where
  /-- The diagnostics in order. -/
  entries : List Diagnostic
deriving DecidableEq

namespace Report

/-- The report without diagnostics. -/
def empty : Report := ⟨[]⟩

instance : Inhabited Report := ⟨empty⟩

/-- The report with one more diagnostic. -/
def push (report : Report) (diagnostic : Diagnostic) : Report := ⟨report.entries ++ [diagnostic]⟩

/-- One report after the other. -/
def append (first second : Report) : Report := ⟨first.entries ++ second.entries⟩

/-- The reports one after another. -/
def concat (reports : List Report) : Report := ⟨reports.flatMap (·.entries)⟩

/-- Reports can be joined batch by batch. -/
@[simp]
theorem concat_append (first second : List Report) :
    concat (first ++ second) = (concat first).append (concat second) := by
  simp [concat, append]

/-- The number of diagnostics. -/
def size (report : Report) : Nat := report.entries.length

/-- The number of errors. -/
def errorCount (report : Report) : Nat := report.entries.countP (·.isError)

/-- The number of warnings. -/
def warningCount (report : Report) : Nat := report.entries.countP (!·.isError)

/-- Whether there is an error. -/
def hasErrors (report : Report) : Bool := report.entries.any (·.isError)

/-- The diagnostics of one kind, in order. -/
def ofKind (report : Report) (kind : DiagnosticKind) : List Diagnostic :=
  report.entries.filter (·.kind = kind)

/-- The report ordered by `Diagnostic.key`: file, line, column, kind. Equal diagnostics keep their
order (`stableSort`). -/
def sorted (report : Report) : Report := ⟨stableSort Diagnostic.key report.entries⟩

/-- Sorting drops and adds no diagnostic. -/
theorem sorted_perm (report : Report) : report.sorted.entries.Perm report.entries :=
  stableSort_perm Diagnostic.key report.entries

/-- The diagnostics on a line each. -/
def text (report : Report) : String := String.join (report.entries.map (·.text ++ "\n"))

end Report

end ExtensionMembers
