import ExtensionMembers.Fault.Diagnostic

/-!
# Faults of declarations

A declaration fails when its name is taken in its namespace, or when its namespace does not exist.

* `DeclarationFault.message`: the wording of a fault.
* `DeclarationFault.diagnostic`: the note made of it.

## References

- Specification, §7.1, Error stack (`RegistrationError`)
-/

namespace ExtensionMembers

/-- Why a declaration cannot be registered, the `RegistrationError` of the specification (§7.1). -/
inductive DeclarationFault where
  /-- The namespace holds a type of this name already. -/
  | duplicate (name : QualifiedName) (span : Span)
  /-- There is no such namespace. -/
  | unknownNamespace
deriving DecidableEq, Inhabited

namespace DeclarationFault

/-- The place of the fault. -/
def span : DeclarationFault → Span
  | duplicate _ span => span
  | unknownNamespace => .unplaced

/-- The fault moved to the place of the declaration that met it: `NamespaceTree.declareType` knows
no place. -/
def placedAt (span : Span) : DeclarationFault → DeclarationFault
  | duplicate name _ => duplicate name span
  | unknownNamespace => unknownNamespace

/-- The wording of the fault. -/
def message : DeclarationFault → String
  | duplicate name span => "at " ++ span.text ++ ": '" ++ name.text ++ "' is already declared"
  | unknownNamespace => "invalid namespace"

/-- The note made of the fault, of kind `DiagnosticKind.duplicateDeclaration`. -/
def diagnostic (fault : DeclarationFault) : Diagnostic :=
  ⟨.duplicateDeclaration, fault.span, [], fault.message⟩

end DeclarationFault

end ExtensionMembers
