import ExtensionMembers.Fault.Call
import ExtensionMembers.Fault.Declaration
import ExtensionMembers.Fault.Extension
import ExtensionMembers.Fault.Lookup

/-!
# Faults

Whatever can be wrong with a program is a fault of a declaration, an extension, a look-up or a
call. Every fault becomes one diagnostic.

* `Fault.diagnostic`: the note made of a fault.

## References

- Specification, §7, Error Handling Design
-/

namespace ExtensionMembers

/-- Something wrong with a program: one of the four error types of the specification (§7.1). -/
inductive Fault where
  /-- A declaration that cannot be registered. -/
  | declaration (fault : DeclarationFault)
  /-- A rule broken by an extension. -/
  | extension (fault : ExtensionFault)
  /-- A use of a member that fails. -/
  | lookup (fault : LookupFault)
  /-- A call whose arguments do not fit. -/
  | call (fault : CallFault)
deriving DecidableEq, Inhabited

namespace Fault

/-- The place of the fault. -/
def span : Fault → Span
  | declaration fault => fault.span
  | extension fault => fault.span
  | lookup fault => fault.span
  | call fault => fault.span

/-- The wording of the fault. -/
def message : Fault → String
  | declaration fault => fault.message
  | extension fault => fault.message
  | lookup fault => fault.message
  | call fault => fault.message

/-- The note made of the fault, of which `Fault.span` is the place. -/
def diagnostic : Fault → Diagnostic
  | declaration fault => fault.diagnostic
  | extension fault => fault.diagnostic
  | lookup fault => fault.diagnostic
  | call fault => fault.diagnostic

end Fault

end ExtensionMembers
