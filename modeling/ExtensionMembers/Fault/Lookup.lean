import ExtensionMembers.Fault.Diagnostic
import ExtensionMembers.Member.Basic

/-!
# Faults of look-ups

A use of a member fails when several extensions supply it, when nothing does, or when the member
cannot be used in that way.

* `LookupFault.message`, `LookupFault.diagnostic`: the wording and the note.

## References

- Specification, §7.1, Error stack (`ResolutionError`)
-/

namespace ExtensionMembers

/-- The ways in which the use of a member can fail; `Registry.lookupFault?` and `Registry.formOf`
say which applies. -/
inductive LookupFault.Cause where
  /-- Several extensions of equal rank supply the member. -/
  | ambiguous (member : String) (extensions : List QualifiedName)
  /-- The type has no such member for this number of arguments. -/
  | notFound (type : QualifiedName) (member : String) (arity : Nat)
  /-- The member cannot be read, or cannot be assigned. -/
  | accessorMissing (member : String) (accessor : Accessor)
deriving DecidableEq, Inhabited

/-- A use of a member that fails, the `ResolutionError` of the specification (§7.1). -/
structure LookupFault where
  /-- The place. -/
  span : Span
  /-- Why it fails. -/
  cause : LookupFault.Cause
deriving DecidableEq, Inhabited

namespace LookupFault

/-- The kind of diagnostic for the fault. -/
def kind (fault : LookupFault) : DiagnosticKind :=
  match fault.cause with
  | .ambiguous .. => .memberAmbiguous
  | .notFound .. => .memberNotFound
  | .accessorMissing .. => .accessorMissing

/-- The extensions involved. -/
def extensions (fault : LookupFault) : List QualifiedName :=
  match fault.cause with
  | .ambiguous _ extensions => extensions
  | _ => []

/-- The wording for a cause. -/
def Cause.text : Cause → String
  | ambiguous member extensions =>
    "'" ++ member ++ "' is ambiguous between "
      ++ " and ".intercalate (extensions.map fun name => "'" ++ name.text ++ "'")
  | notFound type member arity =>
    "'" ++ type.text ++ "' has no member '" ++ member ++ "' taking " ++ toString arity
      ++ " argument(s)"
  | accessorMissing member accessor =>
    "'" ++ member ++ "' has no " ++ accessor.text ++ " accessor"

/-- The wording of the fault. -/
def message (fault : LookupFault) : String := "at " ++ fault.span.text ++ ": " ++ fault.cause.text

/-- The note made of the fault. -/
def diagnostic (fault : LookupFault) : Diagnostic :=
  ⟨fault.kind, fault.span, fault.extensions, fault.message⟩

end LookupFault

end ExtensionMembers
