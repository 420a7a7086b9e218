import ExtensionMembers.Fault.Diagnostic

/-!
# Faults of calls

The arguments of a call do not fit the parameters of its target.

* `CallFault.message`, `CallFault.diagnostic`: the wording and the note.

## References

- Specification, §4.4, Argument Binder, and §7.1, Error stack (`BindingError`)
-/

namespace ExtensionMembers

/-- The ways in which arguments can fail to fit parameters; `place` and `slotOf` say which
applies. -/
inductive CallFault.Cause where
  /-- An argument without a name comes after one with a name. -/
  | positionalAfterNamed
  /-- No parameter has the name of the argument. -/
  | unknownParameter (name : String)
  /-- The parameter has an argument already. -/
  | duplicateArgument (name : String)
  /-- The parameter has neither an argument nor a default. -/
  | missingArgument (name : String)
  /-- There are more positional arguments than parameters. -/
  | tooManyArguments (expected found : Nat)
deriving DecidableEq, Inhabited

/-- A call whose arguments do not fit, the `BindingError` of the specification (§4.4). -/
structure CallFault where
  /-- The place: that of the argument, or of the call if an argument is missing. -/
  span : Span
  /-- Why they do not fit. -/
  cause : CallFault.Cause
deriving DecidableEq, Inhabited

namespace CallFault

/-- The wording for a cause. -/
def Cause.text : Cause → String
  | positionalAfterNamed => "positional argument follows a named argument"
  | unknownParameter name => "no parameter named '" ++ name ++ "'"
  | duplicateArgument name => "parameter '" ++ name ++ "' is bound more than once"
  | missingArgument name => "no argument given for required parameter '" ++ name ++ "'"
  | tooManyArguments expected found =>
    "expected at most " ++ toString expected ++ " argument(s), found " ++ toString found

/-- The wording of the fault. -/
def message (fault : CallFault) : String := "at " ++ fault.span.text ++ ": " ++ fault.cause.text

/-- The note made of the fault, of kind `DiagnosticKind.argumentMismatch`. -/
def diagnostic (fault : CallFault) : Diagnostic :=
  ⟨.argumentMismatch, fault.span, [], fault.message⟩

end CallFault

end ExtensionMembers
