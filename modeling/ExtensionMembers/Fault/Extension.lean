import ExtensionMembers.Fault.Diagnostic

/-!
# Faults of extensions

An extension has to extend one declared type that is neither a delegate nor an extension, and its
members have to suit that type. Each rule has a cause of its own.

* `ExtensionFault.Cause`: the ways to break a rule.
* `ExtensionFault.message`, `ExtensionFault.diagnostic`: the wording and the note.

## References

- Specification, §4.6, Extended-Type Validator, and §7.1, Error stack (`ValidationError`)
-/

namespace ExtensionMembers

/-- The ways in which an extension can break a rule; `Registry.extensionFaults` finds them. -/
inductive ExtensionFault.Cause where
  /-- The extended type is a pointer. -/
  | pointerType
  /-- The extended type is an array. -/
  | arrayType
  /-- The extended type is a type parameter. -/
  | typeParameter (name : String)
  /-- The extended type is the dynamic type. -/
  | dynamicType
  /-- The extended type is a delegate. -/
  | delegateType (target : QualifiedName)
  /-- The extended type is that of an extension. -/
  | extensionType (target : QualifiedName)
  /-- The extended type, as written, is none. -/
  | unknownType (name : String)
  /-- The extended type, as written, is several. -/
  | ambiguousType (name : String)
  /-- No type is named. -/
  | missingType
  /-- A member declares a receiver. -/
  | receiverParameter (member : String)
  /-- An instance member is attached to a type with static members only. -/
  | instanceInStaticOnly (member : String)
  /-- A member with a foreign function is not static. -/
  | foreignInstance (member : String)
deriving DecidableEq, Inhabited

/-- A rule broken by an extension, the `ValidationError` of the specification (§4.6). -/
structure ExtensionFault where
  /-- The extension. -/
  extension : QualifiedName
  /-- The place. -/
  span : Span
  /-- How the rule is broken. -/
  cause : ExtensionFault.Cause
deriving DecidableEq, Inhabited

namespace ExtensionFault

/-- The kind of diagnostic for a cause. -/
def Cause.kind : Cause → DiagnosticKind
  | pointerType | arrayType | typeParameter _ | dynamicType | delegateType _ | extensionType _
  | unknownType _ | ambiguousType _ => .extendedTypeInvalid
  | missingType => .extendedTypeMissing
  | receiverParameter _ => .receiverDeclared
  | instanceInStaticOnly _ => .instanceInStaticOnly
  | foreignInstance _ => .foreignInstance

/-- The wording for a cause in the extension with the given name. -/
def Cause.text (extension : String) : Cause → String
  | pointerType => "'" ++ extension ++ "' cannot extend a pointer type"
  | arrayType => "'" ++ extension ++ "' cannot extend an array type"
  | typeParameter name => "'" ++ extension ++ "' cannot extend type parameter '" ++ name ++ "'"
  | dynamicType => "'" ++ extension ++ "' cannot extend the dynamic type"
  | delegateType target =>
    "'" ++ extension ++ "' cannot extend delegate type '" ++ target.text ++ "'"
  | extensionType target =>
    "'" ++ extension ++ "' cannot extend augmentation '" ++ target.text ++ "'"
  | unknownType name => "'" ++ extension ++ "' extends unknown type '" ++ name ++ "'"
  | ambiguousType name => "'" ++ extension ++ "' extends '" ++ name ++ "', which is ambiguous"
  | missingType => "'" ++ extension ++ "' does not name a type to extend"
  | receiverParameter member =>
    "'" ++ member ++ "' in '" ++ extension ++ "' must not declare a receiver parameter"
  | instanceInStaticOnly member =>
    "'" ++ extension ++ "' extends a static type and cannot declare instance member '"
      ++ member ++ "'"
  | foreignInstance member =>
    "foreign binding '" ++ member ++ "' in '" ++ extension ++ "' must be static"

/-- The kind of diagnostic for the fault. -/
def kind (fault : ExtensionFault) : DiagnosticKind := fault.cause.kind

/-- The wording of the fault. -/
def message (fault : ExtensionFault) : String :=
  "at " ++ fault.span.text ++ ": " ++ fault.cause.text fault.extension.text

/-- The note made of the fault; it names the extension. -/
def diagnostic (fault : ExtensionFault) : Diagnostic :=
  ⟨fault.kind, fault.span, [fault.extension], fault.message⟩

end ExtensionFault

end ExtensionMembers
