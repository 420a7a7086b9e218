import ExtensionMembers.Fault.Extension
import ExtensionMembers.Registry.Basic

/-!
# What extensions may do

An extension extends one declared type that is neither a delegate nor an extension. Its members
declare no receiver, those with a foreign function are static, and so are all if the extended type
has static members only.

* `Registry.extensionFaults`: the rules that an extension breaks, one fault for each time.

## References

- Specification, §4.6, Extended-Type Validator (`validate`)
-/

namespace ExtensionMembers

/-- What is wrong with extending a type of some kind: a delegate or the own type of an extension. -/
def NamedType.extensionCause? (type : NamedType) : Option ExtensionFault.Cause :=
  match type.kind with
  | .delegate => some (.delegateType type.name)
  | .extension => some (.extensionType type.name)
  | _ => none

namespace Registry

/-- The engine's `check_extended_type`: what is wrong with the extended type. Nothing is said about
a type that is not registered. -/
def targetCause? (registry : Registry) : Option TypeRef → Option ExtensionFault.Cause
  | none => some .missingType
  | some (.pointer _) => some .pointerType
  | some (.array _) => some .arrayType
  | some (.parameter name) => some (.typeParameter name)
  | some .dynamic => some .dynamicType
  | some (.unresolved name true) => some (.ambiguousType name)
  | some (.unresolved name false) => some (.unknownType name)
  | some .void => some (.unknownType "void")
  | some (.named hash) => (registry.type? hash).bind (·.extensionCause?)

end Registry

/-- What is wrong with the parameters of a member: the first one is marked as the receiver. -/
def Member.receiverCause? (member : Member) : Option ExtensionFault.Cause :=
  if member.params.head?.any (·.isReceiver) then some (.receiverParameter member.name) else none

/-- What is wrong with a member that is not static. -/
def Member.instanceCause? (staticOnly : Bool) (member : Member) : Option ExtensionFault.Cause :=
  if member.isStatic then none
  else if member.foreign.isSome then some (.foreignInstance member.name)
  else if staticOnly then some (.instanceInStaticOnly member.name)
  else none

/-- What is wrong with a member of an extension, one turn of the loop of the engine's
`check_members`: `Member.receiverCause?`, then `Member.instanceCause?`. -/
def Extension.memberFaults (extension : Extension) (member : Member) : List ExtensionFault :=
  (member.receiverCause?.toList ++ (member.instanceCause? extension.isStaticOnly).toList).map
    fun cause => ⟨extension.name, member.span, cause⟩

/-- The engine's `validate_unit` (specification, §4.6): the rules that an extension breaks, the one
on its extended type (`targetCause?`) first, then those on its members in order. -/
def Registry.extensionFaults (registry : Registry) (extension : Extension) :
    List ExtensionFault :=
  (registry.targetCause? extension.extended).toList.map
      (fun cause => ⟨extension.name, extension.span, cause⟩)
    ++ extension.members.flatMap extension.memberFaults

end ExtensionMembers
