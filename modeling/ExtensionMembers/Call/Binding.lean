import ExtensionMembers.Call.Site
import ExtensionMembers.Fault.Call

/-!
# Binding arguments to parameters

Positional arguments fill the parameters in order and come before the named ones. Where the last
parameter gathers what remains, the positional arguments beyond the other parameters go to it; a
named argument may also address it, and is then passed as it is. A parameter without an argument
takes its default. Arguments are known by their position in the call.

* `Placement`: where the arguments read so far have gone.
* `place`, `placeAll`: the placement with one more argument, and with all.
* `bind`: what fills each parameter.

## References

- Specification, §4.4, Argument Binder (`bind`)
-/

namespace ExtensionMembers

/-- What fills a parameter, the engine's `BoundSlot`. -/
inductive BoundSlot where
  /-- The argument at this position of the call. -/
  | argument (index : Nat)
  /-- The default of the parameter. -/
  | default (value : Constant)
  /-- The arguments gathered by the last parameter, in order. -/
  | gathered (indices : List Nat)
deriving DecidableEq, Inhabited

/-- The position of the last parameter if it gathers the remaining arguments
(`Param.isVariadic`). -/
def tailPosition? (params : List Param) : Option Nat :=
  if hasTail params then some (params.length - 1) else none

/-- The number of parameters that positional arguments fill one by one. -/
def fixedCount (params : List Param) : Nat := (tailPosition? params).getD params.length

/-- The position of the first parameter with a name. -/
def positionOf? (params : List Param) (name : String) : Option Nat :=
  params.findIdx? (·.name = name)

/-- Where the arguments read so far have gone: what the engine's `bind` keeps while it reads
them. -/
structure Placement where
  /-- The filled parameters, each with its argument, by position. -/
  filled : List (Nat × Nat)
  /-- The arguments gathered by the last parameter. -/
  gathered : List Nat
  /-- Whether an argument was named. -/
  named : Bool
deriving DecidableEq, Inhabited

namespace Placement

/-- The placement of no argument. -/
def empty : Placement := ⟨[], [], false⟩

/-- The argument that fills a parameter. -/
def argument? (placement : Placement) (position : Nat) : Option Nat :=
  placement.filled.lookup position

/-- The placement with one more parameter filled. -/
def fill (placement : Placement) (position index : Nat) : Placement :=
  { placement with filled := placement.filled ++ [(position, index)] }

/-- The placement with one more argument gathered. -/
def gather (placement : Placement) (index : Nat) : Placement :=
  { placement with gathered := placement.gathered ++ [index] }

/-- Whether a parameter has an argument, be it by gathering. -/
def isTaken (placement : Placement) (params : List Param) (position : Nat) : Bool :=
  (placement.argument? position).isSome
    || (tailPosition? params == some position && !placement.gathered.isEmpty)

end Placement

/-- The placement with one more positional argument, in a call of `count` arguments. As long as no
argument was named, the next parameter is the one after those that are filled. -/
def placePositional (params : List Param) (count : Nat) (placement : Placement) (index : Nat)
    (span : Span) : Except CallFault Placement :=
  -- The arguments before have filled the first parameters, one each.
  let next := placement.filled.length
  if placement.named then .error ⟨span, .positionalAfterNamed⟩
  else if next < fixedCount params then .ok (placement.fill next index)
  else if hasTail params then .ok (placement.gather index)
  else .error ⟨span, .tooManyArguments params.length count⟩

/-- The placement with one more named argument. -/
def placeNamed (params : List Param) (placement : Placement) (index : Nat) (name : String)
    (span : Span) : Except CallFault Placement :=
  match positionOf? params name with
  | none => .error ⟨span, .unknownParameter name⟩
  | some position =>
    if placement.isTaken params position then .error ⟨span, .duplicateArgument name⟩
    else .ok { placement.fill position index with named := true }

/-- The placement with one more argument, in a call of `count` arguments: `placeNamed` or
`placePositional`. -/
def place (params : List Param) (count : Nat) (placement : Placement) (arg : Argument × Nat) :
    Except CallFault Placement :=
  match arg.1.name with
  | none => placePositional params count placement arg.2 arg.1.span
  | some name => placeNamed params placement arg.2 name arg.1.span

/-- The placement of all arguments by `place`, or the fault of the first one that cannot be
placed. -/
def placeAll (params : List Param) (args : List Argument) : Except CallFault Placement :=
  args.zipIdx.foldlM (place params args.length) .empty

/-- What fills a parameter: its argument (`Placement.argument?`), else what it gathers, else its
default. -/
def slotOf (params : List Param) (placement : Placement) (span : Span) (param : Param × Nat) :
    Except CallFault BoundSlot :=
  match placement.argument? param.2 with
  | some index => .ok (.argument index)
  | none =>
    -- A last parameter that gathers does so even if nothing is left for it.
    if tailPosition? params = some param.2 then .ok (.gathered placement.gathered)
    else match param.1.default with
      | some value => .ok (.default value)
      | none => .error ⟨span, .missingArgument param.1.name⟩

/-- The engine's `bind` (specification, §4.4): what fills each parameter, in declaration order, in a
call at `span`. All arguments are placed (`placeAll`) before any parameter is filled (`slotOf`). -/
def bind (params : List Param) (args : List Argument) (span : Span) :
    Except CallFault (List BoundSlot) := do
  let placement ← placeAll params args
  params.zipIdx.mapM (slotOf params placement span)

end ExtensionMembers
