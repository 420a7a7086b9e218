import ExtensionMembers.Call.Binding
import ExtensionMembers.Lookup.Resolution

/-!
# Call forms

A use of a member is lowered to a prelude of temporaries, evaluated in order, and a call form that
refers to them. Members of extensions become static calls on the extension's own type, with the
receiver as first argument and an assigned value as last.

* `Temp`, `prelude`: temporaries and how they are numbered.
* `CallTarget.ofMember`: the static entry point of a member of an extension.
* `CallForm.ofResolution`: the call of a resolved member.

## References

- Specification, §4.5, Lowering / Rewriter (`CallForm`)
-/

namespace ExtensionMembers

/-- A value produced while a protocol runs, the protocol slots of the specification (§4.5). -/
inductive ProtocolSlot where
  /-- The value that the construct is about. -/
  | subject
  /-- The enumerator of a loop. -/
  | enumerator
  /-- The awaiter of a wait. -/
  | awaiter
  /-- What runs when a wait is over. -/
  | continuation
deriving DecidableEq, Inhabited

/-- A temporary, numbered within its prelude, the `TempId` of the specification (§4.5). -/
structure TempId where
  /-- The position in the prelude. -/
  index : Nat
deriving DecidableEq, Inhabited

/-- What a temporary holds, the engine's `TempSource`. -/
inductive TempSource where
  /-- The receiver. -/
  | receiver (expr : ExprId)
  /-- An argument. -/
  | argument (expr : ExprId)
  /-- An assigned value. -/
  | assigned (expr : ExprId)
deriving DecidableEq, Inhabited

/-- A temporary with what it holds. -/
structure Temp where
  /-- The number. -/
  id : TempId
  /-- What it holds. -/
  source : TempSource
deriving DecidableEq, Inhabited

/-- The temporaries that hold some values, numbered in order; the engine's `PreludeBuilder` pushes
them one by one. -/
def prelude (sources : List TempSource) : List Temp :=
  sources.zipIdx.map fun source => ⟨⟨source.2⟩, source.1⟩

/-- The temporaries of a `prelude` are numbered in order, without gaps. -/
theorem map_id_prelude (sources : List TempSource) :
    (prelude sources).map (·.id.index) = List.range sources.length := by
  rw [prelude, List.map_map, List.range_eq_range']
  exact List.zipIdx_map_snd 0 sources

/-- A prelude evaluates its sources in order. -/
@[simp]
theorem map_source_prelude (sources : List TempSource) :
    (prelude sources).map (·.source) = sources := by
  rw [prelude, List.map_map]
  exact List.zipIdx_map_fst 0 sources

/-- The values of some arguments (`TempSource.argument`), in the order written. -/
def argumentSources (args : List Argument) : List TempSource :=
  args.map fun arg => .argument arg.value

/-- A value passed to a call, the engine's `Operand`. -/
inductive Operand where
  /-- A temporary. -/
  | temp (id : TempId)
  /-- The default of a parameter. -/
  | default (value : Constant)
  /-- Temporaries gathered by the last parameter. -/
  | sequence (ids : List TempId)
  /-- A value produced while a protocol runs. -/
  | slot (slot : ProtocolSlot)
deriving DecidableEq, Inhabited

/-- The operand for what fills a parameter, where the temporaries of the arguments are numbered from
`first` on: the number of an argument is `first` and its position. -/
def BoundSlot.operand (first : Nat) : BoundSlot → Operand
  | argument index => .temp ⟨first + index⟩
  | default value => .default value
  | gathered indices => .sequence (indices.map fun index => ⟨first + index⟩)

/-- A static entry point on the own type of an extension, the engine's `CallTarget`; the receiver
counts as a parameter. -/
structure CallTarget where
  /-- The own type of the extension. -/
  owner : TypeHash
  /-- The name of the extension. -/
  ownerName : QualifiedName
  /-- The symbol of the entry point. -/
  symbol : String
  /-- The types of the parameters. -/
  params : List TypeRef
  /-- The type of the result. -/
  result : TypeRef
deriving DecidableEq, Inhabited

namespace CallTarget

/-- The engine's `for_member`: the entry point of a member of an extension for one kind of use. An
assigned value comes after the declared parameters, and nothing is returned then. -/
def ofMember (extension : Extension) (member : Member) (kind : AccessKind) : CallTarget :=
  let receiver := if member.isStatic then [] else [extension.extended.getD .void]
  let declared := member.params.map (·.type)
  let assigns := kind.accessor? = some .set
  { owner := extension.hash
    ownerName := extension.name
    symbol := kind.symbol member.name
    params := receiver ++ declared ++ if assigns then [member.result] else []
    result := if assigns then .void else member.result }

end CallTarget

/-- The final form of the use of a member, the `CallForm` of the specification (§4.5). -/
inductive CallForm where
  /-- The use of a member that a type declares, `Real`. -/
  | declared (owner : TypeHash) (member : String) (kind : AccessKind)
      (receiver : Option Operand) (args : List Operand)
  /-- A static call; the receiver, if there is one, is the first argument. -/
  | static (target : CallTarget) (args : List Operand)
  /-- A call of a foreign function. -/
  | foreign (target : CallTarget) (entry : ForeignImport) (args : List Operand)
  /-- A delegate, bound to the receiver if there is one. -/
  | delegate (target : CallTarget) (receiver : Option Operand)
  /-- A use that failed. -/
  | error
deriving DecidableEq, Inhabited

namespace CallForm

/-- Whether the use failed. -/
def isError (form : CallForm) : Bool := form = error

/-- The entry point called. -/
def target? : CallForm → Option CallTarget
  | static target _ | foreign target _ _ | delegate target _ => some target
  | declared .. | error => none

/-- The use of a member that an extension supplies, with the operands of its parameters. -/
def ofSupplied (extension : Extension) (member : Member) (kind : AccessKind)
    (receiver : Option Operand) (args : List Operand) : CallForm :=
  let target := CallTarget.ofMember extension member kind
  let receiver := if member.isStatic then none else receiver
  if kind = .methodGroup then delegate target receiver
  else match member.foreign with
    | some entry => foreign target entry (receiver.toList ++ args)
    | none => static target (receiver.toList ++ args)

/-- The engine's `call_form`: the call of a resolved member with these operands. -/
def ofResolution (kind : AccessKind) (receiver : Option Operand) (args : List Operand) :
    Resolution → CallForm
  | .declared owner member => declared owner.hash member.name kind receiver args
  | .supplied extension member => ofSupplied extension member kind receiver args
  | .ambiguous _ | .notFound => error

end CallForm

namespace Registry

/-- The text of a type reference. -/
def typeText (registry : Registry) : TypeRef → String
  | .void => "void"
  | .named hash => ((registry.typeName? hash).map (·.text)).getD hash.text
  | .pointer target => registry.typeText target ++ "*"
  | .array element => registry.typeText element ++ "[]"
  | .parameter name => name
  | .dynamic => "dynamic"
  | .unresolved name _ => name

/-- The signature of an entry point. -/
def targetText (registry : Registry) (target : CallTarget) : String :=
  target.ownerName.text ++ "." ++ target.symbol ++ "("
    ++ ", ".intercalate (target.params.map registry.typeText) ++ ")"

end Registry

end ExtensionMembers
