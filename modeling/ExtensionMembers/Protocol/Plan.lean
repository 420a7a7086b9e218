import ExtensionMembers.Call.Lowering
import ExtensionMembers.Protocol.Steps

/-!
# Lowering protocol uses

A loop and a wait become one call per step of their protocol; an object with initial elements
becomes one call of `Add` per element. The prelude evaluates the subject, then the arguments of
the elements in order.

* `ProtocolMatch.iterationPlan`, `ProtocolMatch.awaitPlan`: the calls of the steps found.
* `Registry.lowerAdd`: the call for one element.
* `Registry.lowerProtocol`: the lowered use with its diagnostics.

## References

- Specification, §4.5, Lowering / Rewriter (`IterationPlan`, `AwaitPlan`, `CollectionInitPlan`)
-/

namespace ExtensionMembers

/-- The calls of a loop, the `IterationPlan` of the specification (§4.5). -/
structure IterationPlan where
  /-- Gets the enumerator from the subject. -/
  getEnumerator : CallForm
  /-- Goes to the next element, if there is one. -/
  moveNext : CallForm
  /-- Reads the element. -/
  current : CallForm
  /-- Gives the enumerator up, if it can be. -/
  dispose : Option CallForm
  /-- Goes back to the start, if the enumerator can. -/
  reset : Option CallForm
deriving DecidableEq, Inhabited

/-- The calls of a wait, the `AwaitPlan` of the specification (§4.5). -/
structure AwaitPlan where
  /-- Gets the awaiter from the subject. -/
  getAwaiter : CallForm
  /-- Reads whether the wait is over. -/
  isCompleted : CallForm
  /-- Gets the result. -/
  getResult : CallForm
  /-- Registers what runs when the wait is over. -/
  onCompleted : CallForm
deriving DecidableEq, Inhabited

/-- The calls of a protocol use, the engine's `ProtocolPlan`. -/
inductive ProtocolPlan where
  /-- A loop. -/
  | iteration (plan : IterationPlan)
  /-- A wait. -/
  | await (plan : AwaitPlan)
  /-- One call per initial element, the `CollectionInitPlan` of the specification (§4.5). -/
  | addElements (adds : List CallForm)
  /-- A use that failed. -/
  | error
deriving DecidableEq, Inhabited

/-- A lowered protocol use, the engine's `LoweredProtocol`. -/
structure LoweredProtocol where
  /-- The use. -/
  site : SiteId
  /-- The temporaries, in the order of evaluation. -/
  prelude : List Temp
  /-- The calls. -/
  plan : ProtocolPlan
deriving DecidableEq, Inhabited

/-- The kind of use that a step makes of its member. -/
def ProtocolStep.kind (step : ProtocolStep) : AccessKind :=
  if step.category = .property then .get else .invoke

namespace ProtocolMatch

/-- The engine's `step_form`: the call of the step with a name, with the receiver and arguments as
they are. Nothing is bound. -/
def form? (found : ProtocolMatch) (name : String) (receiver : Operand) (args : List Operand) :
    Option CallForm :=
  (found.step? name).map fun found =>
    .ofResolution found.step.kind (some receiver) args found.resolution

/-- The call of a step that has to be there: `form?`, or `CallForm.error`. -/
def form (found : ProtocolMatch) (name : String) (receiver : Operand) (args : List Operand) :
    CallForm :=
  (found.form? name receiver args).getD .error

/-- The engine's `lower_iteration`: the calls of a loop over the value of a temporary. -/
def iterationPlan (found : ProtocolMatch) (subject : TempId) : IterationPlan where
  getEnumerator := found.form "GetEnumerator" (.temp subject) []
  moveNext := found.form "MoveNext" (.slot .enumerator) []
  current := found.form "Current" (.slot .enumerator) []
  dispose := found.form? "Dispose" (.slot .enumerator) []
  reset := found.form? "Reset" (.slot .enumerator) []

/-- The engine's `lower_await`: the calls of a wait for the value of a temporary. -/
def awaitPlan (found : ProtocolMatch) (subject : TempId) : AwaitPlan where
  getAwaiter := found.form "GetAwaiter" (.temp subject) []
  isCompleted := found.form "IsCompleted" (.slot .awaiter) []
  getResult := found.form "GetResult" (.slot .awaiter) []
  onCompleted := found.form "OnCompleted" (.slot .awaiter) [.slot .continuation]

/-- The calls of a protocol for the value of a temporary. -/
def plan (found : ProtocolMatch) (protocol : Protocol) (subject : TempId) : ProtocolPlan :=
  match protocol with
  | .iteration => .iteration (found.iterationPlan subject)
  | .await => .await (found.awaitPlan subject)

end ProtocolMatch

/-- The engine's `COLLECTION_ADD`, the member that adds an initial element. -/
def addName : String := "Add"

namespace ProtocolSite

/-- The initial elements, with their arguments. -/
def elements (site : ProtocolSite) : List (List Argument) :=
  match site.construct with
  | .addElements elements => elements
  | .iterate | .await => []

/-- What the prelude evaluates, in order: the subject, then the arguments of the `elements`. -/
def sources (site : ProtocolSite) : List TempSource :=
  .receiver site.subject :: site.elements.flatMap argumentSources

/-- The use that adds an element with these arguments, on its own. -/
def addSite (site : ProtocolSite) (args : List Argument) : AccessSite where
  id := site.id
  span := site.span
  scope := site.scope
  access := .onValue site.subject site.type
  member := addName
  shape := .invoke args

end ProtocolSite

/-- Lists, each with the number of items before it, counted on from `first`. -/
def withStarts {α : Type} (first : Nat) : List (List α) → List (List α × Nat)
  | [] => []
  | items :: rest => (items, first) :: withStarts (first + items.length) rest

namespace Registry

/-- The call of the member that a use resolved to, with the arguments bound to the parameters
(`bind`) and their temporaries numbered from `first` on, or what is noted in its place. Where no
member is found, nothing is noted but what `lookupFault?` gives. -/
def addForm (registry : Registry) (site : AccessSite) (resolution : Resolution) (first : Nat) :
    Except Report CallForm :=
  match resolution.member? with
  | none =>
    -- Unlike `siteFault`, this has nothing to put in the place of a fault that is not there.
    let fault? := registry.lookupFault? (.ofSite site) site.span resolution
    .error ⟨fault?.toList.map (·.diagnostic)⟩
  | some member =>
    match bind member.params site.shape.args site.span with
    | .error fault => .error ⟨[fault.diagnostic]⟩
    | .ok slots => .ok (.ofResolution .invoke (some (.temp ⟨0⟩))
        (slots.map (·.operand first)) resolution)

/-- The engine's `lower_collection_add`: the call for one initial element, with its diagnostics; the
subject is temporary 0. -/
def lowerAdd (registry : Registry) (site : ProtocolSite) (element : List Argument × Nat) :
    CallForm × Report :=
  let add := site.addSite element.1
  let resolution := registry.resolve (.ofSite add) (registry.chain site.scope)
  match registry.addForm add resolution element.2 with
  | .ok form => (form, .empty)
  | .error report => (.error, report)

/-- The calls of a loop or a wait (`discover`, then `ProtocolMatch.plan`), with the diagnostics; the
subject is temporary 0. -/
def lowerSteps (registry : Registry) (site : ProtocolSite) (protocol : Protocol) :
    ProtocolPlan × Report :=
  match registry.discover protocol site.type (registry.chain site.scope) site.span with
  | .ok found => (found.plan protocol ⟨0⟩, .empty)
  | .error fault => (.error, ⟨[fault.diagnostic]⟩)

/-- The calls of a protocol use, with the diagnostics: `lowerSteps`, or `lowerAdd` for each
element. -/
def planOf (registry : Registry) (site : ProtocolSite) : ProtocolPlan × Report :=
  match site.construct with
  | .iterate => registry.lowerSteps site .iteration
  | .await => registry.lowerSteps site .await
  | .addElements elements =>
    -- The subject is temporary 0, so the arguments count from 1.
    let adds := (withStarts 1 elements).map (registry.lowerAdd site)
    (.addElements (adds.map (·.1)), .concat (adds.map (·.2)))

/-- The engine's `lower_protocol`: a protocol use lowered, with its diagnostics. -/
def lowerProtocol (registry : Registry) (site : ProtocolSite) : LoweredProtocol × Report :=
  let planned := registry.planOf site
  (⟨site.id, prelude site.sources, planned.1⟩, planned.2)

/-- The engine's `run_protocols`: protocol uses lowered one by one, with their diagnostics in the
same order. -/
def lowerProtocols (registry : Registry) (sites : List ProtocolSite) :
    List LoweredProtocol × Report :=
  let lowered := sites.map registry.lowerProtocol
  (lowered.map (·.1), .concat (lowered.map (·.2)))

end Registry

end ExtensionMembers
