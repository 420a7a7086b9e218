import ExtensionMembers.Decimal.Positional
import ExtensionMembers.Text.Quoted

/-!
# Constants

A constant is a value known at compile time; parameters take them as defaults.

* `Constant.text`: the written form of a constant.
* `Constant.sameValue`: whether two constants are the same value.

## References

- Specification, §2.1, Workspace layout (`ConstantValue`)
-/

namespace ExtensionMembers

/-- A value known at compile time, the engine's `ConstantValue`. -/
inductive Constant where
  /-- The absent reference. -/
  | null
  /-- A truth value. -/
  | bool (value : Bool)
  /-- A 64-bit integer. -/
  | int (value : Int64)
  /-- A double-precision number. -/
  | double (value : Binary64)
  /-- A text. -/
  | string (value : String)
deriving DecidableEq, Inhabited

namespace Constant

/-- The written form of a constant. -/
def text : Constant → String
  | null => "null"
  | bool value => if value then "true" else "false"
  | int value => toString value.toInt
  | double value => value.text
  | string value => Text.quote value

/-- Whether two constants are the same value; doubles are compared by `Binary64.sameNumber`. -/
def sameValue : Constant → Constant → Bool
  | double first, double second => first.sameNumber second
  | first, second => first = second

end Constant

end ExtensionMembers
