import ExtensionMembers.Decimal.Binary64

/-!
# The fewest digits that identify a double

The reals that round to a given double form an interval around it, whose ends belong to it exactly
when the significand is even. The shortest decimal of a double is the decimal with the fewest
digits in that interval, the nearest one where several have as few, and the larger one at a tie.
All arithmetic is exact, on naturals.

* `Binary64.readsBack`: whether a decimal lies in the interval of a double.
* `Binary64.shortest`: the shortest decimal of a double.
-/

namespace ExtensionMembers

/-- The number `digits * 10 ^ exponent`. -/
structure Decimal where
  /-- The digits, read as a number. -/
  digits : Nat
  /-- The power of ten. -/
  exponent : Int
deriving DecidableEq, Inhabited

namespace Decimal

/-- Compares `digits * 10 ^ exponent` with `count * 2 ^ power`. -/
def compareBinary (decimal : Decimal) (count : Nat) (power : Int) : Ordering :=
  compare (decimal.digits * Nat.pow 10 decimal.exponent.toNat * Nat.pow 2 (-power).toNat)
    (count * Nat.pow 2 power.toNat * Nat.pow 10 (-decimal.exponent).toNat)

end Decimal

namespace Binary64

/-- The lower end of the interval of a double, in quarters of its unit. -/
def lowerEnd (x : Binary64) : Nat :=
  -- Halfway to the next smaller double, which is half as far away at a power of two.
  if x.hasNarrowGapBelow then 4 * x.significand - 1 else 4 * x.significand - 2

/-- The upper end of the interval of a double, in quarters of its unit. -/
def upperEnd (x : Binary64) : Nat := 4 * x.significand + 2

/-- Whether a decimal lies among the reals that round to this double. -/
def readsBack (x : Binary64) (decimal : Decimal) : Bool :=
  let lower := decimal.compareBinary x.lowerEnd (x.scale - 2)
  let upper := decimal.compareBinary x.upperEnd (x.scale - 2)
  let closed := x.significand % 2 == 0
  (lower == .gt || (closed && lower == .eq)) && (upper == .lt || (closed && upper == .eq))

/-- The number of digits before the decimal point of a nonzero double: the least `k` with
`significand * 2 ^ scale < 10 ^ k`. The binary logarithm gives it up to two steps. -/
def magnitude (x : Binary64) : Int :=
  -- The fraction is just above the decimal logarithm of 2.
  let estimate := ((x.significand.log2 : Int) + x.scale) * 30103 / 100000
  let exceeds (k : Int) : Bool :=
    (Decimal.mk 1 k).compareBinary x.significand x.scale == .gt
  if exceeds estimate then estimate
  else if exceeds (estimate + 1) then estimate + 1
  else estimate + 2

/-- The decimal of a double on the grid of the multiples of `10 ^ exponent`, if a neighbour of the
double on that grid reads back: the nearer one if both do, and the larger one at a tie. -/
def onGrid? (x : Binary64) (exponent : Int) : Option Decimal :=
  let numerator := x.significand * Nat.pow 2 x.scale.toNat * Nat.pow 10 (-exponent).toNat
  let denominator := Nat.pow 2 (-x.scale).toNat * Nat.pow 10 exponent.toNat
  let below : Decimal := ⟨numerator / denominator, exponent⟩
  let above : Decimal := ⟨numerator / denominator + 1, exponent⟩
  match x.readsBack below, x.readsBack above with
  | true, true =>
    if 2 * numerator < (below.digits + above.digits) * denominator then some below
    else some above
  | true, false => some below
  | false, true => some above
  | false, false => none

/-- The shortest decimal of a nonzero finite double. Seventeen digits always suffice; were they
not to, the exact value would be returned. -/
def shortest (x : Binary64) : Decimal :=
  let magnitude := x.magnitude
  let found := (List.range 17).findSome? fun (count : Nat) =>
    x.onGrid? (magnitude - (count + 1))
  found.getD
    ⟨x.significand * Nat.pow 2 x.scale.toNat * Nat.pow 5 (-x.scale).toNat, min x.scale 0⟩

end Binary64

end ExtensionMembers
