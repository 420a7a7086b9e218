import ExtensionMembers.Decimal.Shortest

/-!
# Doubles in positional notation

A double is written with the fewest digits that identify it, always positionally and without a
trailing zero after the point: `0.1`, `1`, `1000000000000000000000`. Zero keeps its sign, and the
values that are no finite number have words of their own.
-/

namespace ExtensionMembers

namespace Decimal

/-- The digits after the point, `count` of them less the trailing zeros. -/
def fractionDigits (number count : Nat) : List Char :=
  let digits := Nat.toDigits 10 number
  let padded := List.replicate (count - digits.length) '0' ++ digits
  (padded.reverse.dropWhile (· == '0')).reverse

/-- A decimal in positional notation. -/
def positional (decimal : Decimal) : List Char :=
  let places := (-decimal.exponent).toNat
  let whole :=
    Nat.toDigits 10 (decimal.digits * Nat.pow 10 decimal.exponent.toNat / Nat.pow 10 places)
  match fractionDigits (decimal.digits % Nat.pow 10 places) places with
  | [] => whole
  | fraction => whole ++ '.' :: fraction

end Decimal

namespace Binary64

/-- The magnitude of a double in words or digits. -/
def magnitudeText (x : Binary64) : String :=
  if x.isInfinite then "inf"
  else if x.isZero then "0"
  else String.ofList x.shortest.positional

/-- A double in positional notation. -/
def text (x : Binary64) : String :=
  if x.isNaN then "NaN"
  else if x.isNegative then "-" ++ x.magnitudeText
  else x.magnitudeText

end Binary64

end ExtensionMembers
