/-!
# Double-precision numbers by their bits

A double is kept as its 64 bits: a sign, an exponent of 11 bits and a fraction of 52 bits. A
finite double of either sign has the magnitude `significand * 2 ^ scale`.

* `Binary64.significand`, `Binary64.scale`: the magnitude of a finite double.
* `Binary64.sameNumber`: equality of numbers, with all NaNs equal and the two zeros equal.
-/

namespace ExtensionMembers

/-- A double-precision number, by its bits. -/
structure Binary64 where
  /-- The bits: sign, exponent, fraction. -/
  bits : UInt64
deriving DecidableEq, Inhabited

namespace Binary64

/-- Whether the sign bit is set. -/
def isNegative (x : Binary64) : Bool := x.bits >>> 63 != 0

/-- The 11 bits of the exponent. -/
def exponentField (x : Binary64) : Nat := ((x.bits >>> 52) &&& 0x7FF).toNat

/-- The 52 bits of the fraction. -/
def fractionField (x : Binary64) : Nat := (x.bits &&& 0xFFFFFFFFFFFFF).toNat

/-- Whether this is one of the encodings that stand for no number. -/
def isNaN (x : Binary64) : Bool := x.exponentField == 0x7FF && x.fractionField != 0

/-- Whether this is an infinity. -/
def isInfinite (x : Binary64) : Bool := x.exponentField == 0x7FF && x.fractionField == 0

/-- Whether this is one of the two zeros. -/
def isZero (x : Binary64) : Bool := x.exponentField == 0 && x.fractionField == 0

/-- The integer significand of a finite double. -/
def significand (x : Binary64) : Nat :=
  if x.exponentField = 0 then x.fractionField else Nat.pow 2 52 + x.fractionField

/-- The power of two that scales the significand of a finite double. -/
def scale (x : Binary64) : Int :=
  if x.exponentField = 0 then -1074 else (x.exponentField : Int) - 1075

/-- Whether the gap to the next smaller magnitude is half of the gap to the next larger one. -/
def hasNarrowGapBelow (x : Binary64) : Bool := x.fractionField == 0 && x.exponentField > 1

/-- Whether two doubles are the same number; all NaNs count as one, and so do the two zeros. -/
def sameNumber (x y : Binary64) : Bool :=
  x == y || (x.isNaN && y.isNaN) || (x.isZero && y.isZero)

end Binary64

end ExtensionMembers
