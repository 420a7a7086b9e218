/-!
# Hexadecimal numerals

* `hexDigits`: the shortest numeral, in lower case.
* `hexWord`: the sixteen digits of a 64-bit word.
-/

namespace ExtensionMembers.Text

/-- The shortest lower-case hexadecimal numeral of a number. -/
def hexDigits (number : Nat) : List Char := Nat.toDigits 16 number

/-- The sixteen hexadecimal digits of a 64-bit word. -/
def hexWord (word : UInt64) : String :=
  let digits := hexDigits word.toNat
  String.ofList (List.replicate (16 - digits.length) '0' ++ digits)

end ExtensionMembers.Text
