import ExtensionMembers.Text.Hex
import ExtensionMembers.Text.Unprintable

/-!
# Quoted text

A quoted text stands between double quotes. A quote, a backslash, and the tab, newline, return
and null characters are written as a backslash with a letter; any other unprintable character is
written as its code point in hexadecimal between braces; all else stands for itself.

* `escapeLetter?`: the letter after the backslash, for the characters that have one.
* `quote`: the quoted form of a text.
-/

namespace ExtensionMembers.Text

/-- The letter that follows the backslash in the escape of a character. -/
def escapeLetter? : Char → Option Char
  | '"' => some '"'
  | '\\' => some '\\'
  | '\t' => some 't'
  | '\n' => some 'n'
  | '\r' => some 'r'
  | '\x00' => some '0'
  | _ => none

/-- The escape that gives a character by its code point. -/
def escapeCode (char : Char) : List Char :=
  ['\\', 'u', '\x7b'] ++ hexDigits char.toNat ++ ['\x7d']

/-- The written form of one character within quotes. -/
def escapeChar (char : Char) : List Char :=
  match escapeLetter? char with
  | some letter => ['\\', letter]
  | none => if isUnprintable char then escapeCode char else [char]

/-- The quoted form of a text. -/
def quote (text : String) : String :=
  String.ofList ('"' :: text.toList.flatMap escapeChar ++ ['"'])

end ExtensionMembers.Text
