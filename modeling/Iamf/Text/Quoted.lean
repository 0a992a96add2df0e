import Iamf.Text.Unprinted

/-!
# `Iamf.Text.Quoted`: a text in quotes, fit for a message

`quote` puts a text in double quotes. Quote and backslash get a backslash, NUL
and the common layout controls their letter, and every other character without
a printed form its number: U+001B becomes a backslash, `u` and `1b` in braces.
All other characters stand as they are.
-/

set_option autoImplicit false

namespace Iamf.Text

/-- The number of a character in braces: lower case hex, no leading zeros. -/
def escapeByNumber (c : Char) : String :=
  "\\u\x7b" ++ String.ofList (Nat.toDigits 16 c.toNat) ++ "\x7d"

/-- How one character is spelled inside quotes. -/
def escape (c : Char) : String :=
  match c with
  | '\x00' => "\\0"
  | '\t' => "\\t"
  | '\n' => "\\n"
  | '\r' => "\\r"
  | '"' => "\\\""
  | '\\' => "\\\\"
  | c => if isUnprinted c then escapeByNumber c else c.toString

/-- A text in double quotes, with escapes. -/
def quote (text : String) : String :=
  "\"" ++ String.join (text.toList.map escape) ++ "\""

end Iamf.Text
