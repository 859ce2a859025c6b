import ObjectPath.Text.Printable

/-!
# Quoted text

`quote s` writes a text in double quotes.  A quote, a backslash and the common controls are written
with a backslash, a character that is not shown as `\u` with its number in braces.
-/

namespace ObjectPath.Text

/-- The number of a character in lower case hexadecimal digits, without leading zeros. -/
def hex (n : Nat) : List Char := Nat.toDigits 16 n

/-- A character as a quoted text writes it. -/
def escape (c : Char) : List Char :=
  match c with
  | '\x00' => ['\\', '0']
  | '\t' => ['\\', 't']
  | '\r' => ['\\', 'r']
  | '\n' => ['\\', 'n']
  | '\\' => ['\\', '\\']
  | '"' => ['\\', '"']
  | c => if isShown c then [c] else ['\\', 'u', '\x7b'] ++ hex c.toNat ++ ['\x7d']

/-- A text in double quotes. -/
def quote (s : String) : String := String.ofList ('"' :: s.toList.flatMap escape ++ ['"'])

end ObjectPath.Text
