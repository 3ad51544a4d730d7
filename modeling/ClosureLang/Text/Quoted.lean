import ClosureLang.Text.GraphemeExtend
import ClosureLang.Text.Printable

/-!
# Quoted texts

A listing shows a text between double quotes. A character that cannot be told apart when shown, or
that would end the text, is written as an escape: a backslash and a letter for the common control
characters, the quote and the backslash, and the code point in hexadecimal for the rest.
-/

set_option autoImplicit false

namespace ClosureLang.Text

/-- The escape that names a character by its code point, `\u` and the hexadecimal digits in
braces. -/
def codePointEscape (c : Char) : List Char :=
  ['\\', 'u', '\x7b'] ++ Nat.toDigits 16 c.toNat ++ ['\x7d']

/-- How a character is written inside quotes. -/
def quoteChar (c : Char) : List Char :=
  match c with
  | '\x00' => ['\\', '0']
  | '\t' => ['\\', 't']
  | '\r' => ['\\', 'r']
  | '\n' => ['\\', 'n']
  | '\\' => ['\\', '\\']
  | '"' => ['\\', '"']
  | c => if isGraphemeExtend c || !isPrintable c then codePointEscape c else [c]

/-- A text between double quotes. -/
def quote (text : String) : String :=
  String.ofList ('"' :: text.toList.flatMap quoteChar ++ ['"'])

end ClosureLang.Text
