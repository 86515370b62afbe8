/-
  QUOTED TEXT in messages.

  A message that repeats what the reader typed puts it between double quotes and escapes what
  could mislead: the quote, the backslash, and every character that cannot be seen.  Four
  characters have short names, the others are spelled by their number in braces.
-/
import Subledger.Text.Hex
import Subledger.Text.Unseen

namespace Subledger.Text

/-- One character inside a quoted text. -/
def quoteChar (c : Char) : List Char :=
  match c with
  | '\x00' => ['\\', '0']
  | '\t' => ['\\', 't']
  | '\r' => ['\\', 'r']
  | '\n' => ['\\', 'n']
  | '\\' => ['\\', '\\']
  | '"' => ['\\', '"']
  | c => if isUnseen c then ['\\', 'u', '{'] ++ Hex.ofNat c.toNat ++ ['}'] else [c]

/-- A text between double quotes, with what cannot be seen spelled out. -/
def quoted (s : String) : String :=
  String.ofList ('"' :: s.toList.flatMap quoteChar ++ ['"'])

example : quoted "a\"b" = "\"a\\\"b\"" := by decide +kernel
example : quoted "\u00e9 \u0301x" = "\"\u00e9 \\u\x7b301\x7dx\"" := by decide +kernel

end Subledger.Text
