/-
  WRITING STRUCTURED TEXT in its canonical form.

  No blanks, fields in the order of the tree, and in strings only what has to be escaped is: the
  quote, the backslash and the control characters, five of them by a letter.
-/
import Subledger.Json.Basic
import Subledger.Text.Hex

namespace Subledger.Json

open Subledger.Text

/-- One character inside a string. -/
def escaped (c : Char) : List Char :=
  match c with
  | '"' => ['\\', '"']
  | '\\' => ['\\', '\\']
  | '\x08' => ['\\', 'b']
  | '\x0c' => ['\\', 'f']
  | '\n' => ['\\', 'n']
  | '\r' => ['\\', 'r']
  | '\t' => ['\\', 't']
  | c =>
    if c < ' ' then
      ['\\', 'u', '0', '0', Hex.digit (c.toNat / 16), Hex.digit (c.toNat % 16)]
    else [c]

/-- A string between its quotes. -/
def writeString (s : String) : List Char := '"' :: s.toList.flatMap escaped ++ ['"']

/-- A number, plainly. -/
def writeNumber (n : Number) : List Char :=
  (if n.negative then ['-'] else []) ++ n.whole ++
    (if n.fraction.isEmpty then [] else '.' :: n.fraction) ++
    match n.exponent with
    | none => []
    | some e => 'e' :: (if e < 0 then ['-'] else []) ++ Digits.ofNat e.natAbs

mutual

/-- The characters of a value.  What could not be read cannot be written: a fault is empty. -/
def writeValue : Value → List Char
  | .null => "null".toList
  | .bool true => "true".toList
  | .bool false => "false".toList
  | .number n => writeNumber n
  | .text s => writeString s
  | .array items => '[' :: writeItems true items
  | .object fields => '{' :: writeFields true fields
  | .garbled => []
  | .fault => []

/-- The characters of a list's values from behind the opening bracket. -/
def writeItems (first : Bool) : Items → List Char
  | .close => [']']
  | .fault => []
  | .item v rest => (if first then [] else [',']) ++ writeValue v ++ writeItems false rest

/-- The characters of a record's fields from behind the opening brace. -/
def writeFields (first : Bool) : Fields → List Char
  | .close => ['}']
  | .fault => []
  | .garbled _ _ => []
  | .field name v rest =>
    (if first then [] else [',']) ++ writeString name ++ ':' :: writeValue v ++
      writeFields false rest

end

/-- The text of a value. -/
def write (v : Value) : String := String.ofList (writeValue v)

end Subledger.Json
