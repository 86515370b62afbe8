/-
  READING STRUCTURED TEXT.

  The text comes as symbols: characters, and `none` for a byte that belongs to no character, which
  only a string may hold.  `Json.read` gives the tree of a text as far as the text is well formed.

  Each step returns what it read and the text behind it, or no such text when a fault was met: then
  every enclosing list and record breaks off there too.  Of two nested steps at least one takes a
  symbol, so that twice the number of symbols bounds the depth of the recursion.
-/
import Subledger.Json.Basic
import Subledger.Text.Hex
import Subledger.Text.Utf8

namespace Subledger.Json

open Subledger.Text

/-- A character of a text, or a byte that belongs to none. -/
abbrev Symbol := Option Char

/-- The white space between the parts of a document. -/
def isBlankSymbol (s : Symbol) : Bool :=
  s == some ' ' || s == some '\n' || s == some '\t' || s == some '\r'

/-- A text from its first part on. -/
def skipBlanks (cs : List Symbol) : List Symbol := cs.dropWhile isBlankSymbol

/-! ## Strings -/

/-- The sixteen bits that four hexadecimal digits spell. -/
def unitOf (a b c d : Symbol) : Option Nat := do
  let a ← Hex.digitValue? (← a)
  let b ← Hex.digitValue? (← b)
  let c ← Hex.digitValue? (← c)
  let d ← Hex.digitValue? (← d)
  return ((a * 16 + b) * 16 + c) * 16 + d

/-- A unit that begins a surrogate pair. -/
def isHigh (u : Nat) : Bool := 0xD800 ≤ u && u ≤ 0xDBFF

/-- A unit that ends a surrogate pair. -/
def isLow (u : Nat) : Bool := 0xDC00 ≤ u && u ≤ 0xDFFF

/-- The character of a surrogate pair. -/
def pairChar (hi lo : Nat) : Char :=
  Char.ofNat (0x10000 + (hi - 0xD800) * 0x400 + (lo - 0xDC00))

/-- The character that a one-letter escape names. -/
def namedEscape : Char → Option Char
  | '"' => some '"'
  | '\\' => some '\\'
  | '/' => some '/'
  | 'b' => some '\x08'
  | 'f' => some '\x0c'
  | 'n' => some '\n'
  | 'r' => some '\r'
  | 't' => some '\t'
  | _ => none

/-- The low half of a surrogate pair at the front of a text. -/
def lowHalf : List Symbol → Option (Nat × List Symbol)
  | some '\\' :: some 'u' :: a :: b :: c :: d :: rest =>
    match unitOf a b c d with
    | some u => if isLow u then some (u, rest) else none
    | none => none
  | _ => none

/-- What an escape names, from behind its backslash; half of a surrogate pair names nothing. -/
def escape : List Symbol → Option (Symbol × List Symbol)
  | some 'u' :: a :: b :: c :: d :: rest =>
    match unitOf a b c d with
    | none => none
    | some u =>
      if isLow u then some (none, rest)
      else if isHigh u then
        match lowHalf rest with
        | some (l, rest) => some (some (pairChar u l), rest)
        | none => some (none, rest)
      else some (some (Char.ofNat u), rest)
  | some c :: rest => (namedEscape c).map fun e => (some e, rest)
  | _ => none

/-- The second half of a surrogate pair is taken off the text, so the reader of a string goes on
    with a shorter one. -/
theorem lowHalf_length {cs rest : List Symbol} {u : Nat} (h : lowHalf cs = some (u, rest)) :
    rest.length < cs.length := by
  unfold lowHalf at h
  split at h
  · split at h
    · split at h
      · simp only [Option.some.injEq, Prod.mk.injEq] at h
        obtain ⟨_, rfl⟩ := h
        simp only [List.length_cons]
        omega
      · simp at h
    · simp at h
  · simp at h

/-- An escape takes at least one symbol after the backslash. -/
theorem escape_length {cs rest : List Symbol} {s : Symbol} (h : escape cs = some (s, rest)) :
    rest.length < cs.length := by
  unfold escape at h
  split at h
  · split at h
    · simp at h
    · split at h
      · simp only [Option.some.injEq, Prod.mk.injEq] at h
        obtain ⟨_, rfl⟩ := h
        simp only [List.length_cons]
        omega
      · split at h
        · split at h
          · rename_i hl
            have := lowHalf_length hl
            simp only [Option.some.injEq, Prod.mk.injEq] at h
            obtain ⟨_, rfl⟩ := h
            simp only [List.length_cons]
            omega
          · simp only [Option.some.injEq, Prod.mk.injEq] at h
            obtain ⟨_, rfl⟩ := h
            simp only [List.length_cons]
            omega
        · simp only [Option.some.injEq, Prod.mk.injEq] at h
          obtain ⟨_, rfl⟩ := h
          simp only [List.length_cons]
          omega
  · simp only [Option.map_eq_some_iff, Prod.mk.injEq] at h
    obtain ⟨_, _, _, rfl⟩ := h
    simp
  · simp at h

/-- The symbols of a string from behind its opening quote, and the text behind the closing one. -/
def readString : List Symbol → Option (List Symbol × List Symbol)
  | [] => none
  | none :: rest => (readString rest).map fun (s, rest) => (none :: s, rest)
  | some c :: rest =>
    if c = '"' then some ([], rest)
    else if c = '\\' then
      match _h : escape rest with
      | some (s, rest') => (readString rest').map fun (ss, rest) => (s :: ss, rest)
      | none => none
    else if c < ' ' then none
    else (readString rest).map fun (s, rest) => (some c :: s, rest)
termination_by cs => cs.length
decreasing_by
  · simp
  · have := escape_length _h
    simp only [List.length_cons]
    omega
  · simp

/-- The text of a string's symbols, if they spell one. -/
def spelled (ss : List Symbol) : Option String := (ss.mapM id).map String.ofList

/-! ## Numbers -/

/-- The leading digits of a text. -/
def scanDigits : List Symbol → List Char × List Symbol
  | some c :: rest =>
    if c.isDigit then
      let (ds, rest) := scanDigits rest
      (c :: ds, rest)
    else ([], some c :: rest)
  | cs => ([], cs)

/-- The digits behind a point; a point needs at least one. -/
def readFraction : List Symbol → Option (List Char × List Symbol)
  | some '.' :: rest =>
    match scanDigits rest with
    | ([], _) => none
    | found => some found
  | cs => some ([], cs)

/-- The digits of an exponent, with its sign; there must be one. -/
def exponentDigits (negative : Bool) (cs : List Symbol) : Option (Option Int × List Symbol) :=
  match scanDigits cs with
  | ([], _) => none
  | (ds, rest) =>
    some (some (if negative then -(Digits.value ds : Int) else Digits.value ds), rest)

/-- An exponent, if one is marked. -/
def readExponent : List Symbol → Option (Option Int × List Symbol)
  | some c :: rest =>
    if c = 'e' ∨ c = 'E' then
      match rest with
      | some '+' :: rest => exponentDigits false rest
      | some '-' :: rest => exponentDigits true rest
      | rest => exponentDigits false rest
    else some (none, some c :: rest)
  | [] => some (none, [])
  | cs => some (none, cs)

/-- The digits before the point: one zero, or digits that begin with no zero. -/
def readWhole (cs : List Symbol) : Option (List Char × List Symbol) :=
  match scanDigits cs with
  | ([], _) => none
  | ('0' :: _ :: _, _) => none
  | found => some found

/-- A number from behind its sign. -/
def readUnsigned (negative : Bool) (cs : List Symbol) : Option (Number × List Symbol) := do
  let (whole, cs) ← readWhole cs
  let (fraction, cs) ← readFraction cs
  let (exponent, cs) ← readExponent cs
  return (⟨negative, whole, fraction, exponent⟩, cs)

/-- A number. -/
def readNumber : List Symbol → Option (Number × List Symbol)
  | some '-' :: rest => readUnsigned true rest
  | cs => readUnsigned false cs

/-! ## Values -/

/-- The text behind `word`, if it begins with it. -/
def afterWord : List Char → List Symbol → Option (List Symbol)
  | [], cs => some cs
  | w :: ws, some c :: cs => if c = w then afterWord ws cs else none
  | _ :: _, _ => none

/-- A value that is one word, number or string, or the fault in its place. -/
def readScalar (c : Char) (rest : List Symbol) : Value × Option (List Symbol) :=
  let word (w : String) (v : Value) :=
    match afterWord w.toList rest with
    | some rest => (v, some rest)
    | none => (.fault, none)
  if c = 'n' then word "ull" .null
  else if c = 't' then word "rue" (.bool true)
  else if c = 'f' then word "alse" (.bool false)
  else if c = '"' then
    match readString rest with
    | some (ss, rest) =>
      match spelled ss with
      | some s => (.text s, some rest)
      | none => (.garbled, some rest)
    | none => (.fault, none)
  else if c = '-' ∨ c.isDigit then
    match readNumber (some c :: rest) with
    | some (n, rest) => (.number n, some rest)
    | none => (.fault, none)
  else (.fault, none)

/-- The start of a list's next value: what follows the opening bracket or a comma. -/
inductive NextItem where
  | close (rest : List Symbol)
  | value (rest : List Symbol)
  | fault

/-- Looks for the next value of a list. -/
def nextItem (first : Bool) (cs : List Symbol) : NextItem :=
  match skipBlanks cs with
  | [] => .fault
  | some ']' :: rest => .close rest
  | some ',' :: rest =>
    if first then .value (some ',' :: rest)
    else
      match skipBlanks rest with
      | [] => .fault
      | some ']' :: _ => .fault
      | rest => .value rest
  | rest => if first then .value rest else .fault

/-- The start of a record's next field. -/
inductive NextField where
  | close (rest : List Symbol)
  /-- A name, if it spells a text, and the text behind it. -/
  | name (s : Option String) (rest : List Symbol)
  | fault

/-- A field's name from behind its opening quote. -/
def fieldName (cs : List Symbol) : NextField :=
  match readString cs with
  | none => .fault
  | some (ss, rest) => .name (spelled ss) rest

/-- Looks for the next field of a record. -/
def nextField (first : Bool) (cs : List Symbol) : NextField :=
  match skipBlanks cs with
  | some '}' :: rest => .close rest
  | some '"' :: rest => if first then fieldName rest else .fault
  | some ',' :: rest =>
    if first then .fault
    else
      match skipBlanks rest with
      | some '"' :: rest => fieldName rest
      | _ => .fault
  | _ => .fault

/-- A field in front of others. -/
def fieldOf (name : Option String) (v : Value) (rest : Fields) : Fields :=
  match name with
  | some s => .field s v rest
  | none => .garbled v rest

/-- The text behind the colon of a field, if there is one. -/
def afterColon (cs : List Symbol) : Option (List Symbol) :=
  match skipBlanks cs with
  | some ':' :: rest => some rest
  | _ => none

mutual

/-- Reads a value; `fuel` bounds the depth. -/
def readValue : Nat → List Symbol → Value × Option (List Symbol)
  | 0, _ => (.fault, none)
  | fuel + 1, cs =>
    match skipBlanks cs with
    | some c :: rest =>
      if c = '[' then
        let (items, rest) := readItems fuel true rest
        (.array items, rest)
      else if c = '{' then
        let (fields, rest) := readFields fuel true rest
        (.object fields, rest)
      else readScalar c rest
    | _ => (.fault, none)

/-- Reads the values of a list. -/
def readItems : Nat → Bool → List Symbol → Items × Option (List Symbol)
  | 0, _, _ => (.fault, none)
  | fuel + 1, first, cs =>
    match nextItem first cs with
    | .fault => (.fault, none)
    | .close rest => (.close, some rest)
    | .value rest =>
      match readValue fuel rest with
      | (v, none) => (.item v .fault, none)
      | (v, some rest) =>
        let (items, rest) := readItems fuel false rest
        (.item v items, rest)

/-- Reads the fields of a record. -/
def readFields : Nat → Bool → List Symbol → Fields × Option (List Symbol)
  | 0, _, _ => (.fault, none)
  | fuel + 1, first, cs =>
    match nextField first cs with
    | .close rest => (.close, some rest)
    | .fault => (.fault, none)
    | .name s rest =>
      match afterColon rest with
      | none => (fieldOf s .fault .fault, none)
      | some rest =>
        match readValue fuel rest with
        | (v, none) => (fieldOf s v .fault, none)
        | (v, some rest) =>
          let (fields, rest) := readFields fuel false rest
          (fieldOf s v fields, rest)

end

/-- The tree of a text of symbols. -/
def readSymbols (cs : List Symbol) : Document :=
  match readValue (2 * cs.length + 2) cs with
  | (v, none) => ⟨v, false⟩
  | (v, some rest) => ⟨v, (skipBlanks rest).isEmpty⟩

/-- The tree of a text. -/
def read (s : String) : Document := readSymbols (s.toList.map some)

/-- The tree of a text given as bytes. -/
def readBytes (bs : List UInt8) : Document := readSymbols (Utf8.symbols bs)

end Subledger.Json
