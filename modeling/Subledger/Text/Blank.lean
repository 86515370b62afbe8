/-
  WHITE SPACE: what makes a text blank, and what trimming removes.

  The class is Unicode's `White_Space` property: twenty-five characters.  It is neither the class
  of ASCII blanks nor "looks empty": the zero-width space and the byte order mark are not in it.

  Main statement: `trim_eq_nil_iff` (a text is blank exactly if trimming leaves nothing of it).
-/

namespace Subledger.Text

/-- The `White_Space` property. -/
def isSpace (c : Char) : Bool :=
  (9 ≤ c.toNat && c.toNat ≤ 13) || c.toNat == 0x20 || c.toNat == 0x85 || c.toNat == 0xA0 ||
  c.toNat == 0x1680 || (0x2000 ≤ c.toNat && c.toNat ≤ 0x200A) || c.toNat == 0x2028 ||
  c.toNat == 0x2029 || c.toNat == 0x202F || c.toNat == 0x205F || c.toNat == 0x3000

/-- The blanks of ASCII: space, tab, line feed, form feed, carriage return (no vertical tab). -/
def isAsciiSpace (b : UInt8) : Bool :=
  b == 0x20 || b == 0x09 || b == 0x0A || b == 0x0C || b == 0x0D

/-- A text without its leading white space. -/
def trimLeft (cs : List Char) : List Char := cs.dropWhile isSpace

/-- A text without the white space at its two ends. -/
def trim (cs : List Char) : List Char := (trimLeft (trimLeft cs).reverse).reverse

/-- A text of white space only; the empty text is one. -/
def isBlank (s : String) : Bool := s.toList.all isSpace

/-- The text without the white space at its two ends. -/
def trimmed (s : String) : String := String.ofList (trim s.toList)

theorem trimLeft_eq_nil_iff (cs : List Char) : trimLeft cs = [] ↔ cs.all isSpace = true := by
  induction cs with
  | nil => simp [trimLeft]
  | cons c cs ih =>
    by_cases h : isSpace c = true
    · rw [trimLeft, List.dropWhile_cons_of_pos h, ← trimLeft, ih, List.all_cons, h, Bool.true_and]
    · simp [trimLeft, h]

/-- The first character that is not white space survives trimming on either side. -/
theorem trim_eq_nil_iff (cs : List Char) : trim cs = [] ↔ cs.all isSpace = true := by
  rw [trim, List.reverse_eq_nil_iff, trimLeft_eq_nil_iff, List.all_reverse, ← trimLeft_eq_nil_iff cs]
  constructor
  · intro h
    cases hc : trimLeft cs with
    | nil => rfl
    | cons c rest =>
      have hhead := List.head?_dropWhile_not isSpace cs
      rw [show cs.dropWhile isSpace = c :: rest from hc] at hhead
      simp [hc] at h
      simp_all
  · intro h
    simp [h]

example : isBlank " \t\u00a0\u2003" = true := by decide
example : isBlank "\u200b" = false := by decide
example : trimmed " a b\u3000" = "a b" := by decide

end Subledger.Text
