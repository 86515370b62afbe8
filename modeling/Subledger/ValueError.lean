/-
  REFUSALS: why a value of the domain cannot be made from its parts.

  They arise while a value is built, before anything reaches a book, and are always the caller's.
-/

namespace Subledger

/-- Why a part is refused; `field` names the part. -/
inductive ValueError where
  /-- A name or code with nothing but white space in it. -/
  | empty (field : String)
  /-- An amount that must be above zero, with its text. -/
  | notPositive (field value : String)
  /-- A part that cannot be read, with the reader's words. -/
  | invalid (field reason : String)
  deriving DecidableEq, Repr

/-- The wording of a refusal. -/
def ValueError.message : ValueError → String
  | .empty field => s!"{field} must not be empty"
  | .notPositive field value => s!"{field} must be strictly positive (got {value})"
  | .invalid field reason => s!"invalid {field}: {reason}"

end Subledger
