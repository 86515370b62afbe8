/-
  WHAT CAN GO WRONG with a journal.

  None of it touches the book: what was applied stays applied, and the journal can be tried again.
-/

namespace Subledger

/-- Why an addition fails, or reading or writing a file. -/
inductive IoFailure where
  | diskFull
  | diskUnreadable
  /-- The file would grow beyond its limit. -/
  | fileTooLarge
  | noSpace
  | isDirectory
  | notFound
  | notUtf8
  /-- The greatest number that sixty-four bits hold is given. -/
  | noNumberLeft
  /-- Any other failure, in the words of the system. -/
  | other (words : String)
  deriving DecidableEq, Repr

/-- The wording of a failure. -/
def IoFailure.message : IoFailure → String
  | .diskFull => "disk full"
  | .diskUnreadable => "disk unreadable"
  | .fileTooLarge => "File too large (os error 27)"
  | .noSpace => "No space left on device (os error 28)"
  | .isDirectory => "Is a directory (os error 21)"
  | .notFound => "No such file or directory (os error 2)"
  | .notUtf8 => "stream did not contain valid UTF-8"
  | .noNumberLeft => "attempt to add with overflow"
  | .other words => words

/-- Why a journal cannot be opened, added to or replayed. -/
inductive JournalError where
  | io (cause : IoFailure)
  /-- A line that holds no record; lines are counted from one. -/
  | corrupt (line : Nat)
  deriving DecidableEq, Repr

/-- The wording of an error. -/
def JournalError.message : JournalError → String
  | .io cause => s!"log io failed: {cause.message}"
  | .corrupt line => s!"log record {line} is corrupt"

end Subledger
