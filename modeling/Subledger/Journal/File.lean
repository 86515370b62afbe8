/-
  THE JOURNAL FILE: one record a line.

  A record counts once its whole line stands in the file, the newline included.  An addition that
  fails leaves the file as long as it was: what was written of the line is taken back.  One case is
  left out: where the system refuses that too, the program tells so in its own log and leaves the
  part of a line in the file.  Opening cuts off what follows the last newline.

  What the path leads to is part of the picture: nothing yet, a regular file, or something that
  cannot be used as one, such as a directory or a device that takes no byte.  A regular file may be
  limited in size.
-/
import Subledger.Journal.Index

namespace Subledger

/-- What a path leads to. -/
inductive FileState where
  | absent
  | regular (bytes : List UInt8)
  /-- Something else; every use of it fails for this cause. -/
  | unusable (cause : IoFailure)
  deriving DecidableEq, Repr

/-- A path, and how large a file there may become; zero is no limit. -/
structure JournalFile where
  state : FileState
  limit : Nat
  deriving DecidableEq, Repr

/-- The lines of some bytes without their newlines, and what follows the last newline. -/
def cutLines : List UInt8 → List (List UInt8) × List UInt8
  | [] => ([], [])
  | b :: bs =>
    let (lines, torn) := cutLines bs
    if b = Record.newline then ([] :: lines, torn)
    else
      match lines with
      | [] => ([], b :: torn)
      | line :: lines => ((b :: line) :: lines, torn)

/-- The bytes that lines were cut from. -/
def joinLines (lines : List (List UInt8)) : List UInt8 :=
  lines.flatMap fun line => line ++ [Record.newline]

/-- Cutting loses nothing. -/
theorem joinLines_cutLines (bs : List UInt8) :
    joinLines (cutLines bs).1 ++ (cutLines bs).2 = bs := by
  induction bs with
  | nil => rfl
  | cons b bs ih =>
    simp only [cutLines]
    split
    · rename_i h
      simp only [joinLines, List.flatMap_cons, List.nil_append, List.cons_append] at ih ⊢
      rw [ih, h]
    · generalize cutLines bs = p at ih
      obtain ⟨lines, torn⟩ := p
      cases lines with
      | nil =>
        simp only [joinLines, List.flatMap_nil, List.nil_append] at ih ⊢
        rw [ih]
      | cons line lines =>
        simp only [joinLines, List.flatMap_cons, List.append_assoc, List.cons_append] at ih ⊢
        rw [ih]

namespace JournalFile

/-- A path that leads nowhere yet. -/
def fresh : JournalFile := ⟨.absent, 0⟩

/-- The bytes of a regular file. -/
def bytes? (f : JournalFile) : Option (List UInt8) :=
  match f.state with
  | .regular bs => some bs
  | _ => none

/-- May a file be this long? -/
def allows (f : JournalFile) (length : Nat) : Bool := f.limit = 0 || length ≤ f.limit

/-- Adds a line to a file that holds `bs`. -/
def extend (f : JournalFile) (bs line : List UInt8) : Except IoFailure Unit × JournalFile :=
  if f.allows (bs.length + line.length) then (.ok (), { f with state := .regular (bs ++ line) })
  else (.error .fileTooLarge, { f with state := .regular bs })

/-- Adds a line; a file that does not exist is created first. -/
def append (f : JournalFile) (line : List UInt8) : Except IoFailure Unit × JournalFile :=
  match f.state with
  | .absent => f.extend [] line
  | .regular bs => f.extend bs line
  | .unusable cause => (.error cause, f)

/-- Opens a journal file: cuts off a torn last line, and then reads the others.  The cut is made
    even if a line turns out to hold no record. -/
def load (f : JournalFile) : Except JournalError Index × JournalFile :=
  match f.state with
  | .absent => (.ok .empty, f)
  | .regular bs =>
    let lines := (cutLines bs).1
    (Index.ofLines lines, { f with state := .regular (joinLines lines) })
  | .unusable cause => (.error (.io cause), f)

/-- Writes a regular file past the journal, in place of its bytes or behind them. -/
def overwrite (f : JournalFile) (bs : List UInt8) (behind : Bool) : JournalFile :=
  match f.state with
  | .absent => { f with state := .regular bs }
  | .regular old => { f with state := .regular (if behind then old ++ bs else bs) }
  | .unusable _ => f

end JournalFile
end Subledger
