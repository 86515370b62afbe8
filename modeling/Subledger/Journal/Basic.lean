/-
  THE JOURNAL: the index of what was applied, kept in memory only or in a file as well.

  The index follows the file: it takes a record only once the file has it.
-/
import Subledger.Journal.File

namespace Subledger

/-- Where a journal's records are kept beside its index. -/
inductive Medium where
  | memory
  | file (f : JournalFile)
  deriving DecidableEq, Repr

/-- An index and where its records are kept. -/
structure Journal where
  index : Index
  medium : Medium
  deriving DecidableEq, Repr

namespace Journal

/-- A journal in memory without records. -/
def inMemory : Journal := ⟨.empty, .memory⟩

/-- Opens the journal of a file. -/
def ofFile (f : JournalFile) : Except JournalError Journal × JournalFile :=
  match f.load with
  | (.ok index, f) => (.ok ⟨index, .file f⟩, f)
  | (.error e, f) => (.error e, f)

/-- The file, if the journal has one. -/
def file? (j : Journal) : Option JournalFile :=
  match j.medium with
  | .memory => none
  | .file f => some f

/-- Changes the file from outside; the index is not told. -/
def mapFile (j : Journal) (change : JournalFile → JournalFile) : Journal :=
  match j.medium with
  | .memory => j
  | .file f => { j with medium := .file (change f) }

/-- Opens the file of a journal again.  If that fails the journal goes on with the index it has. -/
def reopen (j : Journal) : Except JournalError Unit × Journal :=
  match j.medium with
  | .memory => (.ok (), j)
  | .file f =>
    match f.load with
    | (.ok index, f) => (.ok (), ⟨index, .file f⟩)
    | (.error e, f) => (.error e, { j with medium := .file f })

/-- Adds an envelope.  A transaction that is there already is acknowledged without a look at the
    file. -/
def append (j : Journal) (e : Envelope) : Except JournalError Ack × Journal :=
  match j.index.append e with
  | .error cause => (.error (.io cause), j)
  | .ok (.duplicate n, _) => (.ok (.duplicate n), j)
  | .ok (.appended n, index) =>
    match j.medium with
    | .memory => (.ok (.appended n), { j with index := index })
    | .file f =>
      match f.append (Record.line ⟨n, e⟩) with
      | (.ok (), f) => (.ok (.appended n), ⟨index, .file f⟩)
      | (.error cause, f) => (.error (.io cause), { j with medium := .file f })

/-- An addition that an outage may prevent before the journal is asked. -/
def appendUnder (outage : Option IoFailure) (j : Journal) (e : Envelope) :
    Except JournalError Ack × Journal :=
  match outage with
  | some cause => (.error (.io cause), j)
  | none => j.append e

/-- Some records of the journal, unless an outage prevents reading them. -/
def readUnder (outage : Option IoFailure) (records : List Record) :
    Except JournalError (List Record) :=
  match outage with
  | some cause => .error (.io cause)
  | none => .ok records

end Journal
end Subledger
