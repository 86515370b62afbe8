/-
  THE PROGRAM: reads the files that its arguments name, prints the statement, and tells on the
  error output why there is none.
-/
import Subledger.Command.Statement

namespace Subledger.Command

/-- How a failure of the system is told. -/
def ioFailure : IO.Error → IoFailure
  | .noFileOrDirectory _ _ _ => .notFound
  | e => .other (toString e)

/-- The bytes of a file. -/
def readBytes (path : String) : IO (Except IoFailure (List UInt8)) := do
  try
    return .ok (← IO.FS.readBinFile path).toList
  catch e =>
    return .error (ioFailure e)

/-- What a path leads to. -/
def fileState (content : Except IoFailure (List UInt8)) : FileState :=
  match content with
  | .ok bs => .regular bs
  | .error .notFound => .absent
  | .error cause => .unusable cause

/-- Tells a chain of causes. -/
def tell : List String → IO Unit
  | [] => return
  | [text] => IO.eprintln s!"Error: {text}"
  | [text, cause] => IO.eprintln s!"Error: {text}\n\nCaused by:\n    {cause}"
  | text :: causes => do
    IO.eprintln s!"Error: {text}\n\nCaused by:"
    for (cause, i) in causes.zipIdx do
      IO.eprintln s!"    {i}: {cause}"

/-- Runs the program; the answer is its exit code. -/
def run (args : List String) : IO UInt32 := do
  match Request.ofArgs args with
  | .error e =>
    tell e.chain
    return 1
  | .ok request =>
    let config ← readBytes request.configPath
    let log : JournalFile := ⟨fileState (← readBytes request.logPath), 0⟩
    let (result, after) := Statement.ofFiles request config log
    -- The file is written only if opening the journal cut something off.
    match after.bytes? with
    | some bs => if after ≠ log then IO.FS.writeBinFile request.logPath ⟨bs.toArray⟩
    | none => pure ()
    match result with
    | .ok statement =>
      (← IO.getStdout).putStr statement.text
      return 0
    | .error e =>
      tell e.chain
      return 1

end Subledger.Command

def main (args : List String) : IO UInt32 := Subledger.Command.run args
