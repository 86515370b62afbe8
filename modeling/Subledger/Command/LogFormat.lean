/-
  HOW THE PROGRAM LOGS: one record a line, or spread out for reading.
-/
import Subledger.Text.Blank
import Subledger.Text.Quoted

namespace Subledger.Command

/-- The form of the log. -/
inductive LogFormat where
  | json
  | pretty
  deriving DecidableEq, Repr

/-- A text that names no form. -/
structure UnknownLogFormat where
  text : String
  deriving DecidableEq, Repr

/-- The wording of the refusal; the text is quoted as it was given. -/
def UnknownLogFormat.message (e : UnknownLogFormat) : String :=
  "unknown log format " ++ Text.quoted e.text ++ " (expected \"json\" or \"pretty\")"

/-- The form that a text names.  White space around it and the case of its letters do not count;
    only the letters of ASCII have a case here. -/
def LogFormat.ofText (s : String) : Except UnknownLogFormat LogFormat :=
  match String.ofList ((Text.trimmed s).toList.map Char.toLower) with
  | "json" => .ok .json
  | "pretty" => .ok .pretty
  | _ => .error ⟨s⟩

end Subledger.Command
