/-
  THE REQUEST: what the arguments of the program ask for.
-/
import Subledger.Instant.Reader
import Subledger.Text.Quoted

namespace Subledger.Command

/-- A configuration, a journal, and the moment whose knowledge counts; without one the whole journal
    does. -/
structure Request where
  configPath : String
  logPath : String
  asOf : Option Instant
  deriving DecidableEq, Repr

/-- Why arguments ask for nothing. -/
inductive RequestError where
  /-- Not two or three arguments. -/
  | usage
  | asOf (text : String) (cause : Instant.ReadError)
  deriving DecidableEq, Repr

/-- How the program is called. -/
def usageLine : String := "usage: posttrade-replay <config.json> <log.jsonl> [as_of]"

/-- The wording of an error, and of what lies behind it. -/
def RequestError.chain : RequestError → List String
  | .usage => [usageLine]
  | .asOf text cause =>
    ["as_of " ++ Text.quoted text ++ " is not an RFC 3339 timestamp", cause.message]

/-- The request of some arguments.  The moment is read strictly. -/
def Request.ofArgs : List String → Except RequestError Request
  | [config, log] => .ok ⟨config, log, none⟩
  | [config, log, asOf] =>
    match Instant.ofStrictText asOf with
    | .ok t => .ok ⟨config, log, some t⟩
    | .error cause => .error (.asOf asOf cause)
  | _ => .error .usage

end Subledger.Command
