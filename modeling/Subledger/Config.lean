/-
  THE CONFIGURATION: which accounts a book starts with, and where they land in the general ledger.

  An account may be listed more than once, with the same settings each time.  A general-ledger code
  and its class are given together or not at all.  `Config.check` finds the first setting that
  breaks a rule; a configuration that is read from a text has been checked.
-/
import Subledger.GeneralLedger.Mapping
import Subledger.Journal.Error
import Subledger.Ledger.Registry

namespace Subledger

/-- What is set for one account. -/
structure AccountSetting where
  account : AccountId
  type : AccountType
  glCode : Option String
  glType : Option GlType
  deriving DecidableEq, Repr

/-- The settings in the order in which they were written down. -/
structure Config where
  settings : List AccountSetting
  deriving DecidableEq, Repr

/-- Why a configuration cannot be used. -/
inductive ConfigError where
  | read (path : String) (cause : IoFailure)
  | parse (cause : Json.Error)
  /-- An account is listed twice with different settings. -/
  | conflictingAccount (account : AccountId)
  /-- An account has a general-ledger code without a class, or a class without a code. -/
  | incompleteGlMapping (account : AccountId)
  | value (cause : ValueError)
  | ledger (cause : LedgerError)
  deriving DecidableEq, Repr

/-- The wording of an error. -/
def ConfigError.message : ConfigError → String
  | .read path cause => s!"failed to read config {path}: {cause.message}"
  | .parse cause => s!"failed to parse config: {cause.message}"
  | .conflictingAccount account =>
    s!"account {account.text} is configured more than once with different settings"
  | .incompleteGlMapping account =>
    s!"account {account.text} must set both gl_code and gl_account_type, or neither"
  | .value cause => cause.message
  | .ledger cause => cause.message

namespace AccountSetting

/-- The mapping that is set for an account, if one is. -/
def glMapping (s : AccountSetting) : Except ConfigError (Option GlMapping) :=
  match s.glCode, s.glType with
  | some code, some type => ((GlMapping.ofParts code type).map some).mapError .value
  | none, none => .ok none
  | _, _ => .error (.incompleteGlMapping s.account)

/-- The fields of a setting's document; the last two may be absent. -/
def row : Json.Row (AccountId × AccountType × Option String × Option GlType × Unit) :=
  .required "account_id" Json.Canonical.decode <|
  .required "account_type" Json.Canonical.decode <|
  .field "gl_code" (Json.optional Json.string) (some none) <|
  .field "gl_account_type" (Json.optional Json.Canonical.decode) (some none) .done

/-- A field that is written only if it is set. -/
def fieldIfSet (name : String) : Option Json.Value → List (String × Json.Value)
  | some v => [(name, v)]
  | none => []

instance : Json.Canonical AccountSetting where
  encode s := Json.ofFields ([("account_id", Json.Canonical.encode s.account),
    ("account_type", Json.Canonical.encode s.type)] ++
    fieldIfSet "gl_code" (s.glCode.map .text) ++
    fieldIfSet "gl_account_type" (s.glType.map Json.Canonical.encode))
  decode v := (row.decode v).map fun (account, type, glCode, glType, ()) =>
    ⟨account, type, glCode, glType⟩

end AccountSetting

namespace Config

/-- The fields of a configuration's document; without accounts it is empty. -/
def row : Json.Row (List AccountSetting × Unit) :=
  .field "accounts" (Json.list Json.Canonical.decode) (some []) .done

instance : Json.Canonical Config where
  encode c := Json.ofFields [("accounts", Json.ofList (c.settings.map Json.Canonical.encode))]
  decode v := (row.decode v).map fun (settings, ()) => ⟨settings⟩

/-- Checks settings in order: each for its own rules, then against the first one of its account
    among those `seen` before. -/
def checkFrom (seen : List AccountSetting) : List AccountSetting → Except ConfigError Unit
  | [] => .ok ()
  | s :: rest => do
    let _ ← s.glMapping
    match seen.find? fun s' => s'.account == s.account with
    | some s' => if s' = s then checkFrom seen rest else .error (.conflictingAccount s.account)
    | none => checkFrom (seen ++ [s]) rest

/-- Checks all settings. -/
def check (c : Config) : Except ConfigError Unit := checkFrom [] c.settings

/-- The accounts of a configuration as a register. -/
def registry (c : Config) : Except ConfigError Registry :=
  (Registry.ofAccounts (c.settings.map fun s => ⟨s.account, s.type⟩)).mapError .ledger

/-- Adds the mapping of a setting, if it has one. -/
def addMapping (m : GlMappings) (s : AccountSetting) : Except ConfigError GlMappings := do
  match ← s.glMapping with
  | some g => return m.insert s.account g
  | none => return m

/-- The mappings of a configuration. -/
def glMappings (c : Config) : Except ConfigError GlMappings := c.settings.foldlM addMapping .empty

/-- The configuration that a text spells, checked. -/
def ofText (s : String) : Except ConfigError Config := do
  let c ← (Json.parse s).mapError ConfigError.parse
  c.check
  return c

/-- The configuration in a file: what reading it gave, and the path for the wording of a failure. -/
def ofFile (path : String) (content : Except IoFailure (List UInt8)) :
    Except ConfigError Config := do
  let bytes ← content.mapError (.read path)
  match Text.Utf8.decode bytes with
  | .ok cs => ofText (String.ofList cs)
  | .error _ => .error (.read path .notUtf8)

end Config
end Subledger
