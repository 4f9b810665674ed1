import LinkedCommit.Context.Loader
import LinkedCommit.Number.Decimal
import LinkedCommit.Text.Character
/-!
# Settings

The settings of the library come from environment variables: whether properties without an
identifier are errors, the gateway for content addresses, the time that a document may take, and
the number of levels of a tree.  A variable that is not set leaves its default; one that cannot
be read is an error, the first of them in this order.
-/

set_option autoImplicit false

namespace LinkedCommit

inductive SettingsError where
  | invalidValue (name text : String)
  | invalidUrl (name : String)
deriving DecidableEq, Repr

def SettingsError.message : SettingsError → String
  | .invalidValue name text => "invalid value for " ++ name ++ ": " ++ Text.quoted text
  | .invalidUrl name => "invalid URL for " ++ name

structure Settings where
  safeMode : Bool
  gateway : Option Url
  timeoutSeconds : Nat
  treeLevels : Nat
deriving DecidableEq, Inhabited

namespace Settings

def default : Settings where
  safeMode := true
  gateway := none
  timeoutSeconds := 30
  treeLevels := 40

def safeModeVariable : String := "MERKLIZE_SAFE_MODE"
def gatewayVariable : String := "MERKLIZE_IPFS_GATEWAY_URL"
def timeoutVariable : String := "MERKLIZE_HTTP_TIMEOUT_SECS"
def levelsVariable : String := "MERKLIZE_MT_LEVELS"

abbrev Environment := NameMap String

def readBool (env : Environment) (name : String) (default : Bool) : Except SettingsError Bool :=
  match NameMap.get? env name with
  | none => .ok default
  | some raw =>
    let word := String.ofList ((Text.trim raw).toList.map Char.toLower)
    if word = "true" || word = "1" || word = "yes" then .ok true
    else if word = "false" || word = "0" || word = "no" then .ok false
    else .error (.invalidValue name raw)

/-- A number of 64 bits; a plus sign is allowed. -/
def readNat (env : Environment) (name : String) (default : Nat) : Except SettingsError Nat :=
  match NameMap.get? env name with
  | none => .ok default
  | some raw =>
    let digits := match (Text.trim raw).toList with
      | '+' :: ds => ds
      | ds => ds
    match Decimal.digits? digits with
    | some n => if n < twoTo 64 then .ok n else .error (.invalidValue name raw)
    | none => .error (.invalidValue name raw)

/-- An optional URL; a blank one counts as none. -/
def readUrl (env : Environment) (name : String) : Except SettingsError (Option Url) :=
  match NameMap.get? env name with
  | none => .ok none
  | some raw =>
    let text := Text.trim raw
    if text.isEmpty then .ok none
    else
      match Url.parse? text with
      | some url => .ok (some url)
      | none => .error (.invalidUrl name)

def ofEnvironment (env : Environment) : Except SettingsError Settings := do
  let safeMode ← readBool env safeModeVariable default.safeMode
  let gateway ← readUrl env gatewayVariable
  let timeoutSeconds ← readNat env timeoutVariable default.timeoutSeconds
  let treeLevels ← readNat env levelsVariable default.treeLevels
  return { safeMode, gateway, timeoutSeconds, treeLevels }

def toJson (s : Settings) : Json :=
  .object
    [("http_timeout_secs", Json.int s.timeoutSeconds),
     ("ipfs_gateway", (s.gateway.map fun url => Json.string url.text).getD .null),
     ("mt_levels", Json.int s.treeLevels),
     ("safe_mode", .bool s.safeMode)]

end Settings

end LinkedCommit
