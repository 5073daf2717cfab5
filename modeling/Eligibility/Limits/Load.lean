import Eligibility.Limits.Basic
import Eligibility.Setting.Name
import Eligibility.Setting.Toml.Document

/-!
# Loading limits

Limits are read from a settings file and from the environment, whose variables win. What neither
names keeps its standard value, and the result must be usable.

## Main definitions

* `Limits.LoadError` — why no limits are loaded.
* `Limits.environment` — the settings that environment variables give.
* `Limits.load` — the limits from a file and the environment.
-/

set_option relaxedAutoImplicit false
set_option autoImplicit false

namespace Eligibility

namespace Limits

/-- Why no limits are loaded. -/
inductive LoadError where
  /-- The file is missing or not TOML, or a limit is no natural number. -/
  | unreadable
  /-- The limits cannot be used. -/
  | invalid (e : LimitsError)
deriving DecidableEq

/-- How the names of environment variables for settings begin, in any case. -/
def variableStart : List Char := "rulekit_".toList

/-- The settings that environment variables give, by their names in lower case. -/
def environment (env : List (String × String)) : List (String × Setting) :=
  env.filterMap fun (name, text) =>
    let name := (lowerCase name).toList
    if variableStart.isPrefixOf name then
      some (.ofList (name.drop variableStart.length), .ofText text)
    else none

/-- The settings of a file: none without a file, and no answer for one that is missing or not
TOML. -/
def fileSettings? : Option (Option String) → Option (List (String × Setting))
  | none => some []
  | some file => do Toml.settings? (← file)

/-- The limits that a list of settings gives, of which the last about a limit counts. -/
def ofSettings? (settings : List (String × Setting)) : Option Limits := do
  let assigned := settings.map fun (name, v) => Setting.assign name v
  let value? (name : String) : Option Setting := assigned.reverse.lookup name
  ofFields? (← names.mapM fun name => (value? name).mapM Setting.natural?)

/-- The limits from a settings file, if one is named, and environment variables. -/
def load (file : Option (Option String)) (env : List (String × String)) :
    Except LoadError Limits :=
  match fileSettings? file with
  | none => .error .unreadable
  | some settings =>
    match ofSettings? (settings ++ environment env) with
    | none => .error .unreadable
    | some limits => (limits.validate.mapError .invalid).map fun _ => limits

end Limits

end Eligibility
