import WorkflowEngine.Number.Written
import WorkflowEngine.Settings
import WorkflowEngine.Text.Case

/-!
# Settings from the environment

Every setting has a variable of the environment and a value that it has without one. A variable that
should write a number and does not is a fault.
-/

namespace WorkflowEngine

open Number

/-- The variables of an environment. -/
abbrev Environment := List (String × String)

namespace Environment

/-- The value of a variable, or another text if it is not set. -/
def getOr (env : Environment) (name other : String) : String := (env.lookup name).getD other

/-- The whole number that a text writes. -/
def wholeNumber (s : String) : Attempt Int :=
  match readInt? s with
  | some n => .ok n
  | none => .fault .malformed

/-- The number that a text writes. -/
def number (s : String) : Attempt Float :=
  match readFloat? s with
  | some x => .ok x
  | none => .fault .malformed

/-- A variable that counts, or another one in its place if it is not set or empty. -/
def firstOf (env : Environment) (name other : String) : Option String :=
  match env.lookup name with
  | some s => if s.isEmpty then env.lookup other else some s
  | none => env.lookup other

/-- Where data are kept without a path in the environment. -/
def defaultPath (env : Environment) : String := env.getOr "HOME" "" ++ "/.flowline-core/data"

/-- The limit on visits: none without a variable, and none for zero. -/
def visitLimit (env : Environment) : Attempt (Option Int) := do
  let s := env.getOr "FLOWLINE_CORE_MAX_NODE_VISITS" ""
  let n ← if s.isEmpty then pure 0 else wholeNumber s
  pure (if n = 0 then none else some n)

/-- The words that switch something on. -/
def affirmations : List String := ["true", "1", "yes"]

end Environment

/-- The settings that an environment gives. -/
def Settings.ofEnvironment (env : Environment) : Attempt Settings := do
  let port ← Environment.wholeNumber (env.getOr "FLOWLINE_CORE_PORT" "7779")
  let waitMax ← Environment.number (env.getOr "FLOWLINE_CORE_WAIT_MAX_SECONDS" "3600")
  let visits ← env.visitLimit
  let timeout ← Environment.number (env.getOr "FLOWLINE_CORE_HTTP_TIMEOUT" "30")
  pure {
    mode := env.getOr "FLOWLINE_CORE_MODE" Settings.soloMode
    storagePath := env.getOr "FLOWLINE_CORE_STORAGE_PATH" env.defaultPath
    hostedUrl := env.firstOf "SUPABASE_URL" "NEXT_PUBLIC_SUPABASE_URL"
    hostedKey := env.lookup "SUPABASE_SERVICE_ROLE_KEY"
    apiHost := env.getOr "FLOWLINE_CORE_HOST" "0.0.0.0"
    apiPort := port
    debug := Environment.affirmations.contains
      (Text.toLower (env.getOr "FLOWLINE_CORE_DEBUG" ""))
    waitMax := .float waitMax
    visitLimit := visits
    requestTimeout := .float timeout }

end WorkflowEngine
