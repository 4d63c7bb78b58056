import WorkflowEngine.Failure
import WorkflowEngine.Number.Binary64
import WorkflowEngine.Value.Basic

/-!
# Settings

What is decided outside a workflow: where data is stored, how long a node may wait, how many visits
a run may make, and where the server listens.
-/

namespace WorkflowEngine

/-- Which store is in use. -/
inductive Backend where
  | local
  | hosted
  deriving DecidableEq, Inhabited, Repr

/-- The name of a store. -/
def Backend.name : Backend → String
  | .local => "LocalJSONStorage"
  | .hosted => "SupabaseStorage"

/-- The settings of the program. -/
structure Settings where
  /-- `solo` for local files, `prod` for the hosted store. -/
  mode : String := "solo"
  storagePath : String := ""
  hostedUrl : Option String := none
  hostedKey : Option String := none
  apiHost : String := "0.0.0.0"
  apiPort : Int := 7779
  debug : Bool := false
  /-- The longest wait, in seconds. -/
  waitMax : Value
  /-- The most node visits of a run, if they are limited. -/
  visitLimit : Option Int := none
  /-- How long a request may take, in seconds. -/
  requestTimeout : Value

/-- Waits last at most an hour, and requests half a minute. -/
def Settings.standard : Settings :=
  { waitMax := .float (Number.nearest false 3600 1)
    requestTimeout := .float (Number.nearest false 30 1) }

instance : Inhabited Settings := ⟨.standard⟩

namespace Settings

/-- Whether the credentials of the hosted store are there. -/
def hasCredentials (s : Settings) : Bool :=
  (s.hostedUrl.getD "") != "" && (s.hostedKey.getD "") != ""

/-- The mode in which data are kept in local files. -/
def soloMode : String := "solo"

/-- The mode in which data are kept in the hosted store. -/
def prodMode : String := "prod"

/-- What is wrong with the settings, if anything. -/
def complaint? (s : Settings) : Option String :=
  if s.mode != soloMode && s.mode != prodMode then
    some ("unknown mode '" ++ s.mode ++ "' (expected 'solo' or 'prod')")
  else if s.mode == prodMode && !s.hasCredentials then Failure.noCredentials.message?
  else none

/-- Whether the settings can be worked with. -/
def isValid (s : Settings) : Bool := s.complaint?.isNone

/-- The line that is printed of a complaint. -/
def complaintLine (complaint : String) : String := "[CONFIG] Error: " ++ complaint

/-- The store that a mode chooses; every other mode than the hosted one means local files. -/
def storeOf (s : Settings) (mode : String) : Attempt Backend :=
  if mode == prodMode then
    if s.hasCredentials then .ok .hosted else .error .noCredentials
  else .ok .local

/-- The store that the settings choose. -/
def store (s : Settings) : Attempt Backend := s.storeOf s.mode

end Settings

end WorkflowEngine
