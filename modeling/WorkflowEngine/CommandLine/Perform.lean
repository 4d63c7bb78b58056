import WorkflowEngine.CommandLine.Command
import WorkflowEngine.CommandLine.Screen
import WorkflowEngine.Containers
import WorkflowEngine.Intake

/-!
# What commands do

The work of every command in the world, and what it shows on the screen.
-/

namespace WorkflowEngine.CommandLine

open Number Console

/-- Serves requests. A mode that is given is the mode of the settings from then on. -/
def serve (host : String) (port : Int) (mode : String) : Console Unit := do
  if !mode.isEmpty then
    modify fun desk =>
      { desk with world.settings.mode := mode }
  let s ← settings
  match s.complaint? with
  | some complaint =>
    say (Settings.complaintLine complaint)
    say "❌ Configuration validation failed. Please check your environment variables."
    exit 1
  | none =>
    let host := if host.isEmpty then s.apiHost else host
    let port := if port = 0 then s.apiPort else port
    say ("🚀 Starting Flowline Core API server in " ++ s.mode ++ " mode...")
    say ("   Host: " ++ host)
    say ("   Port: " ++ intText port)
    changeScreen fun screen => { screen with served := screen.served ++ [(host, port)] }

/-- Refuses what a command has been given. -/
def refuse {α : Type} (complaint : String) : Console α := do
  say ("❌ " ++ complaint)
  exit 1

/-- Whether a failure to load a workflow is explained to the user. -/
def isExplained : Failure → Bool
  | .format _ | .data .refused | .data .absent => true
  | _ => false

/-- Loads a workflow. -/
def load (content : Content) : Console Value := do
  match Workflow.ofFile content.bytes with
  | .ok workflow => ofWork (Workflow.takeIn (.ok workflow))
  | .error f =>
    if isExplained f then refuse ("Could not load workflow: " ++ f.text)
    else throw (.failed f)

/-- The data that a run is given, null if there is no text. -/
def readPayload (payload : String) : Console Value := do
  if payload.isEmpty then return .null
  match Json.read payload with
  | .ok j => return j.toValue
  | .error c =>
    if c.cause = .longInteger then throw (.failed (.data .malformed))
    else refuse ("--trigger-data is not valid JSON: " ++ c.message payload)

/-- What runs the workflows of commands. -/
def runner (fuel : Nat) : Console Runner := do
  return { budget := (← settings).visitLimit, fuel := fuel }

/-- The text of an entry that a table or a line shows. -/
def shownEntry (record : Value) (name : String) : Console String :=
  ofAttempt do (← record.entry name).plain

/-- The text of an entry, or another text if the entry is not there. -/
def shownOr (record : Value) (name other : String) : Console String :=
  ofAttempt do ((← record.find? name).getD (.text other)).plain

/-- The cell of a table that shows a value: only texts can be shown, and null is empty. -/
def cell (v : Value) : Console String :=
  match v with
  | .text s _ => pure s
  | .null => pure ""
  | _ => throw (.failed (.data .unshowable))

/-- The row of a result. -/
def resultRow (result : Value) : Console (List String) := do
  let name ← cell (← ofAttempt (result.entry "node_name"))
  let status ← shownEntry result "status"
  let duration ← shownOr result "duration" "0"
  let error ← shownOr result "error" ""
  return [name, statusText status, duration ++ "ms", error]

/-- The summary of an execution. -/
def summary (execution : Value) : Console String := do
  let id ← shownEntry execution "id"
  let status ← shownEntry execution "status"
  let duration ← shownOr execution "duration" "0"
  let error ← ofAttempt (execution.get "error")
  let head := "Execution " ++ styled "bold" id ++ "\nStatus: " ++ statusText status ++
    "   Duration: " ++ duration ++ "ms"
  if error.holds then
    return head ++ "\nError: " ++ styled "red" (← ofAttempt error.plain)
  else return head

/-- Executes a workflow once. -/
def run (fuel : Nat) (content : Content) (payload reason : String) (keep : Bool) (mode : String) :
    Console Unit := do
  let workflow ← load content
  let data ← readPayload payload
  let _ ← ofWork (Container.serve mode)
  if keep then
    let _ ← ofWork (Store.saveWorkflow workflow)
  let runner ← runner fuel
  let name ← shownEntry workflow "name"
  print (.status ("[bold cyan]Running " ++ name ++ "..."))
  let execution ← ofJob (runner.execute workflow { reason := .text reason, data := data })
  let results ← ofAttempt do (← execution.entry "node_results").elements
  let rows ← results.mapM resultRow
  print (.panel (← summary execution) (styled "bold cyan" name))
  print (.table ["Node", "Status", "Duration", "Error"] rows)
  if (← shownEntry execution "status") != "success" then exit 1

/-- The line of a scheduled execution. -/
def scheduleLine (number : Nat) (execution : Value) : Console String := do
  let id ← shownEntry execution "id"
  let status ← shownEntry execution "status"
  let duration ← shownOr execution "duration" "0"
  return "#" ++ natText number ++ " " ++ id ++ " " ++ statusText status ++ " (" ++ duration ++ "ms)"

/-- Executes a workflow again and again, from the run of a number on. -/
def repeatRuns (runner : Runner) (workflow : Value) (interval : Float) (count : Int) :
    (fuel : Nat) → (number : Nat) → Console Unit
  | 0, _ => exhausted
  | fuel + 1, number => do
    let execution ← ofJob (runner.execute workflow { reason := .text "schedule" })
    print (.text (← scheduleLine number execution))
    if count ≠ 0 ∧ count ≤ number then return
    ofWork (Work.ofStep fun w => w.sleep interval)
    repeatRuns runner workflow interval count fuel (number + 1)

/-- Executes a workflow again and again until it has run often enough or the user interrupts. -/
def schedule (fuel : Nat) (content : Content) (interval : Float) (count : Int) (mode : String) :
    Console Unit := do
  let workflow ← load content
  let _ ← ofWork (Container.serve mode)
  let runner ← runner fuel
  let name ← shownEntry workflow "name"
  say ("⏱  Scheduling " ++ name ++ " every " ++ shortText interval ++ "s (Ctrl+C to stop)")
  tryCatch (repeatRuns runner workflow interval count fuel 1) fun halt =>
    match halt with
    | .failed .interrupted => say "Stopped."
    | _ => throw halt

/-- The row of an execution. -/
def executionRow (record : Value) : Console (List String) := do
  let id ← cell (← ofAttempt (record.entry "id"))
  let workflow ← ofAttempt do
    match ← record.find? "workflow_name" with
    | some name => pure name
    | none => pure ((← record.find? "workflow_id").getD (.text ""))
  let status ← shownOr record "status" ""
  let reason ← cell ((← ofAttempt (record.find? "triggered_by")).getD .null)
  let start ← cell ((← ofAttempt (record.find? "start_time")).getD .null)
  let duration ← ofAttempt do ((← record.get "duration").orElse (.int 0)).plain
  return [id, ← cell workflow, statusText status, reason, start, duration ++ "ms"]

/-- Lists executions, the latest first. -/
def executions (workflow : Option String) (limit : Int) (mode : String) : Console Unit := do
  let _ ← ofWork (Container.serve mode)
  let id := workflow.elim .null fun s => .text s
  let records ← ofWork (Store.listExecutions id (.int limit))
  if !records.holds then say "ℹ️  No executions found."
  else
    let rows ← (← ofAttempt records.elements).mapM executionRow
    print (.table ["ID", "Workflow", "Status", "Trigger", "Started", "Duration"] rows)

/-- Lists the node types. -/
def nodeTypes : Console Unit :=
  print (.table ["Type", "Class", "Trigger", "Description"]
    (Registry.builtin.sorted.map fun (type, cls) =>
      [type, cls.name, if cls.isTrigger then "yes" else "", cls.description]))

/-- The short text of a number among the settings. -/
def settingText (v : Value) : Console String :=
  ofAttempt (v.toNumber.map shortText)

/-- How the hosted store is reached. -/
def hostedLines (s : Settings) : List String :=
  let url := s.hostedUrl.getD ""
  let shown := if url.isEmpty then "Not set" else String.ofList (url.toList.take 50) ++ "..."
  let key := if (s.hostedKey.getD "").isEmpty then "Not set" else "Set"
  ["   Supabase URL: " ++ shown, "   Supabase Key: " ++ key]

/-- Shows the settings. -/
def showSettings : Console Unit := do
  let s ← settings
  let visits := match s.visitLimit with
    | some n => if n = 0 then "unlimited" else intText n
    | none => "unlimited"
  say "Configuration:"
  say ("   Mode: " ++ s.mode)
  say ("   Storage Path: " ++ s.storagePath)
  say ("   API Host: " ++ s.apiHost)
  say ("   API Port: " ++ intText s.apiPort)
  say ("   Wait cap: " ++ (← settingText s.waitMax) ++ "s")
  say ("   Max node visits: " ++ visits)
  say ("   HTTP timeout: " ++ (← settingText s.requestTimeout) ++ "s")
  if s.mode == Settings.prodMode then (hostedLines s).forM say

/-- Performs a command; a file that is not there is empty. -/
def perform (fuel : Nat) (content : String → Content) : Command → Console Unit
  | .help => pure ()
  | .serve host port mode => serve host port mode
  | .run file payload reason keep mode => run fuel (content file) payload reason keep mode
  | .schedule file interval count mode => schedule fuel (content file) interval count mode
  | .executions workflow limit mode => executions workflow limit mode
  | .nodeTypes => nodeTypes
  | .config => showSettings

/-- How a command ended: its exit code and, if it was given up, the cause. -/
structure Outcome where
  code : Nat
  failure : Option Failure := none

/-- The exit code of arguments that write no command. -/
def usageCode : Nat := 2

/-- The exit code of a command that has not done what it should. -/
def failureCode : Nat := 1

/-- The ending of a command. An interruption is shown, and is no failure of its own. -/
def outcomeOf (result : Except Halt Unit) (desk : Desk) : Outcome × Desk :=
  match result with
  | .ok () => (⟨0, none⟩, desk)
  | .error (.exit code) => (⟨code, none⟩, desk)
  | .error (.failed .interrupted) =>
    let screen := (desk.screen.add (.line "")).add (.line "Aborted!")
    (⟨failureCode, none⟩, { desk with screen := screen })
  | .error (.failed f) => (⟨failureCode, some f⟩, desk)

/-- Does what some arguments ask for. There is no outcome if the steps that were granted are used
up. -/
def obey (fuel : Nat) (document? : String → Option Content) (arguments : List String)
    (w : World) : Option (Outcome × Desk) :=
  match Command.read? (fun file => (document? file).isSome) arguments with
  | none => some (⟨usageCode, none⟩, { world := w })
  | some command => do
    let content := fun file => (document? file).getD (.text "")
    let (result, desk) ← StateT.run (ExceptT.run (perform fuel content command)) { world := w }
    pure (outcomeOf result desk)

end WorkflowEngine.CommandLine
