import WorkflowEngine.CommandLine.Arguments
import WorkflowEngine.Failure
import WorkflowEngine.Number.Written
import WorkflowEngine.Settings

/-!
# Commands

The commands that the program understands, and how they are written. Arguments that write none are
refused as a whole.
-/

namespace WorkflowEngine.CommandLine

open Number

/-- A command. A mode that is not given is empty. -/
inductive Command where
  /-- Explains how commands are written. -/
  | help
  /-- Serves requests. -/
  | serve (host : String) (port : Int) (mode : String)
  /-- Executes a workflow from a file once. -/
  | run (file payload reason : String) (keep : Bool) (mode : String)
  /-- Executes a workflow from a file again and again. -/
  | schedule (file : String) (interval : Float) (count : Int) (mode : String)
  /-- Lists executions. -/
  | executions (workflow : Option String) (limit : Int) (mode : String)
  /-- Lists the node types. -/
  | nodeTypes
  /-- Shows the settings. -/
  | config

/-- An option that takes a value. -/
def taking (subject : String) : Switch := ⟨"--" ++ subject, subject, .takes⟩

/-- The option by which a command is explained. -/
def helpSwitch : Switch := ⟨"--help", "help", .sets "yes"⟩

/-- The value of an option, or another one if it is not given. -/
def Given.valueOr (g : Given) (subject other : String) : String := (g.value? subject).getD other

/-- The value of an option that has to be one of some words; empty if it is not given. -/
def Given.choice? (g : Given) (subject : String) (words : List String) : Option String :=
  match g.value? subject with
  | none => some ""
  | some word => if words.contains word then some word else none

/-- The mode that is given. -/
def Given.mode? (g : Given) : Option String :=
  g.choice? "mode" [Settings.soloMode, Settings.prodMode]

/-- The whole number that is given, or another one. -/
def Given.int? (g : Given) (subject : String) (other : Int) : Option Int :=
  match g.value? subject with
  | none => some other
  | some s => readInt? s

/-- The number that is given, or another one. -/
def Given.float? (g : Given) (subject : String) (other : Float) : Option Float :=
  match g.value? subject with
  | none => some other
  | some s => readFloat? s

/-- The one file that is given, if it is there. -/
def Given.file? (g : Given) (isFile : String → Bool) : Option String :=
  match g.places with
  | [file] => if isFile file then some file else none
  | _ => none

/-- Nothing, if nothing is given by place. -/
def Given.noPlaces? (g : Given) : Option Unit := if g.places.isEmpty then some () else none

/-- Reads the arguments of a command, unless they ask for an explanation. -/
def withArguments (switches : List Switch) (arguments : List String)
    (build : Given → Option Command) : Option Command := do
  let g ← Given.read? (helpSwitch :: switches) arguments
  if (g.value? "help").isSome then some .help else build g

/-- Reads the arguments of a request to serve. -/
def readServe (arguments : List String) : Option Command :=
  withArguments [taking "port", taking "mode", taking "host"] arguments fun g => do
    g.noPlaces?
    some (.serve (g.valueOr "host" "") (← g.int? "port" 0) (← g.mode?))

/-- Reads the arguments of a run. -/
def readRun (isFile : String → Bool) (arguments : List String) : Option Command :=
  withArguments [taking "trigger-data", taking "triggered-by", ⟨"--save", "save", .sets "yes"⟩,
      ⟨"--no-save", "save", .sets "no"⟩, taking "mode"] arguments fun g => do
    let reason ← g.choice? "triggered-by" triggerReasons
    let reason := if reason.isEmpty then "manual" else reason
    some (.run (← g.file? isFile) (g.valueOr "trigger-data" "") reason
      (g.valueOr "save" "no" == "yes") (← g.mode?))

/-- Reads the arguments of a schedule. -/
def readSchedule (isFile : String → Bool) (arguments : List String) : Option Command :=
  withArguments [taking "interval", taking "count", taking "mode"] arguments fun g => do
    let interval ← g.float? "interval" (nearest false 60 1)
    some (.schedule (← g.file? isFile) interval (← g.int? "count" 0) (← g.mode?))

/-- Reads the arguments of a list of executions. -/
def readExecutions (arguments : List String) : Option Command :=
  withArguments [taking "workflow-id", taking "limit", taking "mode"] arguments fun g => do
    g.noPlaces?
    some (.executions (g.value? "workflow-id") (← g.int? "limit" 20) (← g.mode?))

/-- Reads the arguments of a command that knows no options. -/
def readBare (command : Command) (arguments : List String) : Option Command :=
  withArguments [] arguments fun g => do
    g.noPlaces?
    some command

/-- Reads a command, given which files there are. -/
def Command.read? (isFile : String → Bool) : List String → Option Command
  | "serve" :: arguments => readServe arguments
  | "run" :: arguments => readRun isFile arguments
  | "schedule" :: arguments => readSchedule isFile arguments
  | "executions" :: arguments => readExecutions arguments
  | "node-types" :: arguments => readBare .nodeTypes arguments
  | "config" :: arguments => readBare .config arguments
  | "--help" :: _ => some .help
  | _ => none

end WorkflowEngine.CommandLine
