import WorkflowEngine.CommandLine.Perform
import WorkflowEngine.Environment

/-!
# The program

Reads the store and the files that the arguments name, lets the command do its work on them, and
writes back what has changed.
-/

namespace WorkflowEngine.Program

/-- The variables of the environment that the program looks at. -/
def variableNames : List String :=
  ["HOME", "FLOWLINE_CORE_MODE", "FLOWLINE_CORE_STORAGE_PATH", "SUPABASE_URL",
   "NEXT_PUBLIC_SUPABASE_URL", "SUPABASE_SERVICE_ROLE_KEY", "FLOWLINE_CORE_HOST",
   "FLOWLINE_CORE_PORT", "FLOWLINE_CORE_DEBUG", "FLOWLINE_CORE_WAIT_MAX_SECONDS",
   "FLOWLINE_CORE_MAX_NODE_VISITS", "FLOWLINE_CORE_HTTP_TIMEOUT"]

/-- The environment of the program. -/
def readEnvironment : IO Environment := do
  let found ← variableNames.mapM fun name => do
    return (← IO.getEnv name).map fun value => (name, value)
  return found.filterMap id

/-- The file at a path, if there is one. -/
def readDocument (path : String) : IO (Option Content) := do
  let file := (← IO.currentDir) / path
  if ← file.isDir then return none
  if ← file.pathExists then
    return some (.raw (← IO.FS.readBinFile file).toList)
  else return none

/-- The files of a folder below a base; `shown` stands in front of their names. -/
def readFolder (base folder shown : String) : IO Files := do
  let place := (← IO.currentDir) / base / folder
  if !(← place.isDir) then return []
  let entries ← place.readDir
  let found ← entries.toList.mapM fun entry => do
    if ← entry.path.isDir then return none
    let bytes ← IO.FS.readBinFile entry.path
    return some (shown ++ entry.fileName, (⟨.raw bytes.toList, ownerOnly⟩ : File))
  return found.filterMap id

/-- The files of a store. -/
def readStore (base : String) : IO Files := do
  let top ← readFolder base "." ""
  let workflows ← readFolder base LocalStore.workflowFolder (LocalStore.workflowFolder ++ "/")
  let executions ← readFolder base LocalStore.executionFolder (LocalStore.executionFolder ++ "/")
  return top ++ workflows ++ executions

/-- Writes the files that have changed, and removes those that are gone. -/
def writeStore (base : String) (before after : Files) : IO Unit := do
  let place := (← IO.currentDir) / base
  IO.FS.createDirAll (place / LocalStore.workflowFolder)
  IO.FS.createDirAll (place / LocalStore.executionFolder)
  for (path, file) in after do
    if before.lookup path != some file then
      IO.FS.writeBinFile (place / path) (ByteArray.mk file.content.bytes.toArray)
      if file.mode == ownerOnly then
        let rights : IO.AccessRight := { read := true, write := true }
        IO.setAccessRights (place / path) { user := rights }
  for (path, _) in before do
    if !Entries.contains path after then IO.FS.removeFile (place / path)

/-- The time, as the file system notes it for a file that is written now. -/
def readClock (base : String) : IO Instant := do
  let place := (← IO.currentDir) / base
  IO.FS.createDirAll place
  let mark := place / ".clock"
  IO.FS.writeFile mark ""
  let modified := (← mark.metadata).modified
  IO.FS.removeFile mark
  return modified.sec * 1000000 + modified.nsec.toNat / 1000

/-- The steps that a walk is granted. -/
def walkSteps : Nat := Nat.pow 10 12

/-- Does what some arguments ask for; the exit code is the result. -/
def run (settings : Settings) (arguments : List String) : IO UInt32 := do
  let base := settings.storagePath
  let documents ← arguments.mapM fun path => do return (path, ← readDocument path)
  let files ← readStore base
  let issued := (LocalStore.recordFiles LocalStore.executionFolder files).length
  let w : World :=
    { settings := settings, clock := ← readClock base, files := files, issued := issued }
  let document? := fun file => (documents.lookup file).bind id
  match CommandLine.obey walkSteps document? arguments w with
  | none => return 1
  | some (outcome, desk) =>
    for piece in desk.screen.shown do
      for line in piece.lines do IO.println line
    for seconds in desk.world.sleeps do
      IO.sleep (seconds * 1000).toUInt32
    writeStore base files desk.world.files
    if let some failure := outcome.failure then
      IO.eprintln (failure.kind ++ ": " ++ failure.text)
    return outcome.code.toUInt32

end WorkflowEngine.Program

/-- The program: its settings come from the environment. -/
def main (arguments : List String) : IO UInt32 := do
  match WorkflowEngine.Settings.ofEnvironment (← WorkflowEngine.Program.readEnvironment) with
  | .ok settings => WorkflowEngine.Program.run settings arguments
  | .error failure =>
    IO.eprintln failure.text
    return 1
