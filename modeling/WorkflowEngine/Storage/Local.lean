import WorkflowEngine.Storage.Path
import WorkflowEngine.Storage.Work
import WorkflowEngine.Value.Access
import WorkflowEngine.Value.Order
import WorkflowEngine.Value.Sorting
import WorkflowEngine.Workflow

/-!
# The local store

Workflows and execution records, each in a JSON file named by its identifier, and one JSON file of
data values. An identifier that cannot name a file is refused when something is to be written and
found nowhere otherwise.
-/

namespace WorkflowEngine.LocalStore

/-- The folder of the workflows. -/
def workflowFolder : String := "workflows"

/-- The folder of the execution records. -/
def executionFolder : String := "executions"

/-- The file of the data values. -/
def dataFile : String := "data_store.json"

/-- The end of the name of every file of the store. -/
def extension : String := ".json"

/-- The mode of the folders, which their owner alone may use. -/
def folderMode : Nat := 0o700

/-- The mode of a file, or of one of the folders. -/
def modeOf? (files : Files) (path : String) : Option Nat :=
  match files.lookup path with
  | some file => some file.mode
  | none => if [".", workflowFolder, executionFolder].contains path then some folderMode else none

/-- A folder of the store. -/
def directory (w : World) (folder : String) : Path :=
  (Path.ofText w.settings.storagePath).join (.ofText folder)

/-- Whether a name leads to a place right in a folder of the store. -/
def leadsInto (w : World) (folder name : String) : Bool :=
  Path.parent (((directory w folder).join (.ofText name)).resolve w.workingFolder) ==
    (directory w folder).resolve w.workingFolder

/-- The file of a record, unless its identifier cannot name one or leads out of the folder. -/
def recordFile (w : World) (folder : String) (id : Value) : Attempt String := do
  if !(← isSafe id) then throw (.unsafeRecordId (← id.literal))
  let name := (← id.plain) ++ extension
  if !leadsInto w folder name then throw (.unsafeRecordId (← id.literal))
  pure (folder ++ "/" ++ name)

/-- Refuses to write a file in a folder that is not there. -/
def checkFolder (path : String) : Work Unit := do
  let around := (Text.pieces '/' path.toList).dropLast.map String.ofList
  if !([[], [workflowFolder], [executionFolder]].contains around) then Work.fault .absent

/-- Refuses the name of a file that is too long. -/
def checkName (path : String) : Work Unit := do
  let name := String.ofList (Text.behindLast '/' path.toList)
  if nameLimit < (Text.toUtf8 name).length then Work.fault .refused

/-- What a file holds, null if there is none. A file that holds no JSON is noted and counts as
missing. -/
def readFile (path : String) : Work Value := do
  checkName path
  match (← get).files.lookup path with
  | none => pure .null
  | some file =>
    match file.content.read? with
    | none => Work.fault .undecodable
    | some text =>
      match Json.read text with
      | .ok j => pure j.toValue
      | .error c =>
        if c.cause = .longInteger then Work.fault .malformed
        else do
          let base := (← get).settings.storagePath
          Work.remark .error "local_json"
            ("Error reading " ++ base ++ "/" ++ path ++ ": " ++ c.message text)
          pure .null

/-- Keeps a value in a file. If the value cannot be written, the file holds what was written
before the failure. -/
def writeFile (path : String) (v : Value) : Work Unit := do
  checkName path
  checkFolder path
  match v.fileText with
  | .ok text => modify fun w => { w with files := Files.putOwned path text w.files }
  | .error f => do
    let torn := (v.spill Value.fileLayout).1
    modify fun w => { w with files := Files.putContent path (.text torn) w.files }
    throw f

/-- Whether a path is that of a file right in a folder that can hold a record. -/
def isRecord (folder path : String) : Bool :=
  match Text.behind? (folder ++ "/").toList path.toList with
  | some name => !name.contains '/' && extension.toList.isSuffixOf name
  | none => false

/-- The files of a folder that can hold records, in the order in which they came. -/
def recordFiles (folder : String) (files : Files) : List String :=
  (files.map Prod.fst).filter (isRecord folder)

/-- The plain form of a value, for a remark. -/
def shown (v : Value) : Work String := Work.ofAttempt v.plain

/-- Keeps a new execution record. -/
def createExecution (execution : Value) : Work Value := do
  let id ← Work.ofAttempt (execution.entry "id")
  let path ← Work.ofAttempt (recordFile (← get) executionFolder id)
  writeFile path execution
  Work.remark .debug "local_json" ("Created execution " ++ (← shown id))
  pure execution

/-- An execution record, null if there is none. -/
def getExecution (id : Value) : Work Value := do
  if ← Work.ofAttempt (isSafe id) then
    readFile (← Work.ofAttempt (recordFile (← get) executionFolder id))
  else pure .null

/-- Writes the entries of one object, or those that a row of pairs gives, over those of another. -/
def overwrite (record updates : Value) : Attempt Value :=
  match record with
  | .dict entries _ => updates.asFields.map fun news => .dict (Entries.putAll entries news)
  | _ => .fault .missingMember

/-- Changes fields of an execution record; null if there is none. -/
def updateExecution (id updates : Value) : Work Value := do
  if ← Work.ofAttempt (isSafe id) then
    let record ← getExecution id
    if record.isNull then
      Work.remark .warning "local_json"
        ("Execution " ++ (← shown id) ++ " not found for update")
      pure .null
    else
      let record ← Work.ofAttempt (overwrite record updates)
      writeFile (← Work.ofAttempt (recordFile (← get) executionFolder id)) record
      pure record
  else pure .null

/-- The records in some files, those apart that hold none or that are of another workflow. -/
def readExecutions (workflow : Value) : List String → Work (List Value)
  | [] => pure []
  | path :: rest => do
    let record ← readFile path
    if record.isNull then readExecutions workflow rest
    else if workflow.holds then
      let owner ← Work.ofAttempt (record.get "workflow_id")
      if owner.equal workflow then
        let others ← readExecutions workflow rest
        pure (record :: others)
      else readExecutions workflow rest
    else
      let others ← readExecutions workflow rest
      pure (record :: others)

/-- The beginning of a row up to a place, counted from the end if negative. -/
def upTo (items : List Value) (n : Int) : List Value :=
  items.take (if n < 0 then n + items.length else n).toNat

/-- Cuts a row at a limit, if one is given. -/
def limited (items : List Value) (limit : Value) : Attempt (List Value) :=
  if !limit.holds then .ok items
  else
    match limit with
    | .int n _ => .ok (upTo items n)
    | .bool _ => .ok (upTo items 1)
    | _ => .fault .mismatched

/-- The time at which an execution started, the empty text if it is not known. -/
def startTime (record : Value) : Attempt Value := do
  pure ((← record.find? "start_time").getD (.text ""))

/-- Whether one time comes before another. -/
def earlier (a b : Value) : Attempt Bool :=
  match a.less? b with
  | some before => .ok before
  | none => .fault .mismatched

/-- Records with the times at which they started, the latest first. -/
def latestFirst (keyed : List (Value × Value)) : Attempt (List (Value × Value)) :=
  Sorting.sortIn true (fun a b => earlier a.1 b.1) keyed

/-- The execution records, the latest first, of one workflow or of all. -/
def listExecutions (workflow limit : Value) : Work Value := do
  let records ← readExecutions workflow (recordFiles executionFolder (← get).files)
  let keyed ← Work.ofAttempt (records.mapM fun r => do pure (← startTime r, r))
  let ordered ← Work.ofAttempt (latestFirst keyed)
  let cut ← Work.ofAttempt (limited (ordered.map Prod.snd) limit)
  pure (.list cut)

/-- Keeps a workflow. -/
def saveWorkflow (workflow : Value) : Work Value := do
  let id ← Work.ofAttempt (workflow.get "id")
  if !id.holds then throw .workflowWithoutId
  let path ← Work.ofAttempt (recordFile (← get) workflowFolder id)
  writeFile path workflow
  Work.remark .debug "local_json" ("Saved workflow " ++ (← shown id))
  pure workflow

/-- A workflow, null if there is none. -/
def getWorkflow (id : Value) : Work Value := do
  if ← Work.ofAttempt (isSafe id) then
    readFile (← Work.ofAttempt (recordFile (← get) workflowFolder id))
  else pure .null

/-- The workflows in some files. -/
def readWorkflows : List String → Work (List Value)
  | [] => pure []
  | path :: rest => do
    let workflow ← readFile path
    let others ← readWorkflows rest
    pure (if workflow.isNull then others else workflow :: others)

/-- All workflows, ordered by the names of their files. -/
def listWorkflows : Work Value := do
  let paths := (recordFiles workflowFolder (← get).files).mergeSort fun a b => decide (a ≤ b)
  return .list (← readWorkflows paths)

/-- Drops a workflow; whether there was one. -/
def deleteWorkflow (id : Value) : Work Value := do
  if ← Work.ofAttempt (isSafe id) then
    let path ← Work.ofAttempt (recordFile (← get) workflowFolder id)
    checkName path
    if Entries.contains path (← get).files then
      modify fun w => { w with files := Entries.erase path w.files }
      Work.remark .debug "local_json" ("Deleted workflow " ++ (← shown id))
      pure (.bool true)
    else pure (.bool false)
  else pure (.bool false)

/-- All data values, as an object. -/
def loadData : Work Value := do
  let data ← readFile dataFile
  pure (data.orElse (.dict []))

/-- Writes an entry of a value that is to be an object. -/
def putEntry (data key value : Value) : Attempt Value :=
  match data with
  | .dict entries _ => do
    let k ← key.key
    pure (.dict (Entries.put k value entries))
  | _ => .fault .mismatched

/-- Keeps a data value under a key. -/
def setData (key value : Value) : Work Value := do
  let data ← loadData
  let data ← Work.ofAttempt (putEntry data key value)
  writeFile dataFile data
  pure .null

/-- The data value under a key, null if there is none. -/
def getData (key : Value) : Work Value := do
  match ← loadData with
  | .dict entries _ =>
    let k ← Work.ofAttempt key.key
    pure ((entries.lookup k).getD .null)
  | _ => Work.fault .missingMember

end WorkflowEngine.LocalStore
