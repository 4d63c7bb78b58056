import WorkflowEngine.Storage.Local

/-!
# The hosted store

The same store as tables of a hosted database. Every operation is one chain of calls; where reading
fails the failure is noted and nothing is found, where writing fails it is passed on.
-/

namespace WorkflowEngine.HostedStore

/-- Makes the calls of a chain one after another. -/
def sendAll : List Call → Work Unit
  | [] => pure ()
  | call :: rest => do
    modify fun w => { w with hosted := { w.hosted with calls := w.hosted.calls ++ [call] } }
    match (← get).hosted.failure with
    | some (name, failure) => if call.name = name then throw failure else sendAll rest
    | none => sendAll rest

/-- Makes the calls of a chain on a table; the data that it answers. -/
def query (table : String) (chain : List Call) : Work Value := do
  sendAll ([⟨"table", [.text table], []⟩] ++ chain ++ [⟨"execute", [], []⟩])
  return (← get).hosted.answer

/-- A call with the given arguments. -/
def call (name : String) (arguments : List Value) : Call := ⟨name, arguments, []⟩

/-- The calls that pick one row by the value of a column. -/
def pick (column : String) (v : Value) : List Call :=
  [call "eq" [.text column, v], call "limit" [.int 1]]

/-- The first element of a row of data. -/
def firstRow (data : Value) : Attempt Value :=
  match data with
  | .list (v :: _) _ | .tuple (v :: _) _ => .ok v
  | .text _ _ => (data.elements).map fun vs => vs.headD .null
  | .dict entries _ =>
    match entries.lookup (.int 0) with
    | some v => .ok v
    | none => .fault (.missingKey "0")
  | _ => .fault .mismatched

/-- The first row of the data, or another value if there is none. -/
def firstOr (data other : Value) : Attempt Value :=
  if data.holds then firstRow data else .ok other

/-- Notes a failure. -/
def complain (what : String) (f : Failure) : Work Unit :=
  Work.remark .error "supabase" ("Error " ++ what ++ ": " ++ f.shown)

/-- Notes a failure and passes it on. -/
def orRaise {α : Type} (what : Work String) (work : Work α) : Work α :=
  tryCatch work fun f => do
    if f.isRecordable then complain (← what) f
    throw f

/-- Notes a failure and answers with something else. -/
def orElse {α : Type} (what : Work String) (other : α) (work : Work α) : Work α :=
  tryCatch work fun f => do
    if f.isRecordable then
      complain (← what) f
      pure other
    else throw f

/-- Words for an action on something with an identifier. -/
def about (action : String) (id : Value) : Work String := do
  pure (action ++ " " ++ (← LocalStore.shown id))

/-- Keeps a new execution record. -/
def createExecution (execution : Value) : Work Value := do
  let data ← orRaise (do about "creating execution" (← Work.ofAttempt (execution.entry "id")))
    (query "executions" [call "insert" [execution]])
  Work.ofAttempt (firstOr data execution)

/-- Changes fields of an execution record; null if there is none. -/
def updateExecution (id updates : Value) : Work Value := do
  let data ← orRaise (about "updating execution" id)
    (query "executions" [call "update" [updates], call "eq" [.text "id", id]])
  Work.ofAttempt (firstOr data .null)

/-- An execution record, null if there is none. -/
def getExecution (id : Value) : Work Value :=
  orElse (about "getting execution" id) .null do
    let data ← query "executions" (call "select" [.text "*"] :: pick "id" id)
    Work.ofAttempt (firstOr data .null)

/-- The execution records, the latest first, of one workflow or of all. -/
def listExecutions (workflow limit : Value) : Work Value :=
  orElse (pure "listing executions") (.list []) do
    let filter := if workflow.holds then [call "eq" [.text "workflow_id", workflow]] else []
    let data ← query "executions" (call "select" [.text "*"] :: filter ++
      [⟨"order", [.text "start_time"], [("desc", .bool true)]⟩, call "limit" [limit]])
    pure (data.orElse (.list []))

/-- Keeps a workflow. -/
def saveWorkflow (workflow : Value) : Work Value := do
  let id ← Work.ofAttempt (workflow.get "id")
  if !id.holds then throw .workflowWithoutId
  let name := (← Work.ofAttempt (workflow.find? "name")).getD id
  let row := Value.object [("id", id), ("name", name), ("definition", workflow)]
  let _ ← orRaise (about "saving workflow" id)
    (query "workflows" [call "upsert" [row]])
  pure workflow

/-- A workflow, null if there is none. -/
def getWorkflow (id : Value) : Work Value :=
  orElse (about "getting workflow" id) .null do
    let data ← query "workflows" (call "select" [.text "definition"] :: pick "id" id)
    if data.holds then
      Work.ofAttempt (do (← firstRow data).entry "definition")
    else pure .null

/-- All workflows, ordered by name. -/
def listWorkflows : Work Value :=
  orElse (pure "listing workflows") (.list []) do
    let data ← query "workflows" [call "select" [.text "definition"], call "order" [.text "name"]]
    let rows ← Work.ofAttempt (data.orElse (.list [])).elements
    let definitions ← Work.ofAttempt (rows.mapM fun row => row.entry "definition")
    pure (.list definitions)

/-- Drops a workflow; whether there was one. -/
def deleteWorkflow (id : Value) : Work Value :=
  orElse (about "deleting workflow" id) (.bool false) do
    let data ← query "workflows" [call "delete" [], call "eq" [.text "id", id]]
    pure (.bool data.holds)

/-- Keeps a data value under a key. -/
def setData (key value : Value) : Work Value := do
  let row := Value.object [("key", key), ("value", value)]
  let _ ← query "data_store" [call "upsert" [row]]
  pure .null

/-- The data value under a key, null if there is none. -/
def getData (key : Value) : Work Value :=
  orElse (about "getting data value" key) .null do
    let data ← query "data_store" (call "select" [.text "value"] :: pick "key" key)
    if data.holds then Work.ofAttempt (do (← firstRow data).entry "value")
    else pure .null

end WorkflowEngine.HostedStore
