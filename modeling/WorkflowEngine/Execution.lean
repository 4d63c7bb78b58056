import WorkflowEngine.Engine

/-!
# Executions

A run with a record in the store: written as running before the first node is invoked, and brought
to its final status when the run has ended, with every result up to the end. A run that is given up
is a failed execution and no failure of its own; an interruption alone leaves the record as it is.
-/

namespace WorkflowEngine

open Number

/-- Work that may have no end: it has no outcome at all if the steps that were granted are used
up. -/
abbrev Job := ExceptT Failure (StateT World Option)

namespace Job

/-- Work in the world, as a job. -/
def ofWork {α : Type} (work : Work α) : Job α := ExceptT.mk fun w => some (work.runIn w)

/-- A job that is given up or not, and changes nothing. -/
def ofAttempt {α : Type} (a : Attempt α) : Job α := ofWork (.ofAttempt a)

/-- Runs a job in a world. -/
def runIn {α : Type} (job : Job α) (w : World) : Option (Attempt α × World) :=
  StateT.run (ExceptT.run job) w

end Job

/-- What runs workflows: the known node types, the most visits of a run, the steps that are granted
to a walk, whether nodes can store data, and how changes of a record reach the store. -/
structure Runner where
  registry : Registry := .builtin
  budget : Option Int := none
  fuel : Nat
  hasStorage : Bool := true
  update : Value → Value → Work Value := Store.updateExecution

/-- What triggers an execution: a reason and the data that come with it. -/
structure Occasion where
  reason : Value := .text "manual"
  data : Value := .null

/-- How a run ended: its results, the tables it left, and whether it was given up. -/
structure Ending where
  results : List NodeResult
  scopes : Scopes
  result : Attempt Unit

/-- Refuses a reason that is not known. -/
def checkReason (reason : Value) : Attempt Unit := do
  if !triggerReasons.any fun known => reason.isText known then
    throw (.unknownReason (← reason.plain))

/-- The record of an execution that begins. -/
def newRecord (id : String) (workflow : Value) (reason : Value) (start : String) :
    Attempt Value := do
  let workflowId := (← workflow.find? "id").getD (.text "unknown")
  let name := (← workflow.find? "name").getD workflowId
  pure (.object [("id", .text id), ("workflow_id", workflowId), ("workflow_name", name),
    ("status", .text "running"), ("triggered_by", reason), ("start_time", .text start),
    ("node_results", .list [])])

/-- The status and, of a run that was given up, the cause. -/
def Ending.status (ending : Ending) : List (String × Value) :=
  match ending.result with
  | .ok () => [("status", .text "success")]
  | .error f => [("status", .text "failed"), ("error", .text f.recorded)]

/-- What a record keeps of the results of a run. -/
def Ending.recordedResults (ending : Ending) : Attempt Json :=
  (Value.list (ending.results.map NodeResult.toValue)).recorded ending.scopes

/-- What changes in the record of an execution when its run has ended. -/
def Ending.updates (ending : Ending) (start stop : Instant) : Attempt Value := do
  let results ← ending.recordedResults
  pure (.object (ending.status ++ [("end_time", .text (isoText stop)),
    ("duration", .int (elapsedMilliseconds start stop)), ("node_results", results.toValue)]))

namespace Runner

/-- The state in which a run begins. -/
def freshState (runner : Runner) (occasion : Occasion) (id : Value) : RunState :=
  { previous := occasion.data.madeBy (.given 0), executionId := id,
    hasStorage := runner.hasStorage }

/-- Runs a workflow in the world. -/
def walkOut (runner : Runner) (workflow : Value) (state : RunState) : Job Ending :=
  ExceptT.mk fun w => do
    let walk := runWorkflow runner.registry runner.budget runner.fuel workflow
    let (result, run) ← StateT.run (ExceptT.run walk) { world := w, state := state }
    pure (.ok ⟨run.results, run.state.toScopes, result⟩, run.world)

/-- Notes a remark on executions. -/
def remark (level : Level) (message : String) : Job Unit :=
  .ofWork (Work.remark level "runner" message)

/-- The plain form of an entry of a record. -/
def entryText (record : Value) (name : String) : Attempt String := do (← record.entry name).plain

/-- Notes that a run was given up. -/
def noteEnding (id : String) (ending : Ending) : Job Unit :=
  match ending.result with
  | .ok () => pure ()
  | .error f => remark .error ("Execution " ++ id ++ " failed: " ++ f.recorded)

/-- Runs a workflow with all events tagged by the execution. An interruption is passed on. -/
def runTagged (runner : Runner) (workflow : Value) (occasion : Occasion) (id : Value) :
    Job Ending := do
  let tag := (← get).tag
  modify fun w => { w with tag := tag.within { execution := id } }
  let ending ← runner.walkOut workflow (runner.freshState occasion id)
  match ending.result with
  | .error .interrupted =>
    modify fun w => { w with tag := tag }
    throw .interrupted
  | _ =>
    noteEnding id.label ending
    modify fun w => { w with tag := tag }
    pure ending

/-- The record as the store keeps it after a change, or the changed record if the store has lost
it. -/
def keepEnding (runner : Runner) (record updates : Value) : Job Value := do
  let id ← Job.ofAttempt (record.entry "id")
  let updated ← Job.ofWork (runner.update id updates)
  if updated.isNull then Job.ofAttempt (LocalStore.overwrite record updates) else pure updated

/-- Begins an execution: its record is kept, as running. -/
def openRecord (workflow : Value) (occasion : Occasion) : Job Value := do
  Job.ofAttempt (checkReason occasion.reason)
  let (id, w) := (← get).newId
  set w
  let fresh ← Job.ofAttempt (newRecord id workflow occasion.reason w.now)
  let record ← Job.ofWork (Store.createExecution fresh)
  let name ← Job.ofAttempt (entryText record "workflow_name")
  let key ← Job.ofAttempt (record.entry "id")
  remark .info ("Starting execution " ++ key.label ++ " of workflow " ++ name)
  pure record

/-- Ends an execution that began at some time: its record is brought to its final status. -/
def closeRecord (runner : Runner) (record : Value) (start : Instant) (ending : Ending) :
    Job Value := do
  let updates ← Job.ofAttempt (ending.updates start (← get).clock)
  let final ← runner.keepEnding record updates
  let key ← Job.ofAttempt (record.entry "id")
  let status ← Job.ofAttempt (entryText updates "status")
  let duration ← Job.ofAttempt (entryText updates "duration")
  remark .info ("Execution " ++ key.label ++ " finished with status " ++ status ++ " in " ++
    duration ++ "ms")
  pure final

/-- Executes a workflow; the final record is the result. -/
def execute (runner : Runner) (workflow : Value) (occasion : Occasion) : Job Value := do
  let record ← openRecord workflow occasion
  let start := (← get).clock
  let key ← Job.ofAttempt (record.entry "id")
  let ending ← runner.runTagged workflow occasion key
  runner.closeRecord record start ending

end Runner

end WorkflowEngine
