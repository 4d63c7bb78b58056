import WorkflowEngine.Storage.Hosted

/-!
# The store

Workflows, execution records and data values, kept in whichever store is in use.
-/

namespace WorkflowEngine.Store

/-- The work of the store in use. -/
def on {α : Type} (here there : Work α) : Work α := do
  match (← get).backend with
  | .local => here
  | .hosted => there

/-- Keeps a new execution record, and gives it back as it is kept. -/
def createExecution (execution : Value) : Work Value :=
  on (LocalStore.createExecution execution) (HostedStore.createExecution execution)

/-- Changes fields of an execution record; null if there is none. -/
def updateExecution (id updates : Value) : Work Value :=
  on (LocalStore.updateExecution id updates) (HostedStore.updateExecution id updates)

/-- An execution record, null if there is none. -/
def getExecution (id : Value) : Work Value :=
  on (LocalStore.getExecution id) (HostedStore.getExecution id)

/-- The execution records, the latest first, of one workflow or of all. -/
def listExecutions (workflow limit : Value) : Work Value :=
  on (LocalStore.listExecutions workflow limit) (HostedStore.listExecutions workflow limit)

/-- Keeps a workflow. -/
def saveWorkflow (workflow : Value) : Work Value :=
  on (LocalStore.saveWorkflow workflow) (HostedStore.saveWorkflow workflow)

/-- A workflow, null if there is none. -/
def getWorkflow (id : Value) : Work Value :=
  on (LocalStore.getWorkflow id) (HostedStore.getWorkflow id)

/-- All workflows. -/
def listWorkflows : Work Value := on LocalStore.listWorkflows HostedStore.listWorkflows

/-- Drops a workflow; whether there was one. -/
def deleteWorkflow (id : Value) : Work Value :=
  on (LocalStore.deleteWorkflow id) (HostedStore.deleteWorkflow id)

/-- Keeps a data value under a key. -/
def setData (key value : Value) : Work Value :=
  on (LocalStore.setData key value) (HostedStore.setData key value)

/-- The data value under a key, null if there is none. -/
def getData (key : Value) : Work Value := on (LocalStore.getData key) (HostedStore.getData key)

end WorkflowEngine.Store
