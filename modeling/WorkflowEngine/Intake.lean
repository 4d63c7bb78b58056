import WorkflowEngine.Storage.Work
import WorkflowEngine.Workflow

/-!
# Taking in workflows

Reading a workflow into a world that takes note of what is odd about it: a second definition of a
node is no mistake, and yet it never counts.
-/

namespace WorkflowEngine.Workflow

/-- What is noted of a workflow that defines a node twice. -/
def duplicateRemark (workflow : Value) : String :=
  let id := match workflow with
    | .dict entries _ => Value.ofField entries "id"
    | _ => .null
  "Workflow " ++ id.label ++ " has duplicate node ids; first definition wins"

/-- Takes in a workflow that has been read. -/
def takeIn (reading : Attempt Value) : Work Value := do
  let workflow ← Work.ofAttempt reading
  if hasDuplicates workflow then
    Work.remark .warning "workflow" (duplicateRemark workflow)
  pure workflow

end WorkflowEngine.Workflow
