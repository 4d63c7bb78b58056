import WorkflowEngine.Expression.Path
import WorkflowEngine.Value.Order
import WorkflowEngine.Value.Recorded

/-!
# The state of a run

What one run carries from node to node: variables, the outputs so far, the output of the node
before, which nodes have been executed, and the loops that are being replayed, innermost first.
-/

namespace WorkflowEngine

/-- The replay of a loop. -/
structure Frame where
  node : Key
  items : List Value
  /-- The place of the item that is being processed. -/
  index : Int := 0
  /-- The output of the node before the loop, to go back to. -/
  saved : Value := .null
  deriving Inhabited

/-- The state of a run. -/
structure RunState extends Context where
  executed : List Key := []
  /-- The replays that are under way, innermost first. -/
  frames : List Frame := []
  /-- The identifier of the execution record, null without one. -/
  executionId : Value := .null
  /-- Whether the nodes of the run can store data. -/
  hasStorage : Bool := false
  /-- Counts runs and visits, to tell what one of them made from what another made. -/
  time : Nat := 0
  deriving Inhabited

namespace RunState

/-- Whether a loop is being replayed. -/
def inLoop (s : RunState) : Bool := !s.frames.isEmpty

/-- Outside loops every node is executed at most once. -/
def shouldSkip (s : RunState) (id : Key) : Bool := s.executed.contains id && !s.inLoop

/-- Adds nodes to those that have been executed. -/
def markExecuted (s : RunState) (ids : List Key) : RunState :=
  { s with executed := s.executed ++ (ids.filter fun id => !s.executed.contains id).eraseDups }

/-- Marks the nodes that some values name as executed, up to the first value that can name none. -/
def markEach (s : RunState) : List Value → Attempt Unit × RunState
  | [] => (.ok (), s)
  | v :: vs =>
    match v.key with
    | .ok id => (s.markExecuted [id]).markEach vs
    | .error f => (.error f, s)

/-- Keeps the output of a node, which counts as executed outside loops. -/
def record (s : RunState) (id : Key) (output : Value) : RunState :=
  let s := { s with outputs := Entries.put id output s.outputs, previous := output }
  if s.inLoop then s else s.markExecuted [id]

/-- Begins the replay of a loop. -/
def enterLoop (s : RunState) (id : Key) (items : List Value) : RunState :=
  { s with frames := { node := id, items := items, saved := s.previous } :: s.frames }

/-- Ends the innermost replay: its frame is dropped, and the output of the node before it is
back. -/
def leaveLoop (s : RunState) : RunState :=
  match s.frames with
  | frame :: rest => { s with frames := rest, previous := frame.saved }
  | [] => s

/-- Turns the innermost replay to the item at a place. -/
def setIndex (s : RunState) (index : Int) : RunState :=
  match s.frames with
  | frame :: rest => { s with frames := { frame with index := index } :: rest }
  | [] => s

/-- Sets a variable. -/
def setVariable (s : RunState) (name : Key) (v : Value) : RunState :=
  { s with vars := Value.putField name v s.vars }

/-- Sets the output of the node before. -/
def setPrevious (s : RunState) (v : Value) : RunState := { s with previous := v }

/-- What is shown of a state: its tables as a record keeps them, and the executed nodes in order. -/
def snapshot (s : RunState) : Attempt Value := do
  let scopes := s.toScopes
  let vars ← (Value.live .vars).recorded scopes
  let outputs ← (Value.live .outputs).recorded scopes
  let executed ← Key.sorted s.executed
  pure (.object [("variables", vars.toValue), ("outputs", outputs.toValue),
    ("executed_nodes", .list (executed.map Value.ofKey))])

end RunState

end WorkflowEngine
