import WorkflowEngine.Expression.Evaluate
import WorkflowEngine.Graph
import WorkflowEngine.Storage

/-!
# Nodes

What a node is: its kind with the name and description under which the kind is known, and what its
definition says of it. A node acts on the world and the state of the run, and answers with an output
and, if it chooses one, a branch.
-/

namespace WorkflowEngine

/-- The answer of a node. -/
inductive Reply where
  | plain (output : Value)
  | branched (output branch : Value)
  deriving Inhabited

/-- The output of an answer. -/
def Reply.output : Reply → Value
  | .plain output => output
  | .branched output _ => output

/-- The branch of an answer, null if none is chosen. -/
def Reply.branch : Reply → Value
  | .plain _ => .null
  | .branched _ branch => branch

/-- A function that acts as a node, given the settings and the state of the run. -/
abbrev Executor := Value → ExceptT Failure (StateM RunState) Reply

/-- A function that is given up or not, and changes nothing. -/
def Executor.ofAttempt {α : Type} (a : Attempt α) : ExceptT Failure (StateM RunState) α :=
  ExceptT.mk (pure a)

/-- The event that a trigger stands for. -/
inductive TriggerEvent where
  | plain
  | entitySignup
  | externalAlert
  | periodicPull
  deriving DecidableEq, Repr

/-- What a node does. -/
inductive Kind where
  | trigger (event : TriggerEvent)
  | condition
  | switch
  | loop
  | merge
  | setVariable
  | wait
  | filter
  | sort
  | httpRequest
  | storeData
  | webhookResponse
  | passthrough
  /-- A function from outside; a branching one has to choose a branch. -/
  | custom (run : Executor) (branching : Bool)

/-- A kind of nodes, with the name and the description under which it is known. -/
structure NodeClass where
  name : String
  description : String := ""
  isTrigger : Bool := false
  kind : Kind

/-- The kind that passes its input on. -/
def NodeClass.passthrough : NodeClass := { name := "PassthroughNode", kind := .passthrough }

/-- A node of a workflow. -/
structure Node where
  id : Key
  type : Value
  label : Value
  settings : Value
  cls : NodeClass
  /-- The known nodes from which edges lead here, each once. -/
  sources : List Key := []

/-- A node of a class, from its definition. -/
def Node.ofDefinition (cls : NodeClass) (definition : Value) : Attempt Node := do
  let id ← definition.entry "id"
  let type := (← definition.find? "type").getD (.text "")
  let data := (← definition.get "data").orElse (.dict [])
  let label := (← data.get "label").orElse id
  let settings := (← data.get "config").orElse (.dict [])
  pure { id := ← id.key, type := type, label := label, settings := settings, cls := cls }

/-- The node as it stands in a graph. -/
def Node.place (node : Node) (graph : Graph) : Node :=
  { node with sources := (graph.sources node.id).eraseDups }

/-- Whether the walk follows the edges of the node. A loop replays its body itself. -/
def Node.followsEdges (node : Node) : Bool :=
  match node.cls.kind with
  | .loop => false
  | _ => true

/-- The setting under a name, null if there is none. -/
def Node.setting (node : Node) (name : String) : Attempt Value := node.settings.get name

/-- The setting under a name, or another value if it does not count as true. -/
def Node.settingOr (node : Node) (name : String) (other : Value) : Attempt Value := do
  pure ((← node.setting name).orElse other)

/-- Whether a setting that has to be there is missing: null, or an empty text, list or object. -/
def isMissing : Value → Bool
  | .null => true
  | .text s _ => s.isEmpty
  | .list items _ => items.isEmpty
  | .dict entries _ => entries.isEmpty
  | _ => false

/-- Refuses a node without a setting that has to be there. -/
def Node.require (node : Node) (name who what : String) : Attempt Unit := do
  if isMissing (← node.setting name) then throw (.setting (.requires who what))

/-- What a node acts on: the world and the state of the run. -/
structure Bench where
  world : World
  state : RunState
  deriving Inhabited

/-- The action of a node. -/
abbrev Act := ExceptT Failure (StateM Bench)

namespace Act

/-- Runs an action on a bench. -/
def runOn {α : Type} (act : Act α) (bench : Bench) : Attempt α × Bench :=
  StateT.run (ExceptT.run act) bench

/-- An action that is given up or not, and changes nothing. -/
def ofAttempt {α : Type} : Attempt α → Act α
  | .ok a => pure a
  | .error f => throw f

/-- Gives up for a data fault. -/
def fault {α : Type} (f : DataFault) : Act α := throw (.data f)

/-- Work in the world, as an action. -/
def ofWork {α : Type} (work : Work α) : Act α := do
  let bench ← get
  let (result, w) := work.runIn bench.world
  set { bench with world := w }
  ofAttempt result

/-- The state of the run. -/
def state : Act RunState := do return (← get).state

/-- Changes the state of the run. -/
def changeState (f : RunState → RunState) : Act Unit :=
  modify fun bench => { bench with state := f bench.state }

/-- The time of the clock as it is written. -/
def now : Act String := do return (← get).world.now

/-- Notes a remark of a part of the program. -/
def remark (level : Level) (source message : String) : Act Unit :=
  ofWork (Work.remark level source message)

/-- The value of a setting that may be an expression. A text that cannot be read as one is noted,
and stands for itself. -/
def evaluate (v : Value) : Act Value := do
  let context := (← state).toContext
  match v with
  | .text s _ =>
    match context.evaluate? s with
    | some w => pure w
    | none => do
      remark .warning "expressions" ("Expression evaluation failed: " ++ s)
      pure v
  | _ => pure v

/-- A text of the settings with its placeholders filled in; only texts have placeholders. -/
def fillIn (v : Value) : Act Value := do
  match v with
  | .text s _ =>
    if Template.hasHole s then
      ofAttempt ((interpolate (← state).toContext s).map fun t => .text t)
    else pure v
  | _ => fault .mismatched

/-- The output of the node before, if it is an object; an empty object otherwise. -/
def previousFields : Act Fields := do
  let s ← state
  pure ((s.previous.entries? s.toScopes).getD [])

end Act

end WorkflowEngine
