import WorkflowEngine.Node.Dispatch

/-!
# The registry of node types

Which class of nodes a type names. Functions can be registered as further types; a type that is not
registered passes its input on.
-/

namespace WorkflowEngine

/-- The registered types, in the order of registration. -/
abbrev Registry := List (String × NodeClass)

namespace Registry

/-- A class of triggers. -/
def triggerClass (name description : String) (event : TriggerEvent) : NodeClass :=
  { name := name, description := description, isTrigger := true, kind := .trigger event }

/-- A class of other nodes. -/
def plainClass (name description : String) (kind : Kind) : NodeClass :=
  { name := name, description := description, kind := kind }

/-- The class of the triggers without an event of their own. -/
def plainTrigger : NodeClass :=
  triggerClass "TriggerNode" "Starts a workflow run with the trigger payload" .plain

/-- The types that are always there. -/
def builtin : Registry := [
  ("manual-trigger", plainTrigger),
  ("webhook-trigger", plainTrigger),
  ("schedule-trigger", plainTrigger),
  ("entity-signup-trigger", triggerClass "EntitySignupTriggerNode"
    "Starts a run when a new customer or vendor registers" .entitySignup),
  ("external-alert-trigger", triggerClass "ExternalAlertTriggerNode"
    "Starts a run when an external alert feed updates" .externalAlert),
  ("periodic-data-pull-trigger", triggerClass "PeriodicDataPullTriggerNode"
    "Starts a periodic refresh of entity data" .periodicPull),
  ("condition", plainClass "ConditionNode" "Branch on a field comparison" .condition),
  ("switch", plainClass "SwitchNode" "Route to the first matching output" .switch),
  ("loop", plainClass "LoopNode" "Run the downstream nodes once per list item" .loop),
  ("merge", plainClass "MergeNode" "Combine the outputs of incoming paths" .merge),
  ("set-variable", plainClass "SetVariableNode" "Set run variables" .setVariable),
  ("wait", plainClass "WaitNode" "Delay the run" .wait),
  ("filter", plainClass "FilterNode" "Keep items matching a condition" .filter),
  ("sort", plainClass "SortNode" "Sort items by a field" .sort),
  ("http-request", plainClass "HttpRequestNode" "Call an HTTP endpoint" .httpRequest),
  ("store-data", plainClass "StoreDataNode" "Save a value to the data store" .storeData),
  ("webhook-response", plainClass "WebhookResponseNode" "Respond to the webhook caller"
    .webhookResponse)]

/-- Registers a class under a type, in place of the one that was registered under it. -/
def register (registry : Registry) (type : String) (cls : NodeClass) : Registry :=
  Entries.put type cls registry

/-- The name of the class that is made for a type: its parts between hyphens and underscores, each
with a capital in front, and the word `Node`. -/
def className (type : String) : String :=
  let parts := Text.pieces '-' (type.toList.map fun c => if c = '_' then '-' else c)
  String.join (parts.map fun cs => Text.capitalize (String.ofList cs)) ++ "Node"

/-- The description of a function: the one given, or else the first line of its comment. -/
def describe (description comment : String) : String :=
  if description.isEmpty then
    String.ofList (Text.cutFirst '\n' (Text.strip comment).toList).1
  else description

/-- The class of a function that acts as a node. -/
def executorClass (type : String) (run : Executor) (branching isTrigger : Bool)
    (description comment : String) : NodeClass :=
  { name := className type, description := describe description comment, isTrigger := isTrigger,
    kind := .custom run branching }

/-- The class that a value names, if it names one; only what can be looked up by can be asked. -/
def lookup? (registry : Registry) (type : Value) : Attempt (Option NodeClass) := do
  match ← type.key with
  | .text name => pure (registry.lookup name)
  | _ => pure none

/-- The node of a definition. -/
def makeNode (registry : Registry) (definition : Value) : Attempt Node := do
  let _ ← definition.entry "id"
  let type := (← definition.find? "type").getD (.text "")
  Node.ofDefinition ((← registry.lookup? type).getD .passthrough) definition

/-- The types with which a run can begin, in the order of registration. -/
def triggerTypes (registry : Registry) : List String :=
  (registry.filter fun e => e.2.isTrigger).map Prod.fst

/-- What is shown of a registered type. -/
def entry (type : String) (cls : NodeClass) : Value :=
  .object [("type", .text type), ("name", .text cls.name), ("is_trigger", .bool cls.isTrigger),
    ("description", .text cls.description)]

/-- The registered types, in alphabetical order. -/
def sorted (registry : Registry) : Registry :=
  registry.mergeSort fun a b => decide (a.1 ≤ b.1)

/-- What is shown of all registered types. -/
def listing (registry : Registry) : List Value := registry.sorted.map fun e => entry e.1 e.2

end Registry

end WorkflowEngine
