import WorkflowEngine.Node.Basic

/-!
# Triggers

The nodes with which a run begins. A trigger hands on the data that the run was started with;
without any it makes up a payload that says that it was triggered, and when, and describes its
event.
-/

namespace WorkflowEngine.Node

/-- The identifier of the execution record, if the run has one. -/
def executionName (s : RunState) : Value := s.executionId.orElse (.text "unknown")

/-- What the payload of a signup holds. -/
def signupFields (node : Node) (s : RunState) (now : String) :
    Attempt (List (String × Value)) := do
  let type ← node.setting "entityType"
  pure [("entityType", type.orElse (.text "both")),
    ("entity", .object [("id", executionName s), ("type", type.orElse (.text "customer")),
      ("registeredAt", .text now)])]

/-- What the payload of an alert holds. -/
def alertFields (node : Node) (s : RunState) : Attempt (List (String × Value)) := do
  pure [("alert", .object [("id", executionName s),
    ("source", ← node.settingOr "alertSource" (.text "external-feed")),
    ("severity", ← node.settingOr "severity" (.text "medium")),
    ("title", .text "External Alert Received"),
    ("description", .text "Threat or intelligence feed update detected"),
    ("data", .dict [])])]

/-- What the payload of a periodic pull holds. Unless it is said otherwise, data is pulled every
360 minutes. -/
def pullFields (node : Node) (now : String) : Attempt (List (String × Value)) := do
  let ids ← node.settingOr "entityIds" (.list [])
  let schedule ← node.settingOr "cronExpression" (.text "0 */6 * * *")
  let dataSources ← node.settingOr "dataSources" (.list [.text "all"])
  let interval ← node.settingOr "pullInterval" (.int 360)
  let entities := (← ids.elements).map fun id =>
    Value.object [("id", id), ("lastRefreshed", .text now)]
  pure [("pullConfig", .object [("cronExpression", schedule), ("entityIds", ids),
      ("dataSources", dataSources), ("pullInterval", interval)]),
    ("entities", .list entities)]

/-- What the payload of an event holds besides the time. -/
def payloadFields (node : Node) (event : TriggerEvent) (s : RunState) (now : String) :
    Attempt (List (String × Value)) :=
  match event with
  | .plain => .ok []
  | .entitySignup => signupFields node s now
  | .externalAlert => alertFields node s
  | .periodicPull => pullFields node now

/-- Starts a run. -/
def runTrigger (node : Node) (event : TriggerEvent) : Act Reply := do
  let s ← Act.state
  if !s.previous.isNull then return .plain s.previous
  let now ← Act.now
  let fields ← Act.ofAttempt (payloadFields node event s now)
  return .plain (.object ([("triggered", .bool true), ("timestamp", .text now)] ++ fields))

end WorkflowEngine.Node
