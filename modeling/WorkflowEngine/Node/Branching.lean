import WorkflowEngine.Expression.Condition
import WorkflowEngine.Node.Basic

/-!
# Conditions and switches

The nodes that choose a branch. A condition compares one field and takes the branch `true` or
`false`; a switch takes the branch of the first rule that matches, or a default.
-/

namespace WorkflowEngine.Node

/-- The name of a comparison where none is given. -/
def defaultOperator : Value := .text "equals"

/-- Refuses a condition without a field. -/
def validateCondition (node : Node) : Attempt Unit :=
  node.require "field" "Condition node" "a field"

/-- Compares a field of the output before. -/
def runCondition (node : Node) : Act Reply := do
  let s ← Act.state
  let field ← Act.ofAttempt (node.settings.entry "field")
  let operator := (← Act.ofAttempt (node.settings.find? "operator")).getD defaultOperator
  let value := (← Act.ofAttempt (node.settings.find? "value")).getD (.text "")
  let found ← Act.ofAttempt (s.previous.nestedBy s.toScopes field)
  let met ← Act.ofAttempt
    (condition s.toScopes found (Comparison.ofValue? operator) value)
  let report := Value.object [("field", field), ("operator", operator), ("value", value),
    ("fieldValue", found), ("result", .bool met)]
  return .branched (.object [("condition", report), ("data", s.previous)])
    (.text (if met then "true" else "false"))

/-- The comparisons that the rules of a switch may make. -/
def ruleOperators : List String := ["equals", "contains", "greater_than", "less_than"]

/-- The comparison of a rule. -/
def ruleOperator (rule : Value) : Attempt Value := do
  pure ((← rule.get "operator").orElse defaultOperator)

/-- The rules of a switch. -/
def rules (node : Node) : Attempt Value := node.settingOr "rules" (.list [])

/-- Refuses a rule with an unknown comparison. -/
def checkRule (rule : Value) : Attempt Unit := do
  let operator ← ruleOperator rule
  if !ruleOperators.any fun name => operator.isText name then
    throw (.setting (.unknownOperator (← operator.plain)))

/-- Refuses a switch whose rules are unusable. -/
def validateSwitch (node : Node) : Attempt Unit := do
  match ← rules node with
  | .list items _ => items.forM checkRule
  | _ => throw (.setting .rulesNotListed)

/-- The branch of an output. -/
def outputBranch (index : Value) : Attempt Value := do
  pure (.text ("output" ++ (← index.plain)))

/-- The output that a rule leads to. -/
def ruleOutput (rule : Value) : Attempt Value := do
  match ← rule.find? "output" with
  | some index => pure index
  | none => pure ((← rule.find? "outputIndex").getD (.int 0))

/-- The branch of the first rule that matches a field, the default if none does. -/
def chooseBranch (scopes : Scopes) (found fallback : Value) : List Value → Attempt Value
  | [] => outputBranch fallback
  | rule :: rest => do
    let operator ← ruleOperator rule
    let value ← rule.get "value"
    if ← condition scopes found (Comparison.ofValue? operator) value then
      outputBranch (← ruleOutput rule)
    else chooseBranch scopes found fallback rest

/-- Passes the output before on, on the branch of the first rule that matches. -/
def runSwitch (node : Node) : Act Reply := do
  let s ← Act.state
  let field ← Act.ofAttempt (node.settingOr "field" (.text ""))
  let found ← Act.ofAttempt (s.previous.nestedBy s.toScopes field)
  let items ← Act.ofAttempt (do (← rules node).elements)
  let fallback ← Act.ofAttempt (node.setting "defaultOutput")
  let fallback := if fallback.isNull then .int 0 else fallback
  let branch ← Act.ofAttempt (chooseBranch s.toScopes found fallback items)
  return .branched s.previous branch

end WorkflowEngine.Node
