import WorkflowEngine.Node.Basic

/-!
# Setting variables

The node that writes values into the variables of the run: texts with their placeholders filled in,
numbers, truth values, or the values of expressions.
-/

namespace WorkflowEngine.Node

/-- Refuses a node that sets nothing, or something without a name. -/
def validateSetVariable (node : Node) : Attempt Unit := do
  let vars ← node.setting "variables"
  if !vars.holds then
    throw (.setting (.requires "Set Variable node" "at least one variable"))
  (← vars.elements).forM fun entry => do
    match entry with
    | .dict fields _ =>
      if !(Value.ofField fields "key").holds then throw (.setting .entryWithoutKey)
    | _ => throw (.setting .entryWithoutKey)

/-- Whether a value stands for truth: truth itself, or the text `true` in any letter case. -/
def isTruth (scopes : Scopes) (raw : Value) : Attempt Bool :=
  match raw with
  | .bool b => .ok b
  | _ => do
    let text ← raw.toText scopes
    pure ((Text.strip text).toList.map Number.asciiLower == "true".toList)

/-- The value that a variable is set to. -/
def convert (raw type : Value) : Act Value := do
  let scopes := (← Act.state).toScopes
  if type.isText "number" then
    return .float (← Act.ofAttempt raw.toNumber)
  else if type.isText "boolean" then
    return .bool (← Act.ofAttempt (isTruth scopes raw))
  else if type.isText "expression" then Act.evaluate raw
  else
    match raw with
    | .text _ _ => Act.fillIn raw
    | _ => return raw

/-- Sets the variables that some entries name, and keeps what was set. Values made in the course
are told apart by `slot`. -/
def setAll (time slot : Nat) (done : Fields) : List Value → Act Fields
  | [] => pure done
  | entry :: rest => do
    let raw := (← Act.ofAttempt (entry.find? "value")).getD (.text "")
    let type := (← Act.ofAttempt (entry.get "type")).orElse (.text "string")
    let value ← convert raw type
    let value := value.madeBy (.visit time slot)
    let name ← Act.ofAttempt (do (← entry.entry "key").key)
    Act.changeState fun s => s.setVariable name value
    setAll time (slot + 1) (Value.putField name value done) rest

/-- Sets variables; the output is the object before with what was set. -/
def runSetVariable (node : Node) : Act Reply := do
  let time := (← Act.state).time
  let vars ← Act.ofAttempt (do (← node.settings.entry "variables").elements)
  let done ← setAll time 2 [] vars
  let before ← Act.previousFields
  return .plain (.dict (Entries.put (.text "variables") (.dict done) before))

end WorkflowEngine.Node
