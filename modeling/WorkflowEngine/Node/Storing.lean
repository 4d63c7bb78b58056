import WorkflowEngine.Node.Basic

/-!
# Storing data

The node that keeps a value in the store, under a key. A text is kept as it is unless it is JSON;
every other value is kept as JSON text.
-/

namespace WorkflowEngine.Node

/-- Refuses a node without a key. -/
def validateStoring (node : Node) : Attempt Unit :=
  node.require "key" "Store Data node" "a key"

/-- The value that is kept: the given one, with the placeholders of a text filled in and the text
read as JSON if it is JSON, or else the output before. -/
def valueToStore (node : Node) : Act Value := do
  let raw ← Act.ofAttempt (node.setting "value")
  if !raw.holds then return (← Act.state).previous
  match raw with
  | .text _ _ =>
    match ← Act.fillIn raw with
    | .text s mark =>
      match Json.read? s with
      | some j => return j.toValue
      | none => return .text s mark
    | v => return v
  | _ => return raw

/-- The text that a value is kept as. -/
def storedText (scopes : Scopes) (v : Value) : Attempt String :=
  match v with
  | .text s _ => .ok s
  | _ => v.jsonText scopes

/-- Keeps a value. -/
def runStoring (node : Node) : Act Reply := do
  let s ← Act.state
  if !s.hasStorage then throw .noStorage
  let name ← Act.ofAttempt (do (← node.settings.entry "key").plain)
  let key ← Act.ofAttempt (interpolate s.toContext name)
  let value ← valueToStore node
  let stored ← Act.ofAttempt (storedText s.toScopes value)
  let _ ← Act.ofWork (Store.setData (.text key) (.text stored))
  return .plain (.object [("stored", .bool true), ("key", .text key), ("value", value),
    ("previousData", s.previous)])

end WorkflowEngine.Node
