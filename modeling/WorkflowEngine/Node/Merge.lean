import WorkflowEngine.Node.Basic

/-!
# Merges

The node that joins the outputs of the nodes before it. It takes those outputs that are there when
it is reached, and the output of the node just before unless that is one of them; it may also wait
until all are there.
-/

namespace WorkflowEngine.Node

/-- The sources whose outputs are not there yet. -/
def missingSources (node : Node) (s : RunState) : List Key :=
  node.sources.filter fun id => !Entries.contains id s.outputs

/-- Whether a merge can run now. One that waits notes what it waits for. -/
def mergeReady (node : Node) : Act Bool := do
  let waits ← Act.ofAttempt (node.setting "waitForAll")
  if !waits.holds then return true
  let missing := missingSources node (← Act.state)
  if missing.isEmpty then return true
  Act.ofWork (Work.note (.mergeWaits node.id missing))
  return false

/-- What a merge joins. -/
def mergeInputs (node : Node) (s : RunState) : List Value :=
  let inputs := node.sources.filterMap fun id => s.outputs.lookup id
  if s.previous.isNull || inputs.any s.previous.same then inputs else inputs ++ [s.previous]

/-- The union of some inputs, the later value of a key overwriting the earlier one. Inputs that are
no objects are entered by their place, counted from `i`; null is left out. -/
def uniteFrom (scopes : Scopes) (i : Nat) (merged : Fields) : List Value → Fields
  | [] => merged
  | v :: vs =>
    let merged := match v.entries? scopes with
      | some entries => entries.foldl (fun merged (k, w) => Value.putField k w merged) merged
      | none =>
        if v.isNull then merged
        else Value.putField (.text ("value" ++ Number.natText i)) v merged
    uniteFrom scopes (i + 1) merged vs

/-- The items of the lists among some inputs, and the other inputs, in order. -/
def joinLists (inputs : List Value) : List Value :=
  inputs.flatMap fun v => match v with
    | .list items _ => items
    | _ => [v]

/-- Joins the inputs in the way that the settings name. -/
def runMerge (node : Node) : Act Reply := do
  let s ← Act.state
  let mode ← Act.ofAttempt (node.settingOr "mode" (.text "merge"))
  let inputs := mergeInputs node s
  if mode.isText "merge" then
    let merged := uniteFrom s.toScopes 0 [] inputs
    return .plain (if merged.isEmpty then s.previous else .dict merged)
  else if mode.isText "append" then return .plain (.list (joinLists inputs))
  else if mode.isText "multiplex" then
    return .plain (.list (if inputs.isEmpty then [s.previous] else inputs))
  else return .plain (inputs.getLast?.getD s.previous)

end WorkflowEngine.Node
