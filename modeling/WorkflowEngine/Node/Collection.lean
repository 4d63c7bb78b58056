import WorkflowEngine.Expression.Condition
import WorkflowEngine.Node.Basic
import WorkflowEngine.Value.Sorting

/-!
# Filters and sorts

The nodes that pick from a list or put it in order by a field of its items. In an object every list
among its values is treated so. Numbers are ordered by size and everything else by its text; items
without the field come last.
-/

namespace WorkflowEngine.Node

/-- Refuses a filter without a field. -/
def validateFilter (node : Node) : Attempt Unit := node.require "field" "Filter node" "a field"

/-- Whether an item passes a filter. -/
def passes (node : Node) (scopes : Scopes) (item : Value) : Attempt Bool := do
  let field ← node.settings.entry "field"
  let found ← item.nestedBy scopes field
  let operator := (← node.settings.find? "operator").getD (.text "equals")
  condition scopes found (Comparison.ofValue? operator) (← node.setting "value")

/-- The items that pass a filter. -/
def keepPassing (node : Node) (scopes : Scopes) : List Value → Attempt (List Value)
  | [] => .ok []
  | item :: rest => do
    let pass ← passes node scopes item
    let others ← keepPassing node scopes rest
    pure (if pass then item :: others else others)

/-- Treats every list among some entries. -/
def mapLists (f : List Value → Attempt (List Value)) : Fields → Attempt Fields
  | [] => .ok []
  | (k, v) :: rest => do
    let v ← match v with
      | .list items _ => (f items).map fun items => Value.list items
      | _ => pure v
    let others ← mapLists f rest
    pure ((k, v) :: others)

/-- Filters the output before. -/
def runFilter (node : Node) : Act Reply := do
  let s ← Act.state
  let scopes := s.toScopes
  match s.previous with
  | .list items _ =>
    let kept ← Act.ofAttempt (keepPassing node scopes items)
    return .plain (.object [("filtered", .bool true), ("originalCount", .int items.length),
      ("filteredCount", .int kept.length), ("items", .list kept)])
  | data =>
    match data.entries? scopes with
    | some entries =>
      return .plain (.dict (← Act.ofAttempt (mapLists (keepPassing node scopes) entries)))
    | none =>
      let pass ← Act.ofAttempt (passes node scopes data)
      return .plain (if pass then data else .null)

/-- The number that a key is, booleans apart. -/
def number? : Value → Option Key
  | .int n _ => some (.int n)
  | .float x _ => some (.float x)
  | _ => none

/-- The order of two keys: of two numbers by size, of others by their texts. -/
def compareKeys (scopes : Scopes) (v w : Value) : Attempt Ordering :=
  match number? v, number? w with
  | some m, some n => .ok ((Key.compareNumbers? m n).getD .eq)
  | _, _ => do
    let s ← v.toText scopes
    let t ← w.toText scopes
    pure (compare s t)

/-- Whether a key comes before another. -/
def comesBefore (scopes : Scopes) (v w : Value) : Attempt Bool :=
  (compareKeys scopes v w).map (· == .lt)

/-- Some items in order by a field, those without it last. -/
def sortItems (node : Node) (scopes : Scopes) (items : List Value) : Attempt (List Value) := do
  let field ← node.settings.entry "field"
  let descending := (← node.setting "direction").isText "desc"
  let keyed ← items.mapM fun item => do pure (← item.nestedBy scopes field, item)
  let present := keyed.filter fun p => !p.1.isNull
  let missing := (keyed.filter fun p => p.1.isNull).map Prod.snd
  let ordered ← Sorting.sortIn descending (fun a b => comesBefore scopes a.1 b.1) present
  pure (ordered.map Prod.snd ++ missing)

/-- Refuses a sort without a field. -/
def validateSort (node : Node) : Attempt Unit := node.require "field" "Sort node" "a field"

/-- Sorts the output before. -/
def runSort (node : Node) : Act Reply := do
  let s ← Act.state
  let scopes := s.toScopes
  match s.previous with
  | .list items _ =>
    let direction := (← Act.ofAttempt (node.settings.find? "direction")).getD (.text "asc")
    let ordered ← Act.ofAttempt (sortItems node scopes items)
    return .plain (.object [("sorted", .bool true), ("direction", direction),
      ("items", .list ordered)])
  | data =>
    match data.entries? scopes with
    | some entries =>
      return .plain (.dict (← Act.ofAttempt (mapLists (sortItems node scopes) entries)))
    | none => return .plain data

end WorkflowEngine.Node
