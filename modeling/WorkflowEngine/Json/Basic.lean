import WorkflowEngine.Value.Basic

/-!
# JSON

What JSON can say, with integers of any size and binary64 numbers apart and the entries of an
object in their order; and JSON as values.
-/

namespace WorkflowEngine

/-- A JSON value. -/
inductive Json where
  | null
  | bool (b : Bool)
  | int (n : Int)
  | float (x : Float)
  | text (s : String)
  | list (items : List Json)
  | object (entries : List (String × Json))
  deriving Inhabited

namespace Json

mutual

/-- The value that a JSON value stands for. -/
def toValue : Json → Value
  | .null => .null
  | .bool b => .bool b
  | .int n => .int n
  | .float x => .float x
  | .text s => .text s
  | .list items => .list (toValues items)
  | .object entries => .dict (toFields entries)

/-- The values that some JSON values stand for. -/
def toValues : List Json → List Value
  | [] => []
  | j :: js => toValue j :: toValues js

/-- The fields that the entries of an object stand for. -/
def toFields : List (String × Json) → Fields
  | [] => []
  | (k, j) :: rest => (.text k, toValue j) :: toFields rest

end

/-- The entry of an object under a name. -/
def field? (name : String) : Json → Option Json
  | .object entries => entries.lookup name
  | _ => none

end Json

end WorkflowEngine
