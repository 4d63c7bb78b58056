import WorkflowEngine.Number.Written
import WorkflowEngine.Value.Json

/-!
# Coercions

The text and the number that stand for a value when it is compared or put into a template.
-/

namespace WorkflowEngine.Value

open Number Text

/-- The text of a value: nothing for null, whole numbers without a point, lists and objects as
JSON. -/
def toText (scopes : Scopes) (v : Value) : Attempt String :=
  match v with
  | .null => .ok ""
  | .bool b => .ok (if b then "true" else "false")
  | .float x _ =>
    if isWhole x then
      match truncate? x with
      | some n => integerText n
      | none => .ok (floatText x)
    else .ok (floatText x)
  | .dict _ _ | .list _ _ | .live _ => v.jsonText scopes
  | _ => (v.unfold scopes).plain

/-- The number that a text writes, zero for a blank one, and not-a-number if it writes none. -/
def numberOfText (s : String) : Float :=
  let body := strip s
  if body.isEmpty then nearest false 0 1 else (readFloat? body).getD notANumber

/-- The number that stands for a value; values of other kinds give not-a-number. -/
def toNumber : Value → Attempt Float
  | .bool b => .ok (ofQuotient (if b then 1 else 0) 1)
  | .int n _ =>
    match ofInt? n with
    | some x => .ok x
    | none => .fault .tooLarge
  | .float x _ => .ok x
  | .text s _ => .ok (numberOfText s)
  | _ => .ok notANumber

end WorkflowEngine.Value
