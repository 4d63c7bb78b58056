import WorkflowEngine.Json.Printer

/-!
# Values as JSON

What of a value JSON can say. Rows become lists, and keys become texts. Values that JSON does not
know are shown in their plain form where that is wanted, and are refused otherwise; keys of other
kinds and tables inside themselves are always refused.
-/

namespace WorkflowEngine

open Number

/-- The name under which JSON writes an entry with this key. -/
def Key.jsonName : Key → Attempt String
  | .text s => .ok s
  | .null => .ok "null"
  | .bool b => .ok (if b then "true" else "false")
  | .int n => integerText n
  | .float x => .ok (Json.numberText x)
  | _ => .fault .mismatched

namespace Value

/-- The JSON text that stands for a value which JSON does not know. -/
def foreignText (showing : Bool) (v : Value) : Attempt Json :=
  if showing then v.plain.map Json.text else .fault .mismatched

mutual

/-- A value as JSON; `showing` has values that JSON does not know shown in their plain form. -/
def toJson (showing : Bool) : Value → Attempt Json
  | .null => .ok .null
  | .bool b => .ok (.bool b)
  | .int n _ => if longIntegerBound ≤ n.natAbs then .fault .malformed else .ok (.int n)
  | .float x _ => .ok (.float x)
  | .text s _ => .ok (.text s)
  | .list items _ => (toJsons showing items).map Json.list
  | .tuple items _ => (toJsons showing items).map Json.list
  | .dict entries _ => (toJsonEntries showing entries).map Json.object
  | .live _ | .enclosing _ _ => .fault .malformed
  | v => foreignText showing v

/-- Some values as JSON. -/
def toJsons (showing : Bool) : List Value → Attempt (List Json)
  | [] => .ok []
  | v :: vs => do
    let j ← toJson showing v
    let js ← toJsons showing vs
    pure (j :: js)

/-- Some entries as JSON. -/
def toJsonEntries (showing : Bool) : Fields → Attempt (List (String × Json))
  | [] => .ok []
  | (k, v) :: rest => do
    let name ← k.jsonName
    let j ← toJson showing v
    let others ← toJsonEntries showing rest
    pure ((name, j) :: others)

end

/-- The JSON text of a value on one line, foreign values shown. -/
def jsonText (scopes : Scopes) (v : Value) : Attempt String :=
  ((v.unfold scopes).toJson true).map Json.compact

end Value

end WorkflowEngine
