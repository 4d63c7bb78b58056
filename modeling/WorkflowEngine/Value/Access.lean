import WorkflowEngine.Value.Printed

/-!
# Access to parts of values

Entries and items of values of whatever shape, with the fault that arises where the shape does not
allow the access.
-/

namespace WorkflowEngine.Value

/-- The entry under a name, if there is one; only objects can be asked. -/
def find? (v : Value) (name : String) : Attempt (Option Value) :=
  match v with
  | .dict entries _ => .ok (entries.lookup (.text name))
  | _ => .fault .missingMember

/-- The entry under a name, or else null. -/
def get (v : Value) (name : String) : Attempt Value := (v.find? name).map (·.getD .null)

/-- The entry under a name, which has to be there. -/
def entry (v : Value) (name : String) : Attempt Value :=
  match v with
  | .dict entries _ =>
    match entries.lookup (.text name) with
    | some w => .ok w
    | none => .fault (.missingKey (Text.quoted name))
  | _ => .fault .mismatched

/-- The entry under a name in the fields of an object, or else null. -/
def ofField (entries : Fields) (name : String) : Value :=
  (entries.lookup (.text name)).getD .null

/-- The elements that a value goes through when it is enumerated. -/
def elements : Value → Attempt (List Value)
  | .list items _ | .tuple items _ => .ok items
  | .set items _ _ => .ok (items.map ofKey)
  | .dict entries _ => .ok (entries.map fun e => ofKey e.1)
  | .text s _ => .ok (s.toList.map fun c => .text (String.ofList [c]))
  | .bytes bs _ => .ok (bs.map fun b => .int b.toNat)
  | _ => .fault .mismatched

/-- The pair that a row of two gives. -/
def pair (v : Value) : Attempt (Key × Value) := do
  match ← v.elements with
  | [k, w] => pure (← k.key, w)
  | _ => .fault .malformed

/-- The entries of an object, or those that a row of pairs gives. -/
def asFields (v : Value) : Attempt Fields :=
  match v with
  | .dict entries _ => .ok entries
  | _ => do
    let pairs ← (← v.elements).mapM pair
    pure (objectOf pairs)

/-- The value, or another in its place if it does not count as true. -/
def orElse (v w : Value) : Value := if v.holds then v else w

/-- Whether the value is the given text. -/
def isText (v : Value) (s : String) : Bool :=
  match v with
  | .text t _ => t == s
  | _ => false

end WorkflowEngine.Value
