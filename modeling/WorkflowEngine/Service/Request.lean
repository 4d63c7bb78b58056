import WorkflowEngine.Execution
import WorkflowEngine.Number.Written
import WorkflowEngine.Text.Blank

/-!
# Requests

What a request brings along, and the form that it has to have: a workflow to keep, or the occasion
of an execution. Fields that are not asked for are dropped, and nothing is converted.
-/

namespace WorkflowEngine.Service

open Number Text

/-- A request. -/
structure Request where
  method : String
  address : String
  /-- Further pairs of the query. -/
  query : List (String × String) := []
  /-- What is sent along, as JSON text. -/
  body : String := ""

/-- An answer. The body is null where its content is left open. -/
structure Answer where
  status : Nat
  body : Value
  deriving Inhabited

/-- The answer of a request that succeeds. -/
def Answer.good (body : Value) : Answer := ⟨200, body⟩

/-- An answer with a detail and nothing else. -/
def Answer.detail (status : Nat) (detail : String) : Answer :=
  ⟨status, .object [("detail", .text detail)]⟩

/-- The answer to a request whose form is wrong. -/
def Answer.malformed : Answer := ⟨422, .null⟩

/-- The answer to a request that breaks the service. -/
def Answer.broken : Answer := ⟨500, .null⟩

/-- The answer to a request whose body can be read in no way at all. -/
def Answer.unreadable : Answer := .detail 400 "There was an error parsing the body"

/-- What is sent along, if anything, or the answer if it cannot be read. -/
def readBody (body : String) : Except Answer (Option Value) :=
  if body.isEmpty then .ok none
  else
    match detected? (toUtf8 body) with
    | none => .error .unreadable
    | some source =>
      match Json.read source with
      | .ok j => .ok (some j.toValue)
      | .error c => .error (if c.cause = .longInteger then .unreadable else .malformed)

/-- A text. -/
def asText? : Value → Option Value
  | .text s mark => some (.text s mark)
  | _ => none

/-- An object. -/
def asObject? : Value → Option Value
  | .dict entries mark => some (.dict entries mark)
  | _ => none

/-- A list of objects. -/
def asObjects? : Value → Option Value
  | .list items mark => (items.mapM asObject?).map fun items => .list items mark
  | _ => none

/-- A field that has to be there, in the form that it has to have. -/
def needed (entries : Fields) (name : String) (form : Value → Option Value) :
    Option (List (String × Value)) := do
  let v ← entries.lookup (.text name)
  let w ← form v
  some [(name, w)]

/-- A field with a value that stands in for it if it is not there. -/
def standing (entries : Fields) (name : String) (form : Value → Option Value) (other : Value) :
    Option (List (String × Value)) :=
  match entries.lookup (.text name) with
  | some v => (form v).map fun w => [(name, w)]
  | none => some [(name, other)]

/-- A field that is dropped if it is null or not there. -/
def dropping (entries : Fields) (name : String) (form : Value → Option Value) :
    Option (List (String × Value)) :=
  match entries.lookup (.text name) with
  | some .null | none => some []
  | some v => (form v).map fun w => [(name, w)]

/-- A workflow as it is sent. -/
def readWorkflow? (v : Value) : Option Value :=
  match v with
  | .dict entries _ => do
    let id ← needed entries "id" asText?
    let name ← standing entries "name" asText? (.text "")
    let nodes ← standing entries "nodes" asObjects? (.list [])
    let edges ← standing entries "edges" asObjects? (.list [])
    let description ← dropping entries "description" asText?
    let metadata ← dropping entries "metadata" asObject?
    some (.object (id ++ name ++ nodes ++ edges ++ description ++ metadata))
  | _ => none

/-- The occasion of an execution as it is sent. -/
def readOccasion? (v : Value) : Option Occasion :=
  match v with
  | .dict entries _ => do
    let reason := (entries.lookup (.text "triggered_by")).getD (.text "manual")
    if triggerReasons.any fun known => reason.isText known then
      some ⟨reason, Value.ofField entries "trigger_data"⟩
    else none
  | _ => none

/-- A workflow that is to be executed at once, and the occasion. -/
def readExecution? (v : Value) : Option (Value × Occasion) :=
  match v with
  | .dict entries _ => do
    let workflow ← readWorkflow? (Value.ofField entries "workflow")
    some (workflow, ← readOccasion? v)
  | _ => none

/-- Digits with single underscores between them. -/
def groupedDigits? (cs : List Char) : Option Nat :=
  let parts := pieces '_' cs
  if parts.all fun part => !part.isEmpty && part.all fun c => '0' ≤ c && c ≤ '9' then
    some (ofDigits (parts.flatten.map fun c => c.toNat - 48))
  else none

/-- The whole number that a value of a query writes, be it with zeros behind a point. -/
def readLimit? (s : String) : Option Int :=
  let (negative, body) := takeSign (trimBack (trimFront s.toList))
  let (whole, fraction) := cutFirst '.' body
  match groupedDigits? whole, fraction with
  | some n, none => some (signed negative n)
  | some n, some zeros =>
    if !zeros.isEmpty && zeros.all (· == '0') then some (signed negative n) else none
  | none, _ => none

end WorkflowEngine.Service
