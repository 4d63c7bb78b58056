import WorkflowEngine.Number.Written
import WorkflowEngine.Text.Pieces
import WorkflowEngine.Value.Basic

/-!
# Paths

Dotted paths into a value: names of entries and places in lists, where a negative place counts from
the end. A path that leads nowhere gives null.
-/

namespace WorkflowEngine

open Number Text

/-- What expressions can refer to: the tables of the run, and the output before the present node. -/
structure Context extends Scopes where
  previous : Value := .null
  deriving Inhabited

namespace Value

/-- The item at a place, counted from the end if negative. -/
def itemAt (items : List Value) (place : Int) : Value :=
  let i := if place < 0 then place + items.length else place
  if i < 0 then .null else (items[i.toNat]?).getD .null

/-- One step of a path: the entry of an object, or the item of a list or a row. -/
def step (scopes : Scopes) (v : Value) (segment : List Char) : Value :=
  match v with
  | .list items _ | .tuple items _ =>
    match readInt? (String.ofList segment) with
    | some place => itemAt items place
    | none => .null
  | .dict entries _ => (entries.lookup (.text (String.ofList segment))).getD .null
  | .live scope => ((scopes.table scope).lookup (.text (String.ofList segment))).getD .null
  | _ => .null

/-- Whether a path can lead into the value. -/
def isContainer : Value → Bool
  | .list _ _ | .tuple _ _ | .dict _ _ | .live _ => true
  | _ => false

/-- What a path leads to. The empty path leads to the container itself. -/
def nested (scopes : Scopes) (v : Value) (path : List Char) : Value :=
  if !v.isContainer then .null
  else if path.isEmpty then v
  else (pieces '.' path).foldl (step scopes) v

/-- What a path of the settings leads to. Only texts are paths, but into a value that is no
container, and as the empty path, anything leads. -/
def nestedBy (scopes : Scopes) (v : Value) (path : Value) : Attempt Value :=
  match path with
  | .text s _ => .ok (nested scopes v s.toList)
  | .bytes bs _ =>
    if !v.isContainer then .ok .null
    else if bs.isEmpty then .ok v else .fault .mismatched
  | _ =>
    if !v.isContainer then .ok .null
    else if !path.holds then .ok v else .fault .missingMember

end Value

end WorkflowEngine
