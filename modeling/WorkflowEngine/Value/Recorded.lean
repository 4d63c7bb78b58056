import WorkflowEngine.Text.Encoding
import WorkflowEngine.Value.Json

/-!
# Recorded values

What a record keeps of a value: JSON of bounded depth. Rows and sets become lists, keys texts, bytes
text and dates their written form; objects of other kinds leave a placeholder, and so does whatever
lies too deep. A container that lies inside itself is looked into again and again, to the last level.
-/

namespace WorkflowEngine.Value

/-- How deep a record looks into a value. -/
def recordDepth : Nat := 20

/-- What stands for a part that lies too deep. -/
def tooDeep : Json := .text "<max depth reached>"

/-- What stands for an object of another kind: its text, if that is short and is no placeholder
itself, or its kind alone. -/
def placeholder (home kind : String) (shown : Option String) : Json :=
  let bare := "<" ++ home ++ "." ++ kind ++ ">"
  match shown with
  | some s =>
    .text (if s.length < 200 ∧ ¬ s.startsWith "<" then "<" ++ kind ++ ": " ++ s ++ ">" else bare)
  | none => .text bare

/-- What a record keeps of a value that holds no others. -/
def recordedLeaf : Value → Json
  | .null => .null
  | .bool b => .bool b
  | .int n _ => .int n
  | .float x _ => .float x
  | .text s _ => .text s
  | .bytes bs _ => .text (Text.utf8Lossy bs)
  | .moment t _ => .text t.iso
  | .day d _ => .text d.iso
  | .complex re im _ => placeholder "builtins" "complex" (some (complexText re im))
  | .ellipsis => placeholder "builtins" "ellipsis" (some "Ellipsis")
  | .thing t _ => placeholder t.home t.kind t.shown
  | .list _ _ | .tuple _ _ | .set _ _ _ | .dict _ _ | .live _ | .enclosing _ _ => .null

/-- A place in a value: what stands there, and the containers around it, the innermost in front. -/
structure Place where
  value : Value
  around : List Value := []

/-- What a place is made of. -/
inductive Layer where
  | leaf (v : Value)
  | row (items : List Place)
  | table (entries : List (Key × Place))

namespace Place

/-- Where a reference to a container around the place leads; any other place stands for itself. -/
def settle (p : Place) : Place :=
  match p.value with
  | .enclosing _ up =>
    match p.around.drop up with
    | v :: outer => ⟨v, outer⟩
    | [] => p
  | _ => p

/-- The place of a part of the container that stands at a place. -/
def inner (p : Place) (part : Value) : Place := ⟨part, p.value :: p.around⟩

/-- The parts of what stands at a place. Nothing in a set refers to what lies around it, and nothing
in a table of the run to what lies around that. -/
def layer (scopes : Scopes) (p : Place) : Layer :=
  let p := p.settle
  match p.value with
  | .list items _ | .tuple items _ => .row (items.map p.inner)
  | .set items _ _ => .row (items.map fun k => ⟨ofKey k, []⟩)
  | .dict entries _ => .table (entries.map fun e => (e.1, p.inner e.2))
  | .live scope => .table ((scopes.table scope).map fun e => (e.1, ⟨e.2, [.live scope]⟩))
  | leaf => .leaf leaf

end Place

/-- Names the entries by the plain form of their keys; of two entries with one name the later
counts. -/
def namedEntries {α : Type} (record : α → Attempt Json) :
    List (Key × α) → Attempt (List (String × Json))
  | [] => .ok []
  | (k, v) :: rest => do
    let name ← k.plain
    let j ← record v
    let others ← namedEntries record rest
    pure ((name, j) :: others)

/-- What a record keeps of what stands at a place, looking `depth` levels deep. -/
def recordedAt (scopes : Scopes) : (depth : Nat) → Place → Attempt Json
  | 0, _ => .ok tooDeep
  | depth + 1, p =>
    match p.layer scopes with
    | .leaf v => .ok (recordedLeaf v)
    | .row items => (items.mapM (recordedAt scopes depth)).map Json.list
    | .table entries =>
      (namedEntries (recordedAt scopes depth) entries).map fun es =>
        .object (Entries.ofList es)

/-- What a record keeps of a value, looking `depth` levels deep. -/
def recordedTo (scopes : Scopes) (depth : Nat) (v : Value) : Attempt Json :=
  recordedAt scopes depth ⟨v, []⟩

/-- What a record keeps of a value. -/
def recorded (scopes : Scopes) (v : Value) : Attempt Json := recordedTo scopes recordDepth v

end WorkflowEngine.Value
