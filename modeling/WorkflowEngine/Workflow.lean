import WorkflowEngine.Graph
import WorkflowEngine.Json.Reader
import WorkflowEngine.Text.Encoding
import WorkflowEngine.Text.Pieces
import WorkflowEngine.Value.Json

/-!
# Workflow definitions

Reading a workflow from JSON, with everything in its place that later stages rely on: identifiers
are texts, nodes have labels and settings, edges have identifiers. Writing it as JSON again.
-/

namespace WorkflowEngine

open Number Text

/-- The parts that an identifier must not hold if it is to name a file. -/
def unsafeParts : List String := ["/", "\\", "..", "\x00"]

/-- Whether an identifier can name a file. -/
def isSafeId (id : String) : Bool :=
  !id.isEmpty && !unsafeParts.any fun part => isWithin part.toList id.toList

/-- Whether a value can name a file. Of values other than texts, containers are safe if they have
elements and none of these is an unsafe part. -/
def isSafe (id : Value) : Attempt Bool :=
  match id with
  | .text s _ => .ok (isSafeId s)
  | .list items _ | .tuple items _ =>
    .ok (!items.isEmpty && !unsafeParts.any fun part => items.any fun v => v.isText part)
  | .set items _ _ =>
    .ok (!items.isEmpty && !unsafeParts.any fun part => items.contains (.text part))
  | .dict entries _ =>
    .ok (!entries.isEmpty && !unsafeParts.any fun part => Entries.contains (.text part) entries)
  | v => if v.holds then .fault .mismatched else .ok false

namespace Workflow

/-- Gives up because the definition is unusable. -/
def refuse {α : Type} (fault : FormatFault) : Attempt α := .error (.format fault)

/-- The plain form of a value, as text. -/
def plainText (v : Value) : Attempt Value := v.plain.map fun s => .text s

/-- The fields of an object, or the fault that arises if it is none. -/
def fieldsOr (fault : FormatFault) (v : Value) : Attempt Fields :=
  match v with
  | .dict entries _ => .ok entries
  | _ => refuse fault

/-- The value, an empty object in its place if it does not count as true. -/
def orObject (v : Value) : Value := v.orElse (.dict [])

/-- Reads a node. -/
def readNode (index : Nat) (raw : Value) : Attempt Value := do
  let entries ← fieldsOr (.itemNotAnObject "Node" index) raw
  let id := Value.ofField entries "id"
  let type := Value.ofField entries "type"
  if !id.holds then refuse (.lacks "Node" (natText index) "an id")
  if !type.holds then refuse (.lacks "Node" (← id.plain) "a type")
  let name ← id.plain
  let data := orObject (.ofField entries "data")
  let dataFields ← fieldsOr (.partNotAnObject name "data") data
  let config := orObject (.ofField dataFields "config")
  let _ ← fieldsOr (.partNotAnObject name "config") config
  let label := (Value.ofField dataFields "label").orElse (.text name)
  let position := match entries.lookup (.text "position") with
    | some p => [("position", p)]
    | none => []
  pure (.object ([("id", .text name), ("type", ← plainText type),
    ("data", .object [("label", label), ("config", config)])] ++ position))

/-- A handle of an edge, if it has one, as text. -/
def readHandle (entries : Fields) (name : String) : Attempt (List (String × Value)) :=
  let handle := Value.ofField entries name
  if handle.isNull then .ok [] else (plainText handle).map fun v => [(name, v)]

/-- What a complaint calls an edge: by its identifier, or by its place if it has none. -/
def calledEdge (entries : Fields) (index : Nat) : Attempt String :=
  match entries.lookup (.text "id") with
  | some id => id.plain
  | none => .ok (natText index)

/-- Complains about an end that an edge lacks. -/
def needEnd (entries : Fields) (index : Nat) (name : String) : Attempt Unit := do
  if !(Value.ofField entries name).holds then
    refuse (.lacks "Edge" (← calledEdge entries index) ("a " ++ name))

/-- The name of an edge that has none: its place and its two ends. -/
def edgeName (index : Nat) (source target : String) : String :=
  "e" ++ natText index ++ "-" ++ source ++ "-" ++ target

/-- Reads an edge. -/
def readEdge (index : Nat) (raw : Value) : Attempt Value := do
  let entries ← fieldsOr (.itemNotAnObject "Edge" index) raw
  needEnd entries index "source"
  needEnd entries index "target"
  let id := Value.ofField entries "id"
  let source ← (Value.ofField entries "source").plain
  let target ← (Value.ofField entries "target").plain
  let name ← if id.holds then id.plain else pure (edgeName index source target)
  let sourceHandle ← readHandle entries "sourceHandle"
  let targetHandle ← readHandle entries "targetHandle"
  pure (.object ([("id", .text name), ("source", .text source), ("target", .text target)] ++
    sourceHandle ++ targetHandle))

/-- Reads some items, each with its place. -/
def readAll (read : Nat → Value → Attempt Value) : (index : Nat) → List Value →
    Attempt (List Value)
  | _, [] => .ok []
  | index, v :: vs => do
    let first ← read index v
    let others ← readAll read (index + 1) vs
    pure (first :: others)

/-- The items of a list, or the fault that arises if it is none. -/
def listOr (fault : FormatFault) (v : Value) : Attempt (List Value) :=
  match v with
  | .list items _ => .ok items
  | _ => refuse fault

/-- An entry that is taken over as it is, if it is there. -/
def kept (entries : Fields) (name : String) : List (String × Value) :=
  match entries.lookup (.text name) with
  | some v => [(name, v)]
  | none => []

/-- Reads a workflow from a decoded definition. -/
def ofValue (raw : Value) : Attempt Value := do
  let entries ← fieldsOr .notAnObject raw
  let nodes ← listOr (.notListed "nodes") (.ofField entries "nodes")
  let edges ← listOr (.notListed "edges")
    ((entries.lookup (.text "edges")).getD (.list []))
  let id ← ((Value.ofField entries "id").orElse (.text "workflow")).plain
  if !isSafeId id then refuse (.unsafeId id)
  let name ← ((Value.ofField entries "name").orElse (.text id)).plain
  let nodes ← readAll readNode 0 nodes
  let edges ← readAll readEdge 0 edges
  pure (.object ([("id", .text id), ("name", .text name), ("nodes", .list nodes),
    ("edges", .list edges)] ++ kept entries "description" ++ kept entries "metadata"))

/-- Reads JSON from text. An integer with too many digits is no complaint about the form. -/
def decodeText (source : String) : Attempt Value :=
  match Json.read source with
  | .ok j => .ok j.toValue
  | .error c =>
    if c.cause = .longInteger then .fault .malformed
    else refuse (.notJson (c.message source))

/-- Reads a workflow from JSON text. -/
def ofText (source : String) : Attempt Value := do ofValue (← decodeText source)

/-- Reads a workflow from the bytes of a JSON text in any of the Unicode encodings. -/
def ofBytes (bytes : List UInt8) : Attempt Value :=
  match detected? bytes with
  | some source => ofText source
  | none => refuse (.notJson "undecodable")

/-- Reads a workflow from what it is given as: text, bytes or a decoded definition. -/
def parse (v : Value) : Attempt Value :=
  match v with
  | .text s _ => ofText s
  | .bytes bs _ => ofBytes bs
  | _ => ofValue v

/-- Reads a workflow from the content of a file in UTF-8, whose line ends are unified. -/
def ofFile (content : List UInt8) : Attempt Value :=
  match utf8? content with
  | some source => ofText (String.ofList (unifyLineEnds source.toList))
  | none => .fault .undecodable

/-- The identifiers of the nodes of a workflow. -/
def nodeIds (workflow : Value) : List Value :=
  match workflow with
  | .dict entries _ =>
    match Value.ofField entries "nodes" with
    | .list nodes _ => nodes.map fun n => match n with
      | .dict fields _ => Value.ofField fields "id"
      | _ => .null
    | _ => []
  | _ => []

/-- Whether two nodes of a workflow share their identifier. -/
def hasDuplicates (workflow : Value) : Bool :=
  let ids := (nodeIds workflow).map fun v => (v.key?).getD .null
  ids.eraseDups.length != ids.length

/-- The JSON text of a workflow; without a unit of indentation it stands on one line. Values that
JSON does not know are refused. -/
def dump (workflow : Value) (unit : Option String) : Attempt String :=
  (workflow.toJson false).map fun j => j.render unit

end Workflow

end WorkflowEngine
