import WorkflowEngine.Value.Access
import WorkflowEngine.Value.Compare

/-!
# Graphs

The nodes and edges of a workflow, and the questions that a walk asks of them. Edges keep their
order everywhere; an edge counts only if the node at its far end is known. Of several definitions of
a node the first counts.
-/

namespace WorkflowEngine

/-- A node as a workflow defines it. -/
structure Definition where
  id : Key
  /-- The whole definition. -/
  body : Value
  deriving Inhabited

/-- An edge from a node to another, taken on any branch or on one alone. -/
structure Edge where
  source : Key
  target : Key
  /-- The branch on which the edge is taken; null stands for no branch in particular. -/
  handle : Value
  deriving Inhabited

/-- A workflow as a graph. -/
structure Graph where
  id : Value
  name : Value
  nodes : List Definition
  edges : List Edge
  deriving Inhabited

/-- A node from its definition. -/
def Definition.ofValue (v : Value) : Attempt Definition := do
  let id ← v.entry "id"
  pure ⟨← id.key, v⟩

/-- The type of a node, null if it has none. -/
def Definition.type (d : Definition) : Attempt Value := d.body.get "type"

/-- An edge from its definition. -/
def Edge.ofValue (v : Value) : Attempt Edge := do
  let source ← (← v.entry "source").key
  let target ← (← v.entry "target").key
  pure ⟨source, target, ← v.get "sourceHandle"⟩

namespace Graph

/-- The graph of a workflow. -/
def ofValue (workflow : Value) : Attempt Graph := do
  let id := (← workflow.find? "id").getD (.text "unknown")
  let name := (← workflow.find? "name").getD id
  let nodes ← ((← workflow.get "nodes").orElse (.list [])).elements
  let edges ← ((← workflow.get "edges").orElse (.list [])).elements
  let nodes ← nodes.mapM Definition.ofValue
  let edges ← edges.mapM Edge.ofValue
  pure ⟨id, name, nodes, edges⟩

/-- The definition of a node. -/
def node? (g : Graph) (id : Key) : Option Definition := g.nodes.find? fun d => d.id == id

/-- Whether a node is known. -/
def contains (g : Graph) (id : Key) : Bool := g.nodes.any fun d => d.id == id

/-- Whether an edge is taken on a branch. Without a branch all edges are. -/
def takes (branch : Value) (e : Edge) : Bool := !branch.holds || e.handle.equal branch

/-- The known nodes to which the edges of a node lead on a branch, in the order of the edges. -/
def targets (g : Graph) (id : Key) (branch : Value := .null) : List Key :=
  (g.edges.filter fun e => e.source == id && takes branch e && g.contains e.target).map Edge.target

/-- The known nodes from which edges lead to a node, in the order of the edges. -/
def sources (g : Graph) (id : Key) : List Key :=
  (g.edges.filter fun e => e.target == id && g.contains e.source).map Edge.source

/-- The nodes found from a queue of nodes, `start` apart. An edge is followed at most once, so as
many steps as there are edges are enough. -/
def search (g : Graph) (start : Key) :
    (fuel : Nat) → (found : List Key) → (queue : List Key) → List Key
  | 0, found, _ => found
  | _ + 1, found, [] => found
  | fuel + 1, found, id :: queue =>
    if found.contains id || id == start then g.search start fuel found queue
    else g.search start fuel (id :: found) (queue ++ g.targets id)

/-- The body of a node: all known nodes that edges lead to from it, itself apart. -/
def body (g : Graph) (id : Key) : List Key :=
  g.search id g.edges.length [] (g.targets id)

/-- The first node, in the order of the definitions, of one of the given types. -/
def findOfType (g : Graph) (types : List Key) : Attempt (Option Definition) :=
  go g.nodes
where
  /-- The search in what is left of the definitions. -/
  go : List Definition → Attempt (Option Definition)
    | [] => .ok none
    | d :: rest => do
      let type ← (← d.type).key
      if types.contains type then pure (some d) else go rest

end Graph

end WorkflowEngine
