import WorkflowEngine.Registry

/-!
# The engine

A run walks the graph of a workflow from its trigger on, depth first and in the order of the edges.
The walk keeps a stack of nodes to visit: what a node leads to goes on top of it, so that each
subtree is finished before the next one begins. Outside loops a node is executed at most once; a
loop replays what it leads to for each of its items.
-/

namespace WorkflowEngine

/-- What is kept of one invocation of a node. -/
structure NodeResult where
  node : Key
  name : Value
  start : String
  input : Value
  stop : String
  /-- Whole milliseconds. -/
  duration : Int
  /-- The output, or the cause of the failure. -/
  outcome : Attempt Value

/-- Whether the invocation succeeded. -/
def NodeResult.succeeded (r : NodeResult) : Bool := r.outcome.isOk

/-- A result as an object. -/
def NodeResult.toValue (r : NodeResult) : Value :=
  let (status, ending) : String × String × Value := match r.outcome with
    | .ok output => ("success", "output", output)
    | .error f => ("failed", "error", .text f.recorded)
  .object [("node_id", .ofKey r.node), ("node_name", r.name), ("status", .text status),
    ("start_time", .text r.start), ("input", r.input), ("end_time", .text r.stop),
    ("duration", .int r.duration), ending]

/-- A run under way: the world, the state, the results so far and how many visits were made. -/
structure Run extends Bench where
  results : List NodeResult := []
  visits : Nat := 0

/-- What a walk goes by: the graph, its nodes, and how many visits are allowed. -/
structure Plan where
  graph : Graph
  nodes : List (Key × Node)
  budget : Option Int := none

/-- A part of a walk. If the steps that were granted are used up it has no outcome, and the run stays
where it stopped. -/
abbrev Walk := ExceptT Failure (OptionT (StateM Run))

namespace Walk

/-- The outcome of a part of a walk, if it has come to one, and the run that it leaves. -/
def run {α : Type} (part : Walk α) (run : Run) : Option (Attempt α) × Run :=
  StateT.run (OptionT.run (ExceptT.run part)) run

/-- A part of a walk that is given up or not, and changes nothing. -/
def ofAttempt {α : Type} : Attempt α → Walk α
  | .ok a => pure a
  | .error f => throw f

/-- The action of a node, as a part of a walk. -/
def ofAct {α : Type} (act : Act α) : Walk α := do
  let run ← get
  let (result, bench) := act.runOn run.toBench
  set { run with toBench := bench }
  ofAttempt result

/-- No outcome: the steps that were granted are used up. -/
def exhausted {α : Type} : Walk α := ExceptT.mk OptionT.fail

/-- Whether a part is given up or not, as its result. -/
def outcome {α : Type} (part : Walk α) : Walk (Attempt α) := ExceptT.mk do
  let result ← ExceptT.run part
  pure (.ok result)

/-- Changes the state of the run. -/
def changeState (f : RunState → RunState) : Walk Unit :=
  modify fun run => { run with state := f run.state }

/-- Changes the world. -/
def changeWorld (f : World → World) : Walk Unit :=
  modify fun run => { run with world := f run.world }

/-- Notes an event. -/
def note (event : Event) : Walk Unit := changeWorld fun w => w.note event

/-- Does a part after a step, and another step after it whether it is given up or not. -/
def between {α : Type} (before after : Walk Unit) (part : Walk α) : Walk α := do
  before
  let result ← outcome part
  after
  ofAttempt result

/-- Does a part with all its events tagged by a node. -/
def underNode {α : Type} (node : Key) (part : Walk α) : Walk α := do
  let tag := (← get).world.tag
  between (changeWorld fun w => { w with tag := tag.within { node := .ofKey node } })
    (changeWorld fun w => { w with tag := tag }) part

end Walk

namespace Node

/-- The items of a loop: those of a list or a row that its setting gives. -/
def loopItems (node : Node) : Act (List Value) := do
  let setting ← Act.ofAttempt (node.setting "items")
  let isEmpty := match setting with
    | .null => true
    | .text s _ => s.isEmpty
    | _ => false
  let time := (← Act.state).time
  let items ← Act.evaluate (if isEmpty then .text "$input.data" else setting)
  match items.madeBy (.visit time 1) with
  | .list vs _ | .tuple vs _ => return vs
  | _ => throw (.setting .itemsNotListed)

/-- Turns a replay to an item: the variables of the loop are set, and the item stands as the output
before. -/
def beginItem (itemName indexName : Value) (index : Nat) (item : Value) : Walk Unit := do
  Walk.changeState fun s => s.setIndex index
  let name ← Walk.ofAttempt itemName.key
  Walk.changeState fun s => s.setVariable name item
  if indexName.holds then
    let name ← Walk.ofAttempt indexName.key
    Walk.changeState fun s => s.setVariable name (.int index)
  Walk.changeState fun s => s.setPrevious item

/-- What a loop reports of an item. -/
def itemReport (index : Nat) (item : Value) : Value :=
  .object [("index", .int index), ("item", item), ("processed", .bool true)]

/-- Replays the walks from some targets for the items from `index` on. -/
def replayItems (replay : Key → Walk Unit) (targets : List Key) (itemName indexName : Value) :
    (index : Nat) → List Value → Walk (List Value)
  | _, [] => pure []
  | index, item :: rest => do
    beginItem itemName indexName index item
    targets.forM replay
    let others ← replayItems replay targets itemName indexName (index + 1) rest
    pure (itemReport index item :: others)

/-- Executes a loop: the walks from its targets are replayed for every item, and then its whole body
counts as executed. -/
def runLoop (plan : Plan) (replay : Key → Walk Unit) (node : Node) : Walk Reply := do
  let items ← Walk.ofAct (loopItems node)
  let itemName ← Walk.ofAttempt (node.settingOr "itemVariable" (.text "item"))
  let indexName ← Walk.ofAttempt (node.setting "indexVariable")
  let targets := plan.graph.targets node.id
  Walk.note (.loopBegan node.id items.length targets)
  let reports ← Walk.between (Walk.changeState fun s => s.enterLoop node.id items)
    (Walk.changeState RunState.leaveLoop)
    (replayItems replay targets itemName indexName 0 items)
  Walk.changeState fun s => s.markExecuted (plan.graph.body node.id ++ [node.id])
  return .plain (.object [("looped", .bool true), ("itemCount", .int items.length),
    ("results", .list reports), ("items", .list items)])

/-- The action of a node in a run. -/
def act (plan : Plan) (replay : Key → Walk Unit) (node : Node) : Walk Reply :=
  match node.cls.kind with
  | .loop => runLoop plan replay node
  | _ => Walk.ofAct node.execute

/-- Checks the settings of a node and lets it act. -/
def invoke (plan : Plan) (replay : Key → Walk Unit) (node : Node) : Walk Reply := do
  Walk.ofAttempt (node.validate (← get).world.settings)
  node.act plan replay

end Node

namespace Plan

/-- Keeps the result of an invocation that began at some time on some input. -/
def keep (node : Node) (start : Instant) (input : Value) (outcome : Attempt Value) :
    Walk NodeResult := do
  let stop := (← get).world.clock
  let result : NodeResult :=
    { node := node.id, name := node.label, start := isoText start, input := input,
      stop := isoText stop, duration := elapsedMilliseconds start stop, outcome := outcome }
  modify fun run => { run with results := run.results ++ [result] }
  return result

/-- Keeps the failure of a node. An interruption is not kept. -/
def settleFailure (node : Node) (start : Instant) (input : Value) (f : Failure) : Walk Value := do
  if f.isRecordable then
    let _ ← keep node start input (.error f)
    Walk.note (.failed node.id node.type f (← get).state)
  throw f

/-- Keeps the answer of a node; its branch is the result. -/
def settleReply (node : Node) (start : Instant) (input : Value) (time : Nat) (reply : Reply) :
    Walk Value := do
  let output := reply.output.madeBy (.visit time 0)
  let result ← keep node start input (.ok output)
  Walk.changeState fun s => s.record node.id output
  Walk.note (.succeeded node.id node.type result.duration reply.branch output (← get).state)
  return reply.branch

/-- Invokes a node and keeps its result; the branch that it chooses is the result. -/
def execute (plan : Plan) (replay : Key → Walk Unit) (node : Node) : Walk Value := do
  Walk.changeState fun s => { s with time := s.time + 1 }
  let start := (← get).world.clock
  let input := (← get).state.previous
  let time := (← get).state.time
  Walk.underNode node.id do
    Walk.note (.invoked node.id node.label node.type (← get).state)
    match ← Walk.outcome (node.invoke plan replay) with
    | .ok reply => settleReply node start input time reply
    | .error f => settleFailure node start input f

/-- Counts a visit, unless the budget is spent. -/
def countVisit (plan : Plan) : Walk Unit := do
  modify fun run => { run with visits := run.visits + 1 }
  match plan.budget with
  | some budget => if budget < (← get).visits then throw (.visitLimit budget)
  | none => pure ()

/-- Visits a node: it is passed over if it is unknown or executed already, left if it is not ready,
and executed otherwise. The nodes to visit next are the result. -/
def visit (plan : Plan) (replay : Key → Walk Unit) (id : Key) : Walk (List Key) := do
  match plan.nodes.lookup id with
  | none => return []
  | some node =>
    if (← get).state.shouldSkip id then
      Walk.note (.skipped id)
      return []
    if !(← Walk.ofAct node.isReady) then
      Walk.note (.deferred id node.type)
      return []
    plan.countVisit
    let branch ← plan.execute replay node
    return if node.followsEdges then plan.graph.targets id branch else []

/-- Walks from a stack of nodes. `fuel` steps are granted. -/
def walk (plan : Plan) : (fuel : Nat) → (stack : List Key) → Walk Unit
  | 0, _ => Walk.exhausted
  | _ + 1, [] => pure ()
  | fuel + 1, id :: rest => do
    let next ← plan.visit (fun target => walk plan fuel [target]) id
    walk plan fuel (next ++ rest)

end Plan

/-- The nodes of a graph, each from its first definition. -/
def buildNodes (registry : Registry) (graph : Graph) :
    (built : List (Key × Node)) → List Definition → Walk (List (Key × Node))
  | built, [] => pure built
  | built, d :: rest =>
    if Entries.contains d.id built then buildNodes registry graph built rest
    else do
      let node ← Walk.ofAttempt (registry.makeNode d.body)
      match node.cls.kind with
      | .passthrough => Walk.note (.unknownType d.id (← Walk.ofAttempt d.type))
      | _ => pure ()
      let settings := node.settings.madeBy (.settings (← get).state.time d.id)
      let node := { node with settings := settings }.place graph
      buildNodes registry graph (built ++ [(d.id, node)]) rest

/-- A run that is ready to walk: what it goes by, and the node to begin with. -/
structure Departure where
  plan : Plan
  start : Key

/-- Makes a run ready: the graph of the workflow, its trigger, and its nodes. -/
def prepare (registry : Registry) (budget : Option Int) (workflow : Value) : Walk Departure := do
  let graph ← Walk.ofAttempt (Graph.ofValue workflow)
  Walk.note (.runBegan graph.name)
  match ← Walk.ofAttempt (graph.findOfType (registry.triggerTypes.map Key.text)) with
  | none => throw .noTrigger
  | some trigger => do
    let nodes ← buildNodes registry graph [] graph.nodes
    return ⟨{ graph := graph, nodes := nodes, budget := budget }, trigger.id⟩

/-- Walks a run from its departure to its end. `fuel` steps are granted. -/
def Departure.travel (fuel : Nat) (began : Float) (departure : Departure) : Walk Unit := do
  let result ← Walk.outcome (departure.plan.walk fuel [departure.start])
  let run ← get
  Walk.note (.runEnded departure.plan.graph.name run.results.length (run.world.seconds - began))
  Walk.ofAttempt result

/-- The course of a run of a workflow from its trigger on, as far as `fuel` steps lead. -/
def courseOf (registry : Registry) (budget : Option Int) (fuel : Nat) (workflow : Value) :
    Walk Unit := do
  Walk.changeState fun s => { s with time := s.time + 1 }
  modify fun run => { run with visits := 0 }
  let began := (← get).world.seconds
  let departure ← prepare registry budget workflow
  departure.travel fuel began

/-- Runs a workflow from its trigger. It has no outcome at all if the `fuel` steps that are granted
are used up. -/
def runWorkflow (registry : Registry) (budget : Option Int) (fuel : Nat) (workflow : Value) :
    ExceptT Failure (StateT Run Option) Unit :=
  ExceptT.mk fun run =>
    match (courseOf registry budget fuel workflow).run run with
    | (some result, run) => some (result, run)
    | (none, _) => none

end WorkflowEngine
