import WorkflowEngine.Node.Branching
import WorkflowEngine.Node.Collection
import WorkflowEngine.Node.Merge
import WorkflowEngine.Node.Request
import WorkflowEngine.Node.Storing
import WorkflowEngine.Node.Trigger
import WorkflowEngine.Node.Variables
import WorkflowEngine.Node.Wait

/-!
# What nodes do

The check of the settings, the readiness and the action of a node, by its kind.
-/

namespace WorkflowEngine.Node

/-- Refuses a node whose settings are unusable. -/
def validate (settings : Settings) (node : Node) : Attempt Unit :=
  match node.cls.kind with
  | .condition => validateCondition node
  | .switch => validateSwitch node
  | .setVariable => validateSetVariable node
  | .wait => validateWait settings node
  | .filter => validateFilter node
  | .sort => validateSort node
  | .httpRequest => validateRequest node
  | .storeData => validateStoring node
  | .webhookResponse => validateResponse node
  | .trigger _ | .loop | .merge | .passthrough | .custom _ _ => .ok ()

/-- Whether a node can run now. -/
def isReady (node : Node) : Act Bool :=
  match node.cls.kind with
  | .merge => mergeReady node
  | _ => pure true

/-- The answer of a branching function, which names its branch if it does not choose it. -/
def chosenBranch (scopes : Scopes) (reply : Reply) : Attempt Reply :=
  match reply with
  | .branched _ _ => .ok reply
  | .plain v =>
    match v.entries? scopes with
    | some entries =>
      match entries.lookup (.text "branch") with
      | some branch => do
        pure (.branched (Value.ofField entries "output")
          (.text (← (branch.unfold scopes).plain)))
      | none => throw .noBranch
    | none => throw .noBranch

/-- Lets a function act as a node. -/
def runCustom (node : Node) (run : Executor) (branching : Bool) : Act Reply := do
  let bench ← get
  let (result, state) := StateT.run (ExceptT.run (run node.settings)) bench.state
  set { bench with state := state }
  let reply ← Act.ofAttempt result
  if branching then Act.ofAttempt (chosenBranch state.toScopes reply) else return reply

/-- The action of a node. A loop acts only inside a run, which can replay its body. -/
def execute (node : Node) : Act Reply :=
  match node.cls.kind with
  | .trigger event => runTrigger node event
  | .condition => runCondition node
  | .switch => runSwitch node
  | .loop => throw (.loopOutsideRun (idText node.id))
  | .merge => runMerge node
  | .setVariable => runSetVariable node
  | .wait => runWait node
  | .filter => runFilter node
  | .sort => runSort node
  | .httpRequest => runRequest node
  | .storeData => runStoring node
  | .webhookResponse => runResponse node
  | .passthrough => do return .plain (← Act.state).previous
  | .custom run branching => runCustom node run branching

end WorkflowEngine.Node
