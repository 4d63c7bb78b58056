import WorkflowEngine.Failure
import WorkflowEngine.State

/-!
# The journal

What a run notes down as it goes: events with the execution and the node they belong to. An event is
kept as what happened; `Event.message` words it, and `Entry.line` is its line in a log.
-/

namespace WorkflowEngine

open Number

/-- How grave an event is. -/
inductive Level where
  | debug
  | info
  | warning
  | error
  | critical
  deriving DecidableEq, Repr

/-- The name of a level. -/
def Level.name : Level → String
  | .debug => "DEBUG"
  | .info => "INFO"
  | .warning => "WARNING"
  | .error => "ERROR"
  | .critical => "CRITICAL"

/-- The number of a level; the graver the level, the greater the number. -/
def Level.number : Level → Nat
  | .debug => 10
  | .info => 20
  | .warning => 30
  | .error => 40
  | .critical => 50

/-- The execution and the node to which events belong. -/
structure Tag where
  execution : Value := .null
  node : Value := .null
  deriving Inhabited

/-- The tag inside a block that gives an execution, a node or both; what it does not give stays. -/
def Tag.within (tag given : Tag) : Tag :=
  ⟨if given.execution.isNull then tag.execution else given.execution,
   if given.node.isNull then tag.node else given.node⟩

/-- The text of a tag on a line: of an execution the first eight characters. -/
def Tag.text (tag : Tag) : String :=
  let execution :=
    if tag.execution.holds then
      ["run=" ++ String.ofList (tag.execution.label.toList.take 8)]
    else []
  let node := if tag.node.holds then ["node=" ++ tag.node.label] else []
  match execution ++ node with
  | [] => ""
  | parts => " [" ++ " ".intercalate parts ++ "]"

/-- What has happened. -/
inductive Event where
  /-- A remark of a part of the program. -/
  | note (level : Level) (source message : String)
  /-- A run begins. -/
  | runBegan (workflow : Value)
  /-- A run has ended, with so many results after so many seconds. -/
  | runEnded (workflow : Value) (results : Nat) (seconds : Float)
  /-- A node of unknown type will pass its input on. -/
  | unknownType (node : Key) (type : Value)
  /-- A node is passed over because it has been executed. -/
  | skipped (node : Key)
  /-- A node is left until more of its inputs are there. -/
  | deferred (node : Key) (type : Value)
  /-- A node is invoked in a state. -/
  | invoked (node : Key) (label type : Value) (state : RunState)
  /-- A node has failed. -/
  | failed (node : Key) (type : Value) (failure : Failure) (state : RunState)
  /-- A node has given an output and chosen a branch. -/
  | succeeded (node : Key) (type : Value) (milliseconds : Int) (branch output : Value)
      (state : RunState)
  /-- A loop begins to replay its body. -/
  | loopBegan (node : Key) (items : Nat) (targets : List Key)
  /-- A merge waits for the outputs of some nodes. -/
  | mergeWaits (node : Key) (missing : List Key)

/-- The plain form of a node's identifier. -/
def idText (id : Key) : String := id.plain.toOption.getD ""

/-- The identifiers of some nodes as a list. -/
def idList (ids : List Key) : String := (Value.list (ids.map Value.ofKey)).label

namespace Event

/-- How grave the event is. -/
def level : Event → Level
  | .note level _ _ => level
  | .runBegan _ | .runEnded _ _ _ | .invoked _ _ _ _ => .info
  | .unknownType _ _ => .warning
  | .failed _ _ _ _ => .error
  | .skipped _ | .deferred _ _ | .succeeded _ _ _ _ _ _ | .loopBegan _ _ _ | .mergeWaits _ _ =>
    .debug

/-- The part of the program that notes the event. -/
def source : Event → String
  | .note _ source _ => source
  | .loopBegan _ _ _ => "loop"
  | .mergeWaits _ _ => "merge"
  | _ => "engine"

/-- The wording of the event. -/
def message : Event → String
  | .note _ _ message => message
  | .runBegan workflow => "Executing workflow: " ++ workflow.label
  | .runEnded workflow results seconds =>
    "Workflow " ++ workflow.label ++ " walked " ++ natText results ++ " node invocation(s) in " ++
      fixedText 3 seconds ++ "s"
  | .unknownType node type =>
    "Unknown node type '" ++ type.label ++ "' for node " ++ idText node ++
      ", passing input through"
  | .skipped node => "Skipping node " ++ idText node ++ ": already executed"
  | .deferred node type =>
    "Node " ++ idText node ++ " (" ++ type.label ++ ") not ready, leaving pending"
  | .invoked _ label type _ => "Executing node: " ++ label.label ++ " (" ++ type.label ++ ")"
  | .failed _ type failure _ => "Node " ++ type.label ++ " failed: " ++ failure.recorded
  | .succeeded _ type milliseconds branch _ _ =>
    "Node " ++ type.label ++ " executed successfully in " ++ intText milliseconds ++ "ms" ++
      if branch.holds then ", branch=" ++ branch.label else ""
  | .loopBegan node items targets =>
    "Loop " ++ idText node ++ ": " ++ natText items ++ " item(s), body entry " ++ idList targets
  | .mergeWaits node missing => "Merge " ++ idText node ++ " waiting for " ++ idList missing

end Event

/-- An event with the tag under which it was noted. -/
structure Entry where
  tag : Tag
  event : Event

/-- The name under which all parts of the program log. -/
def rootLogger : String := "flowline_core"

/-- The line of an entry in a log. -/
def Entry.line (e : Entry) : String :=
  "[" ++ e.event.level.name ++ "] " ++ rootLogger ++ "." ++ e.event.source ++ e.tag.text ++ ": " ++
    e.event.message

end WorkflowEngine
