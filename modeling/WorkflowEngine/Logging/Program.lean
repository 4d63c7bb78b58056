import WorkflowEngine.Logging.Logger

/-!
# Programs that log

What a nest of tagged blocks prints. A block sets the parts of the tag that it gives, and keeps for
each what it was before. At its end, also when it is given up half way, these parts are put back,
and no others.
-/

namespace WorkflowEngine

/-- A part of a tag. Each is set and put back by itself. -/
inductive Tag.Part where
  | execution
  | node
  deriving DecidableEq, Repr

/-- What a part of the tag was before it was set. -/
structure Tag.Token where
  part : Tag.Part
  before : Value

namespace Tag

/-- The value of a part. -/
def get (tag : Tag) : Part → Value
  | .execution => tag.execution
  | .node => tag.node

/-- Sets a part. -/
def set (tag : Tag) (v : Value) : Part → Tag
  | .execution => { tag with execution := v }
  | .node => { tag with node := v }

/-- The parts in the order in which a block sets them. -/
def parts : List Part := [.execution, .node]

/-- Sets those of some parts that are given, one after another, and keeps a token of each. -/
def enter (given : Tag) : List Part → Tag → List Token × Tag
  | [], tag => ([], tag)
  | part :: rest, tag =>
    if (given.get part).isNull then enter given rest tag
    else
      let (tokens, inner) := enter given rest (tag.set (given.get part) part)
      (⟨part, tag.get part⟩ :: tokens, inner)

/-- Puts back what tokens keep, the last one first. -/
def leave : List Token → Tag → Tag
  | [], tag => tag
  | token :: rest, tag => (leave rest tag).set token.before token.part

end Tag

namespace Logging

/-- A step of a program that logs. -/
inductive Step where
  /-- Logs a message. -/
  | log (level : Level) (logger : Logger) (message : String)
  /-- Does steps in a block that gives an execution, a node or both. -/
  | block (given : Tag) (steps : List Step)
  /-- Gives up. -/
  | fail
  /-- Does steps, and goes on behind them if they are given up. -/
  | shield (steps : List Step)

instance : Inhabited Step := ⟨.fail⟩

/-- A program under way: the tag, and the lines printed so far. -/
structure Printing where
  tag : Tag := {}
  lines : List String := []

mutual

/-- Does a step; the result is whether it was carried to its end. -/
def Step.perform : Step → Printing → Bool × Printing
  | .log level logger message, p =>
    (true, { p with lines := p.lines ++ logger.print level p.tag message })
  | .block given steps, p =>
    let (tokens, inner) := given.enter Tag.parts p.tag
    let (completed, after) := performAll steps { p with tag := inner }
    (completed, { after with tag := Tag.leave tokens after.tag })
  | .fail, p => (false, p)
  | .shield steps, p =>
    let (_, after) := performAll steps p
    (true, after)

/-- Does steps one after another until one is given up. -/
def Step.performAll : List Step → Printing → Bool × Printing
  | [], p => (true, p)
  | step :: rest, p =>
    let (completed, after) := step.perform p
    if completed then performAll rest after else (false, after)

end

/-- What a program prints, every message on lines of its own. -/
def printedText (steps : List Step) : String :=
  String.join ((Step.performAll steps {}).2.lines.map (· ++ "\n"))

end Logging

end WorkflowEngine
