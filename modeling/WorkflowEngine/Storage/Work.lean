import WorkflowEngine.World

/-!
# Work in the world

Computations that may change the world and may be given up. What has been done to the world before
work is given up stays done.
-/

namespace WorkflowEngine

/-- Work in the world. -/
abbrev Work := ExceptT Failure (StateM World)

namespace Work

/-- Work that is given up or not, and changes nothing. -/
def ofAttempt {α : Type} : Attempt α → Work α
  | .ok a => pure a
  | .error f => throw f

/-- Gives up for a data fault. -/
def fault {α : Type} (f : DataFault) : Work α := throw (.data f)

/-- Notes an event. -/
def note (event : Event) : Work Unit := modify fun w => w.note event

/-- Notes a remark of a part of the program. -/
def remark (level : Level) (source message : String) : Work Unit :=
  note (.note level source message)

/-- Does a step that the world takes by itself. -/
def ofStep {α : Type} (step : World → Attempt α × World) : Work α := do
  let (result, w) := step (← get)
  set w
  ofAttempt result

/-- Runs work in a world. -/
def runIn {α : Type} (work : Work α) (w : World) : Attempt α × World :=
  StateT.run (ExceptT.run work) w

end Work

end WorkflowEngine
