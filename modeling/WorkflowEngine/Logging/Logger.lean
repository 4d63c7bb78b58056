import WorkflowEngine.Logging.Format
import WorkflowEngine.Text.Pieces

/-!
# Loggers

A logger has a name, the level from which on it prints, and a format. A name stands for one logger:
a second set-up under it changes nothing.
-/

namespace WorkflowEngine.Logging

/-- A logger. -/
structure Logger where
  name : String
  level : Int
  format : Format

/-- The loggers that have been set up. -/
abbrev Loggers := List Logger

/-- The logger of a name. -/
def Loggers.find? (loggers : Loggers) (name : String) : Option Logger :=
  List.find? (fun l => l.name == name) loggers

/-- The level of a logger for which none is given. -/
def defaultLevel (debug : Bool) : Int :=
  if debug then Level.debug.number else Level.info.number

/-- Sets up a logger. A format in which nothing of a record would show is refused. -/
def Loggers.setUp (loggers : Loggers) (name : String) (level : Int) (format : String) :
    Attempt (Logger × Loggers) :=
  match loggers.find? name with
  | some logger => .ok (logger, loggers)
  | none =>
    match Format.read? (if format.isEmpty then standardFormat else format) with
    | some format =>
      let logger : Logger := ⟨name, level, format⟩
      .ok (logger, loggers ++ [logger])
    | none => .fault .malformed

/-- The name of the logger of a part of the program: of a dotted name the last piece counts. -/
def partName (name : String) : String :=
  rootLogger ++ "." ++ String.ofList (Text.behindLast '.' name.toList)

/-- Whether a logger prints at a level. Without a level of its own it prints from warnings on. -/
def Logger.prints (logger : Logger) (level : Level) : Bool :=
  let from' := if logger.level = 0 then (Level.warning.number : Int) else logger.level
  decide (from' ≤ level.number)

/-- What a logger prints of a message under a tag. -/
def Logger.print (logger : Logger) (level : Level) (tag : Tag) (message : String) : List String :=
  if logger.prints level then
    (logger.format.line? ⟨logger.name, level, tag, message⟩).toList
  else []

end WorkflowEngine.Logging
