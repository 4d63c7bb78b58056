import WorkflowEngine.Expression.Coercion
import WorkflowEngine.Node.Basic

/-!
# Waiting

The node that lets time pass, up to the longest wait that the settings allow.
-/

namespace WorkflowEngine.Node

open Number

/-- The units of time, in milliseconds. -/
def unitMilliseconds : List (Key × Nat) :=
  [(.text "milliseconds", 1), (.text "ms", 1), (.text "seconds", 1000), (.text "minutes", 60000),
   (.text "hours", 3600000)]

/-- How long a node waits, in milliseconds. -/
def milliseconds (node : Node) : Attempt Float := do
  let duration ← (← node.settingOr "duration" (.int 0)).toNumber
  let unit ← node.settingOr "unit" (.text "milliseconds")
  match unitMilliseconds.lookup (← unit.key) with
  | none => throw (.setting (.unknownUnit (← unit.plain)))
  | some scale =>
    if !(duration == duration) || duration < nearest false 0 1 then
      throw (.setting .durationNotANumber)
    pure (duration * nearest false scale 1)

/-- Whether a wait is longer than the longest that is allowed. -/
def exceeds (milliseconds : Float) (longest : Value) : Bool :=
  match longest with
  | .int n _ => compareInt? (n * 1000) milliseconds == some .lt
  | .float x _ => x * nearest false 1000 1 < milliseconds
  | _ => false

/-- Refuses a wait that is unusable or too long. -/
def validateWait (settings : Settings) (node : Node) : Attempt Unit := do
  if exceeds (← milliseconds node) settings.waitMax then throw (.setting .durationTooLong)

/-- Waits; the output is the object before with the time waited, whole if it is whole. -/
def runWait (node : Node) : Act Reply := do
  let span ← Act.ofAttempt (milliseconds node)
  Act.remark .info "wait" ("Waiting " ++ shortText span ++ "ms")
  Act.ofWork (Work.ofStep fun w => w.sleep (span / nearest false 1000 1))
  let before ← Act.previousFields
  let waited := match truncate? span with
    | some n => if isWhole span then Value.int n else .float span
    | none => .float span
  return .plain (.dict (Entries.putAll before
    [(.text "waited", waited), (.text "resumed", .text (← Act.now))]))

end WorkflowEngine.Node
