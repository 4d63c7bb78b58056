import WorkflowEngine.Execution

/-!
# The screen

What a command shows, in order: bare lines, and laid-out pieces in the markup of the screen, where a
style stands in square brackets around what it applies to.
-/

namespace WorkflowEngine.CommandLine

/-- A piece of what is shown. -/
inductive Printout where
  /-- A bare line, without markup. -/
  | line (text : String)
  /-- What is going on. -/
  | status (text : String)
  | text (text : String)
  | panel (text title : String)
  | table (columns : List String) (rows : List (List String))
  deriving Repr

/-- What has been shown, and where requests have been served. -/
structure Screen where
  shown : List Printout := []
  served : List (String × Int) := []

/-- The bare lines. -/
def Screen.lines (s : Screen) : List String :=
  s.shown.filterMap fun p => match p with
    | .line t => some t
    | _ => none

/-- The laid-out pieces. -/
def Screen.laidOut (s : Screen) : List Printout :=
  s.shown.filter fun p => match p with
    | .line _ => false
    | _ => true

/-- The screen with a further piece. -/
def Screen.add (s : Screen) (p : Printout) : Screen := { s with shown := s.shown ++ [p] }

/-- A text in a style. -/
def styled (style text : String) : String := "[" ++ style ++ "]" ++ text ++ "[/" ++ style ++ "]"

/-- The style of a status. -/
def statusStyle : String → String
  | "success" => "bold green"
  | "failed" => "bold red"
  | "running" => "bold yellow"
  | _ => "white"

/-- A status in its style. -/
def statusText (status : String) : String := styled (statusStyle status) status

/-- A text without the styles in it: what stands in square brackets is left out. -/
def unstyled (text : String) : String :=
  String.ofList (go false text.toList)
where
  /-- What is left of the rest of a text, inside or outside a bracket. -/
  go : (inside : Bool) → List Char → List Char
    | _, [] => []
    | false, c :: cs => if c = '[' then go true cs else c :: go false cs
    | true, c :: cs => go (c != ']') cs

/-- A text filled up with blanks. -/
def padTo (width : Nat) (text : String) : String :=
  text ++ String.ofList (List.replicate (width - text.length) ' ')

/-- The widest length that the texts of a column have. -/
def widthOf (rows : List (List String)) (i : Nat) : Nat :=
  (rows.map fun row => (row.getD i "").length).foldl Nat.max 0

/-- The lines of a table, its columns side by side. -/
def tableLines (rows : List (List String)) : List String :=
  rows.map fun row =>
    "  ".intercalate (row.mapIdx fun i text => padTo (widthOf rows i) text)

/-- The lines of a piece on a bare screen. -/
def Printout.lines : Printout → List String
  | .line s => [s]
  | .status s | .text s => [unstyled s]
  | .panel s title => [unstyled title, unstyled s]
  | .table columns rows => tableLines (columns :: rows.map fun row => row.map unstyled)

/-- What a command works on: the world and the screen. -/
structure Desk where
  world : World
  screen : Screen := {}

/-- Why a command stops before its end. -/
inductive Halt where
  /-- It exits with a code. -/
  | exit (code : Nat)
  /-- It is given up. -/
  | failed (f : Failure)

/-- The work of a command. -/
abbrev Console := ExceptT Halt (StateT Desk Option)

namespace Console

/-- A job, as the work of a command. -/
def ofJob {α : Type} (job : Job α) : Console α := ExceptT.mk fun desk => do
  let (result, w) ← job.runIn desk.world
  pure (result.mapError Halt.failed, { desk with world := w })

/-- Work in the world, as the work of a command. -/
def ofWork {α : Type} (work : Work α) : Console α := ofJob (.ofWork work)

/-- Work that is given up or not, and changes nothing. -/
def ofAttempt {α : Type} (a : Attempt α) : Console α := ofWork (.ofAttempt a)

/-- No outcome: the steps that were granted are used up. -/
def exhausted {α : Type} : Console α := ExceptT.mk fun _ => none

/-- Changes the screen. -/
def changeScreen (f : Screen → Screen) : Console Unit :=
  modify fun desk => { desk with screen := f desk.screen }

/-- Shows a piece. -/
def print (printout : Printout) : Console Unit := changeScreen fun s => s.add printout

/-- Shows a line. -/
def say (line : String) : Console Unit := print (.line line)

/-- Exits with a code. -/
def exit {α : Type} (code : Nat) : Console α := throw (.exit code)

/-- The settings in force. -/
def settings : Console Settings := do return (← get).world.settings

end Console

end WorkflowEngine.CommandLine
