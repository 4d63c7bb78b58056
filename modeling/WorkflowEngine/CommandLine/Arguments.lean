import WorkflowEngine.Text.Pieces

/-!
# Arguments

What a list of arguments says, given the options that a command knows: options with a value, which
may be attached with an equals sign or follow, switches, and everything else by place. Behind two
hyphens everything counts by place.
-/

namespace WorkflowEngine.CommandLine

/-- What an option does: it takes a value, or it sets one. -/
inductive Effect where
  | takes
  | sets (value : String)
  deriving DecidableEq

/-- An option: how it is written, what it is about, and what it does. -/
structure Switch where
  spelling : String
  subject : String
  effect : Effect

/-- What arguments say: the values of the options, in order, and the rest by place. -/
structure Given where
  values : List (String × String) := []
  places : List String := []

/-- The value that counts of an option, which is the last one. -/
def Given.value? (g : Given) (subject : String) : Option String :=
  g.values.reverse.lookup subject

/-- Puts the value of an option in front. -/
def Given.withValue (g : Given) (subject value : String) : Given :=
  { g with values := (subject, value) :: g.values }

/-- The option that a spelling stands for. -/
def findSwitch? (switches : List Switch) (spelling : String) : Option Switch :=
  switches.find? fun s => s.spelling == spelling

/-- Whether an argument looks like an option. -/
def looksLikeOption (argument : String) : Bool :=
  match argument.toList with
  | '-' :: _ :: _ => true
  | _ => false

/-- The spelling of an option, and the value that is attached to it. -/
def cutOption (argument : String) : String × Option String :=
  let (front, rest) := Text.cutFirst '=' argument.toList
  (String.ofList front, rest.map String.ofList)

/-- Reads arguments, unless an option is unknown, lacks its value or has one without taking it. -/
def Given.read? (switches : List Switch) : List String → Option Given
  | [] => some {}
  | argument :: rest =>
    if argument = "--" then some { places := rest }
    else if looksLikeOption argument then
      let (spelling, attached) := cutOption argument
      match findSwitch? switches spelling, attached with
      | some ⟨_, subject, .takes⟩, some value =>
        (read? switches rest).map (·.withValue subject value)
      | some ⟨_, subject, .takes⟩, none =>
        match rest with
        | value :: rest => (read? switches rest).map (·.withValue subject value)
        | [] => none
      | some ⟨_, subject, .sets value⟩, none =>
        (read? switches rest).map (·.withValue subject value)
      | some ⟨_, _, .sets _⟩, some _ => none
      | none, _ => none
    else (read? switches rest).map fun g => { g with places := argument :: g.places }

end WorkflowEngine.CommandLine
