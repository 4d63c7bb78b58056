/-!
# Pieces of a text

Cutting a text at a character, into all its pieces or into two.
-/

namespace WorkflowEngine.Text

/-- The pieces between the separators; there is always one more than there are separators. -/
def pieces (separator : Char) : List Char → List (List Char)
  | [] => [[]]
  | c :: cs =>
    if c = separator then [] :: pieces separator cs
    else
      match pieces separator cs with
      | [] => [[c]]
      | w :: ws => (c :: w) :: ws

/-- What stands in front of the first separator, and what behind it, if there is one. -/
def cutFirst (separator : Char) : List Char → List Char × Option (List Char)
  | [] => ([], none)
  | c :: cs =>
    if c = separator then ([], some cs)
    else
      let (front, rest) := cutFirst separator cs
      (c :: front, rest)

/-- What stands behind the last separator: the whole text if there is none. -/
def behindLast (separator : Char) (cs : List Char) : List Char :=
  ((pieces separator cs).getLast?).getD []

/-- What stands behind a beginning, if the text begins so. -/
def behind? (beginning cs : List Char) : Option (List Char) :=
  if beginning.isPrefixOf cs then some (cs.drop beginning.length) else none

/-- Whether a text stands somewhere in another. -/
def isWithin (part : List Char) : List Char → Bool
  | [] => part.isEmpty
  | c :: cs => part.isPrefixOf (c :: cs) || isWithin part cs

end WorkflowEngine.Text
