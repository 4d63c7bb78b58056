import WorkflowEngine.Text.Pieces

/-!
# Paths

Paths as they are written, joined to each other, and resolved to the place that they lead to. Empty
parts and single dots say nothing and are dropped when a path is read; a double dot leads back when it
is resolved. No place on the way is a link.
-/

namespace WorkflowEngine

open Text

/-- A path: whether it leads from the root, and its parts. -/
structure Path where
  absolute : Bool
  parts : List String
  deriving DecidableEq, Inhabited

namespace Path

/-- The path that a text writes. -/
def ofText (s : String) : Path where
  absolute := s.toList.head? == some '/'
  parts := ((pieces '/' s.toList).map String.ofList).filter fun part => part != "" && part != "."

/-- A path from where another one leads. A path from the root leads from there. -/
def join (p q : Path) : Path := if q.absolute then q else ⟨p.absolute, p.parts ++ q.parts⟩

/-- The place that a part leads to from another: back if it is a double dot, and the root leads back
to itself. -/
def enter (place : List String) (part : String) : List String :=
  if part = ".." then place.dropLast else place ++ [part]

/-- The place that a path leads to from a folder, as the names from the root on. -/
def resolve (here : List String) (p : Path) : List String :=
  p.parts.foldl enter (if p.absolute then [] else here)

/-- The place around a place. -/
def parent (place : List String) : List String := place.dropLast

end Path

end WorkflowEngine
