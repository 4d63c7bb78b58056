import WorkflowEngine.Json.Basic
import WorkflowEngine.Value.Printed

/-!
# Printing JSON

The text of a JSON value, in ASCII alone: on one line, or with every item and entry on a line of
its own, indented by its depth. Numbers beyond the standard are printed as words.
-/

namespace WorkflowEngine.Json

open Number Text

/-- The escape of a code unit by its number. -/
def unitEscape (n : Nat) : List Char := '\\' :: 'u' :: hex 4 n

/-- The characters that a character is written with inside quotes. -/
def escapeChar (c : Char) : List Char :=
  let n := c.toNat
  if c = '"' then ['\\', '"']
  else if c = '\\' then ['\\', '\\']
  else if n = 8 then ['\\', 'b']
  else if n = 9 then ['\\', 't']
  else if n = 10 then ['\\', 'n']
  else if n = 12 then ['\\', 'f']
  else if n = 13 then ['\\', 'r']
  else if 32 ≤ n ∧ n ≤ 126 then [c]
  else if n < 0x10000 then unitEscape n
  else
    unitEscape (0xD800 + (n - 0x10000) / 0x400) ++ unitEscape (0xDC00 + (n - 0x10000) % 0x400)

/-- A text in quotes. -/
def quotedText (s : String) : String := String.ofList ('"' :: s.toList.flatMap escapeChar ++ ['"'])

/-- The text of a binary64 number; the infinities and not-a-number are words. -/
def numberText (x : Float) : String :=
  match decode x with
  | .nan => "NaN"
  | .infinite negative => if negative then "-Infinity" else "Infinity"
  | .finite _ _ _ => floatText x

/-- What stands between the brackets of a list or an object and its parts, and between the parts.
Without a unit of indentation everything stands on one line. -/
structure Layout where
  /-- One step of indentation. -/
  unit : Option String
  /-- How deep the list or object stands. -/
  level : Nat

/-- A new line at some depth. -/
def newLine (unit : Option String) (level : Nat) : String :=
  match unit with
  | none => ""
  | some s => "\n" ++ String.join (List.replicate level s)

/-- Behind the opening bracket. -/
def Layout.opening (l : Layout) : String := newLine l.unit (l.level + 1)

/-- Between two parts. -/
def Layout.between (l : Layout) : String :=
  if l.unit.isNone then ", " else "," ++ newLine l.unit (l.level + 1)

/-- In front of the closing bracket. -/
def Layout.closing (l : Layout) : String := newLine l.unit l.level

/-- The layout one level deeper. -/
def Layout.inner (l : Layout) : Layout := { l with level := l.level + 1 }

mutual

/-- The text of a value in a layout. -/
def renderIn (l : Layout) : Json → String
  | .null => "null"
  | .bool b => if b then "true" else "false"
  | .int n => intText n
  | .float x => numberText x
  | .text s => quotedText s
  | .list [] => "[]"
  | .list (j :: js) =>
    "[" ++ l.opening ++ renderIn l.inner j ++ renderRest l js ++ l.closing ++ "]"
  | .object [] => "\x7b\x7d"
  | .object ((k, j) :: rest) =>
    "\x7b" ++ l.opening ++ quotedText k ++ ": " ++ renderIn l.inner j ++ renderEntries l rest ++
      l.closing ++ "\x7d"

/-- The text of the items behind the first. -/
def renderRest (l : Layout) : List Json → String
  | [] => ""
  | j :: js => l.between ++ renderIn l.inner j ++ renderRest l js

/-- The text of the entries behind the first. -/
def renderEntries (l : Layout) : List (String × Json) → String
  | [] => ""
  | (k, j) :: rest =>
    l.between ++ quotedText k ++ ": " ++ renderIn l.inner j ++ renderEntries l rest

end

/-- The text of a value; with a unit of indentation, one part a line. -/
def render (unit : Option String) (j : Json) : String := renderIn ⟨unit, 0⟩ j

/-- The text of a value on one line. -/
def compact (j : Json) : String := j.render none

end WorkflowEngine.Json
