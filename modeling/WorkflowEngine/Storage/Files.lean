import WorkflowEngine.Entries
import WorkflowEngine.Json.Reader
import WorkflowEngine.Value.Json
import WorkflowEngine.Text.Encoding

/-!
# Files of values

The files of a storage directory, by path, and values kept in them as JSON. A value that cannot be
written as JSON leaves its file broken off at the place where the writing failed.
-/

namespace WorkflowEngine

open Text

/-- What a file holds: a text, or bytes put there from outside. -/
inductive Content where
  | text (s : String)
  | raw (bytes : List UInt8)
  deriving DecidableEq, Inhabited

/-- A file: what it holds and who may use it. -/
structure File where
  content : Content
  mode : Nat
  deriving DecidableEq, Inhabited

/-- The files of a directory and those below it, by path. -/
abbrev Files := List (String × File)

/-- The text that a file holds, line ends unified, unless its bytes are no UTF-8. -/
def Content.read? : Content → Option String
  | .text s => some s
  | .raw bytes => (utf8? bytes).map fun s => String.ofList (unifyLineEnds s.toList)

/-- The bytes that a file holds. -/
def Content.bytes : Content → List UInt8
  | .text s => toUtf8 s
  | .raw bytes => bytes

/-- The mode of a file that its owner alone may use. -/
def ownerOnly : Nat := 0o600

/-- The mode of a file as the system makes it. -/
def systemDefault : Nat := 0o644

/-- The longest name of a file, in bytes. -/
def nameLimit : Nat := 255

namespace Files

/-- Puts a text into a file. A file that was there keeps its mode. -/
def putContent (path : String) (content : Content) (files : Files) : Files :=
  let mode := match files.lookup path with
    | some file => file.mode
    | none => systemDefault
  Entries.put path ⟨content, mode⟩ files

/-- Puts a text into a file that from then on its owner alone may use. -/
def putOwned (path : String) (text : String) (files : Files) : Files :=
  Entries.put path ⟨.text text, ownerOnly⟩ files

/-- The paths, in order. -/
def paths (files : Files) : List String :=
  (files.map Prod.fst).mergeSort fun a b => decide (a ≤ b)

end Files

namespace Value

/-- The text of a value on its way into a file as far as it can be written, and whether it is
complete. -/
abbrev Written := String × Bool

/-- Whether an integer is too long to be written. -/
def isLongInteger : Value → Bool
  | .int n _ => longIntegerBound ≤ n.natAbs
  | _ => false

/-- Puts a text in front of what is written of an item. An integer that is too long is refused
before that text is written. -/
def behindText (before : String) (v : Value) (written : Written) : Written :=
  if v.isLongInteger then ("", false) else (before ++ written.1, written.2)

mutual

/-- What is written of a value in a layout. -/
def spill (l : Json.Layout) : Value → Written
  | .list [] _ | .tuple [] _ => ("[]", true)
  | .list (v :: vs) _ | .tuple (v :: vs) _ =>
    let (first, complete) := behindText ("[" ++ l.opening) v (spill l.inner v)
    if complete then
      let (rest, complete) := spillItems l vs
      (first ++ rest ++ (if complete then l.closing ++ "]" else ""), complete)
    else (first, false)
  | .dict [] _ => ("\x7b\x7d", true)
  | .dict (e :: es) _ =>
    let (rest, complete) := spillEntries l "" (e :: es)
    ("\x7b" ++ l.opening ++ rest ++ (if complete then l.closing ++ "\x7d" else ""), complete)
  | v =>
    match v.toJson true with
    | .ok j => (j.renderIn l, true)
    | .error _ => ("", false)

/-- What is written of the items behind the first. -/
def spillItems (l : Json.Layout) : List Value → Written
  | [] => ("", true)
  | v :: vs =>
    let (first, complete) := behindText l.between v (spill l.inner v)
    if complete then
      let (rest, complete) := spillItems l vs
      (first ++ rest, complete)
    else (first, false)

/-- What is written of some entries; `separator` stands in front of the first. -/
def spillEntries (l : Json.Layout) (separator : String) : Fields → Written
  | [] => ("", true)
  | (k, v) :: rest =>
    match k.jsonName with
    | .error _ => ("", false)
    | .ok name =>
      let (value, complete) := spill l.inner v
      let first := separator ++ Json.quotedText name ++ ": " ++ value
      if complete then
        let (others, complete) := spillEntries l l.between rest
        (first ++ others, complete)
      else (first, false)

end

/-- The layout of files: two blanks a level. -/
def fileLayout : Json.Layout := ⟨some "  ", 0⟩

/-- The text that a value is stored as, foreign values shown. -/
def fileText (v : Value) : Attempt String := (v.toJson true).map fun j => j.renderIn fileLayout

end Value

end WorkflowEngine
