import WorkflowEngine.Time.Calendar
import WorkflowEngine.Failure

/-!
# Keys

The values that never change and can therefore be looked up by: scalars, and rows and sets of such.
A row is a chain of pairs, so that equality of keys is decided by plain recursion. Numbers that
compare equal are one key whatever their form, which `Key.canonical` decides.
-/

namespace WorkflowEngine

open Number Text

/-- An object of some outside kind, known by its text alone. -/
structure Thing where
  /-- Where the kind is defined. -/
  home : String
  /-- The name of the kind. -/
  kind : String
  /-- The text of the object, if it can be shown. -/
  shown : Option String
  deriving DecidableEq, Repr, Inhabited

/-- A value that can be looked up by. -/
inductive Key where
  | null
  | bool (b : Bool)
  | int (n : Int)
  | float (x : Float)
  | text (s : String)
  | bytes (bs : List UInt8)
  | moment (t : Timestamp)
  | day (d : Date)
  | complex (re im : Float)
  | ellipsis
  | thing (t : Thing)
  /-- The empty row. -/
  | unit
  /-- A row with its first element in front. -/
  | pair (head tail : Key)
  /-- A set, given as a row. -/
  | frozen (row : Key)
  deriving DecidableEq, Inhabited

namespace Key

/-- The row of the given keys. -/
def ofList (ks : List Key) : Key := ks.foldr .pair .unit

/-- The elements of a row. -/
def toList : Key → List Key
  | .pair head tail => head :: tail.toList
  | _ => []

/-- A whole number or a complex number without imaginary part, as the integer or the real number
that it equals. -/
def canonicalFloat (x : Float) : Key :=
  if isWhole x then
    match truncate? x with
    | some n => .int n
    | none => .float x
  else .float x

/-- One form for all keys that compare equal. -/
def canonical : Key → Key
  | .bool b => .int (if b then 1 else 0)
  | .float x => canonicalFloat x
  | .complex re im => if im == 0 then canonicalFloat re else .complex (re + 0) (im + 0)
  | .pair head tail => .pair head.canonical tail.canonical
  | .frozen row => .frozen row.canonical
  | k => k

/-- Whether two keys compare equal. -/
def same (a b : Key) : Bool := a.canonical == b.canonical

/-- The keys without those that compare equal to an earlier one. -/
def distinct : List Key → List Key
  | [] => []
  | k :: ks => k :: (distinct ks).filter fun k' => !k.same k'

end Key

end WorkflowEngine
