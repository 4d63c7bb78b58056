import WorkflowEngine.Entries
import WorkflowEngine.Value.Key

/-!
# Values

The values that workflows handle: what JSON can say, and beyond it rows, sets, bytes, dates and
objects of outside kinds. A value also knows where it was made, so that two references to one value
can be told from two equal values.
-/

namespace WorkflowEngine

/-- Where a family of values was made. -/
inductive Source where
  /-- The settings of a node, as the run that began at some time took them over. -/
  | settings (time : Nat) (node : Key)
  /-- The visit that was made at some time; a visit may make several values. -/
  | visit (time slot : Nat)
  /-- What was given from outside, by place. -/
  | given (slot : Nat)
  deriving DecidableEq, Inhabited

/-- The place where a value was made: a source, and the path from the whole to the part. -/
structure Stamp where
  source : Source
  path : List Nat
  deriving DecidableEq, Inhabited

/-- One of the two tables of a run that values can refer to as a whole. -/
inductive Scope where
  | vars
  | outputs
  deriving DecidableEq, Inhabited

/-- The other table. -/
def Scope.other : Scope → Scope
  | .vars => .outputs
  | .outputs => .vars

/-- The form of a container. -/
inductive Bracket where
  | list
  | row
  | object
  deriving DecidableEq, Inhabited

/-- A value. -/
inductive Value where
  | null
  | bool (b : Bool)
  | int (n : Int) (mark : Option Stamp := none)
  | float (x : Float) (mark : Option Stamp := none)
  | text (s : String) (mark : Option Stamp := none)
  | bytes (bs : List UInt8) (mark : Option Stamp := none)
  | moment (t : Timestamp) (mark : Option Stamp := none)
  | day (d : Date) (mark : Option Stamp := none)
  | complex (re im : Float) (mark : Option Stamp := none)
  | ellipsis
  | thing (t : Thing) (mark : Option Stamp := none)
  | list (items : List Value) (mark : Option Stamp := none)
  | tuple (items : List Value) (mark : Option Stamp := none)
  | set (items : List Key) (frozen : Bool) (mark : Option Stamp := none)
  | dict (entries : List (Key × Value)) (mark : Option Stamp := none)
  /-- One of the tables of the run, itself and not a copy. -/
  | live (scope : Scope)
  /-- A container that lies around this place, referred to again; `up` others lie between it and the
  place. -/
  | enclosing (bracket : Bracket) (up : Nat)
  deriving Inhabited

/-- The entries of an object. -/
abbrev Fields := List (Key × Value)

/-- The two tables of a run that values can refer to. -/
structure Scopes where
  vars : Fields := []
  outputs : Fields := []
  deriving Inhabited

/-- The table of a scope. -/
def Scopes.table (scopes : Scopes) : Scope → Fields
  | .vars => scopes.vars
  | .outputs => scopes.outputs

namespace Value

/-- An object with text keys. -/
def object (entries : List (String × Value)) : Value :=
  .dict (entries.map fun (k, v) => (.text k, v))

/-- Whether the value is null. -/
def isNull : Value → Bool
  | .null => true
  | _ => false

/-- The value of a key. -/
def ofKey : Key → Value
  | .null => .null
  | .bool b => .bool b
  | .int n => .int n
  | .float x => .float x
  | .text s => .text s
  | .bytes bs => .bytes bs
  | .moment t => .moment t
  | .day d => .day d
  | .complex re im => .complex re im
  | .ellipsis => .ellipsis
  | .thing t => .thing t
  | .unit => .tuple []
  | .pair head tail =>
    match ofKey tail with
    | .tuple items _ => .tuple (ofKey head :: items)
    | v => .tuple [ofKey head, v]
  | .frozen row => .set row.toList true

mutual

/-- The key that a value can be looked up by; lists, objects and open sets have none. -/
def key? : Value → Option Key
  | .null => some .null
  | .bool b => some (.bool b)
  | .int n _ => some (.int n)
  | .float x _ => some (.float x)
  | .text s _ => some (.text s)
  | .bytes bs _ => some (.bytes bs)
  | .moment t _ => some (.moment t)
  | .day d _ => some (.day d)
  | .complex re im _ => some (.complex re im)
  | .ellipsis => some .ellipsis
  | .thing t _ => some (.thing t)
  | .tuple items _ => row? items
  | .set items frozen _ => if frozen then some (.frozen (Key.ofList items)) else none
  | .list _ _ | .dict _ _ | .live _ | .enclosing _ _ => none

/-- The row of the keys of some values. -/
def row? : List Value → Option Key
  | [] => some .unit
  | v :: vs => (key? v).bind fun k => (row? vs).map (Key.pair k)

end

/-- Writes a value under a key of an object. Of keys that compare equal the one that is there
stays. -/
def putField (k : Key) (v : Value) (fields : Fields) : Fields :=
  match fields.find? fun e => e.1.same k with
  | some (k', _) => Entries.put k' v fields
  | none => fields ++ [(k, v)]

/-- The object of some pairs: of keys that compare equal the first stays and the last value
counts. -/
def objectOf (pairs : List (Key × Value)) : Fields :=
  pairs.foldl (fun fields (k, v) => putField k v fields) []

/-- The set of some elements, unless one of them cannot be an element. -/
def setOf? (items : List Value) : Option Value :=
  (items.mapM key?).map fun ks => .set (Key.distinct ks) false

/-- The key of a value, a fault if it has none. -/
def key (v : Value) : Attempt Key :=
  match v.key? with
  | some k => .ok k
  | none => .fault .mismatched

/-- The entries of an object, be it of its own or one of the tables of the run. -/
def entries? (scopes : Scopes) : Value → Option Fields
  | .dict entries _ => some entries
  | .live scope => some (scopes.table scope)
  | _ => none

/-- Whether the value counts as true: null, zero and whatever is empty do not. -/
def isTrue (scopes : Scopes) : Value → Bool
  | .null => false
  | .bool b => b
  | .int n _ => n != 0
  | .float x _ => !(x == 0)
  | .text s _ => !s.isEmpty
  | .bytes bs _ => !bs.isEmpty
  | .complex re im _ => !(re == 0) || !(im == 0)
  | .list items _ | .tuple items _ => !items.isEmpty
  | .set items _ _ => !items.isEmpty
  | .dict entries _ => !entries.isEmpty
  | .live scope => !(scopes.table scope).isEmpty
  | .moment _ _ | .day _ _ | .ellipsis | .thing _ _ | .enclosing _ _ => true

/-- Whether a value of the settings counts as true. -/
abbrev holds (v : Value) : Bool := v.isTrue {}

/-- What is known of a container around a place: where it was made, or that it is a table of the
run. -/
inductive Hull where
  | made (mark : Option Stamp)
  | table (scope : Scope)
  deriving DecidableEq

/-- What lies around a place in a value, the innermost container in front. -/
abbrev Surroundings := List Hull

namespace Surroundings

/-- Whether a table of the run lies around the place. -/
def inTable (around : Surroundings) : Bool :=
  around.any fun hull => hull matches .table _

/-- Where a container lies around the place, if it does. It can do so only inside a table of the
run. -/
def up? (around : Surroundings) (mark : Option Stamp) : Option Nat :=
  if around.inTable && mark.isSome then around.idxOf? (.made mark) else none

/-- Where a table of the run lies around the place, if it does. -/
def upTable? (around : Surroundings) (scope : Scope) : Option Nat := around.idxOf? (.table scope)

end Surroundings

mutual

/-- Puts `f` of the surroundings and the table for every reference to a table. A container that lies
around itself is left out. -/
def expand (f : Surroundings → Scope → Value) (around : Surroundings) : Value → Value
  | .live scope => f around scope
  | .list items mark =>
    match around.up? mark with
    | some up => .enclosing .list up
    | none => .list (expandAll f (.made mark :: around) items) mark
  | .tuple items mark =>
    match around.up? mark with
    | some up => .enclosing .row up
    | none => .tuple (expandAll f (.made mark :: around) items) mark
  | .dict entries mark =>
    match around.up? mark with
    | some up => .enclosing .object up
    | none => .dict (expandFields f (.made mark :: around) entries) mark
  | v => v

/-- The same for some values. -/
def expandAll (f : Surroundings → Scope → Value) (around : Surroundings) :
    List Value → List Value
  | [] => []
  | v :: vs => expand f around v :: expandAll f around vs

/-- The same for some entries. -/
def expandFields (f : Surroundings → Scope → Value) (around : Surroundings) : Fields → Fields
  | [] => []
  | (k, v) :: rest => (k, expand f around v) :: expandFields f around rest

end

/-- The table of a scope at a place, its own references to tables replaced by `f`. -/
def tableAt (scopes : Scopes) (f : Surroundings → Scope → Value) (around : Surroundings)
    (scope : Scope) : Value :=
  match around.upTable? scope with
  | some up => .enclosing .object up
  | none => .dict (expandFields f (.table scope :: around) (scopes.table scope))

/-- The value with the tables it refers to written out. Inside both tables there is none left to be
written out. -/
def unfold (scopes : Scopes) (v : Value) : Value :=
  let known := fun around scope => .enclosing .object ((Surroundings.upTable? around scope).getD 0)
  v.expand (tableAt scopes (tableAt scopes known)) []

end Value

end WorkflowEngine
