import WorkflowEngine.Expression.Coercion
import WorkflowEngine.Text.Pieces

/-!
# Conditions

Comparisons of a field with a given value. Texts are compared in the text form of both sides, in
which an absent field shows as `undefined`; numbers are compared as binary64 numbers.
-/

namespace WorkflowEngine

open Text

/-- A way to compare. -/
inductive Comparison where
  | equals
  | notEquals
  | contains
  | greaterThan
  | lessThan
  | isEmpty
  | isNotEmpty
  deriving DecidableEq, Repr

/-- The comparison of a name. -/
def Comparison.ofName? : String → Option Comparison
  | "equals" => some .equals
  | "not_equals" => some .notEquals
  | "contains" => some .contains
  | "greater_than" => some .greaterThan
  | "less_than" => some .lessThan
  | "is_empty" => some .isEmpty
  | "is_not_empty" => some .isNotEmpty
  | _ => none

/-- The comparison that a value of the settings names. -/
def Comparison.ofValue? : Value → Option Comparison
  | .text s _ => ofName? s
  | _ => none

/-- The text of an absent field. -/
def absentText : String := "undefined"

/-- The text form of a field. -/
def fieldText (scopes : Scopes) (field : Value) : Attempt String :=
  if field.isNull then .ok absentText else field.toText scopes

/-- Whether a field is null or the empty text. -/
def isEmptyField : Value → Bool
  | .null => true
  | .text s _ => s.isEmpty
  | _ => false

/-- Whether the comparison holds; an unknown one never does. -/
def condition (scopes : Scopes) (field : Value) (comparison : Option Comparison)
    (value : Value) : Attempt Bool := do
  let text ← fieldText scopes field
  match comparison with
  | some .equals => pure (text == (← value.toText scopes))
  | some .notEquals => pure (text != (← value.toText scopes))
  | some .contains => pure (isWithin (← value.toText scopes).toList text.toList)
  | some .greaterThan =>
    let a ← field.toNumber
    let b ← value.toNumber
    pure (b < a)
  | some .lessThan =>
    let a ← field.toNumber
    let b ← value.toNumber
    pure (a < b)
  | some .isEmpty => pure (isEmptyField field)
  | some .isNotEmpty => pure (!isEmptyField field)
  | none => pure false

end WorkflowEngine
