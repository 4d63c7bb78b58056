import WorkflowEngine.Expression.Template
import WorkflowEngine.Json.Reader
import WorkflowEngine.Literal.Reader

/-!
# Expressions

The value of an expression: one of the roots `$input`, `$vars` and `$nodes` with a path behind it, a
single placeholder, a JSON text or a written literal. The two table roots give the table itself and
not a copy.
-/

namespace WorkflowEngine

open Text

/-- The roots of paths. -/
def Context.roots (context : Context) : List (String × Value) :=
  [("$input", context.previous), ("$vars", .live .vars), ("$nodes", .live .outputs)]

/-- What a path from one of the roots leads to; `none` for a text that begins with no root. -/
def Context.fromRoot? (context : Context) (text : List Char) : Option Value :=
  context.roots.findSome? fun (name, root) =>
    if text = name.toList then some root
    else (behind? (name.toList ++ ['.']) text).map fun path =>
      root.nested context.toScopes path

/-- The value of an expression, if the text can be read as one. -/
def Context.evaluate? (context : Context) (expression : String) : Option Value :=
  let text := trimBack (trimFront expression.toList)
  match Template.single? text with
  | some reference => some ((context.lookup reference).getD (.text (String.ofList text)))
  | none =>
    match context.fromRoot? text with
    | some v => some v
    | none =>
      match Json.read? (String.ofList text) with
      | some j => some j.toValue
      | none => Literal.read? (String.ofList text)

/-- The value of a setting that may be an expression; a text that is none stands for itself. -/
def Context.evaluate (context : Context) (v : Value) : Value :=
  match v with
  | .text s _ => (context.evaluate? s).getD v
  | _ => v

end WorkflowEngine
