import WorkflowEngine.Expression.Coercion
import WorkflowEngine.Expression.Path

/-!
# Templates

Texts with placeholders: a reference between double braces. A reference names a variable, with a
path into it, the output of a node, or the output before the present node. A placeholder whose
reference leads nowhere stays as it is.
-/

namespace WorkflowEngine

open Text

/-- What a reference leads to, if it leads anywhere. A value found by a path counts only if it is
not null; a variable counts in any case, and its whole name goes before a path. -/
def Context.lookup (context : Context) (reference : List Char) : Option Value :=
  let path := trimBack (trimFront reference)
  let found := fun (v : Value) => if v.isNull then none else some v
  let scopes := context.toScopes
  match behind? "$node.".toList path with
  | some rest =>
    let (id, inner) := cutFirst '.' rest
    (context.outputs.lookup (.text (String.ofList id))).bind fun output =>
      found (output.nested scopes (inner.getD []))
  | none =>
    if path = "$input".toList then some context.previous
    else
      match behind? "$input.".toList path with
      | some rest => found (context.previous.nested scopes rest)
      | none =>
        match context.vars.lookup (.text (String.ofList path)) with
        | some v => some v
        | none =>
          let (head, rest) := cutFirst '.' path
          let rest := rest.getD []
          if rest.isEmpty then none
          else
            (context.vars.lookup (.text (String.ofList head))).bind fun v =>
              found (v.nested scopes rest)

namespace Template

/-- A piece of a template. -/
inductive Piece where
  | char (c : Char)
  | hole (reference : List Char)
  deriving DecidableEq, Repr

/-- The reference of a placeholder that stands in front, and the characters behind it. -/
def hole? : List Char → Option (List Char × List Char)
  | '\x7b' :: '\x7b' :: rest =>
    let body := rest.takeWhile (· != '\x7d')
    match rest.drop body.length with
    | '\x7d' :: '\x7d' :: tail => if body.isEmpty then none else some (body, tail)
    | _ => none
  | _ => none

/-- The pieces of a template; `skip` characters of a placeholder are passed over. -/
def scan : (skip : Nat) → List Char → List Piece
  | _, [] => []
  | skip + 1, _ :: cs => scan skip cs
  | 0, c :: cs =>
    match hole? (c :: cs) with
    | some (body, _) => .hole body :: scan (body.length + 3) cs
    | none => .char c :: scan 0 cs

/-- Whether the template has a placeholder. -/
def hasHole (template : String) : Bool :=
  (scan 0 template.toList).any fun p => match p with
    | .hole _ => true
    | .char _ => false

/-- The characters of a placeholder. -/
def braced (reference : List Char) : List Char :=
  '\x7b' :: '\x7b' :: reference ++ ['\x7d', '\x7d']

/-- The characters that a piece becomes. -/
def Piece.fill (context : Context) : Piece → Attempt (List Char)
  | .char c => .ok [c]
  | .hole reference =>
    match context.lookup reference with
    | some v => (v.toText context.toScopes).map String.toList
    | none => .ok (braced reference)

/-- The reference of a text that is one placeholder with nothing but blanks around. -/
def single? (cs : List Char) : Option (List Char) :=
  match hole? (trimFront cs) with
  | some (body, tail) => if tail.all isBlank then some body else none
  | none => none

end Template

/-- The template with every placeholder replaced by the text of what its reference leads to. -/
def interpolate (context : Context) (template : String) : Attempt String :=
  ((Template.scan 0 template.toList).mapM (Template.Piece.fill context)).map fun parts =>
    String.ofList parts.flatten

/-- The value of a setting that may be a template: a text that is one placeholder gives the value
itself, other texts are filled in, and other values stay. -/
def resolve (context : Context) (v : Value) : Attempt Value :=
  match v with
  | .text s _ =>
    match Template.single? s.toList with
    | some reference => .ok ((context.lookup reference).getD v)
    | none =>
      if Template.hasHole s then (interpolate context s).map fun s' => .text s' else .ok v
  | _ => .ok v

end WorkflowEngine
