import WorkflowEngine.Value.Basic

/-!
# Printed values

Two texts of a value. The literal form is what stands inside lists and objects: texts are quoted,
and a table that stands inside itself is cut. The plain form differs from it for texts and times
alone, which show as they are.
-/

namespace WorkflowEngine

open Number Text

/-- The least magnitude of the integers that are too long to be written out. -/
def longIntegerBound : Nat := Nat.pow 10 4300

/-- The text of an integer, unless it is too long. -/
def integerText (n : Int) : Attempt String :=
  if longIntegerBound ≤ n.natAbs then .fault .malformed else .ok (intText n)

theorem integerText_short {n : Int} (h : n.natAbs < longIntegerBound) :
    integerText n = .ok (intText n) :=
  if_neg (Nat.not_le.2 h)

/-- The text of a real number, a whole one without its point. -/
def bareFloatText (x : Float) : String :=
  let style := { valueStyle with showsPoint := false }
  printWith (fun m e => if m = 0 then "0" else (shortest m e).layOut style) x

/-- The text of a complex number; a real part of plus zero is left out. -/
def complexText (re im : Float) : String :=
  let imaginary := bareFloatText im ++ "j"
  if re.toBits == 0 then imaginary
  else
    let joint := if imaginary.startsWith "-" then "" else "+"
    "(" ++ bareFloatText re ++ joint ++ imaginary ++ ")"

/-- The literal form of a day. -/
def Date.literal (d : Date) : String :=
  "datetime.date(" ++ natText d.year ++ ", " ++ natText d.month ++ ", " ++ natText d.day ++ ")"

/-- The literal form of a distance from universal time. -/
def offsetLiteral (seconds : Int) : String :=
  if seconds = 0 then "datetime.timezone.utc"
  else
    let span :=
      if seconds < 0 then "days=-1, seconds=" ++ intText (seconds + 86400)
      else "seconds=" ++ intText seconds
    "datetime.timezone(datetime.timedelta(" ++ span ++ "))"

/-- The literal form of a time: seconds and microseconds are left out from the end while zero. -/
def Timestamp.literal (t : Timestamp) : String :=
  let fields := [t.date.year, t.date.month, t.date.day, t.hour, t.minute]
  let fine :=
    if t.micro ≠ 0 then [t.second, t.micro] else if t.second ≠ 0 then [t.second] else []
  let zone := match t.offset with
    | none => []
    | some seconds => ["tzinfo=" ++ offsetLiteral seconds]
  "datetime.datetime(" ++ ", ".intercalate ((fields ++ fine).map natText ++ zone) ++ ")"

/-- The elements of a row between brackets; a row of one ends in a comma. -/
def rowText (texts : List String) : String :=
  match texts with
  | [one] => "(" ++ one ++ ",)"
  | _ => "(" ++ ", ".intercalate texts ++ ")"

/-- The elements of a set between braces. -/
def setText (frozen : Bool) (texts : List String) : String :=
  let body := if texts.isEmpty then "" else "\x7b" ++ ", ".intercalate texts ++ "\x7d"
  if frozen then "frozenset(" ++ body ++ ")" else if texts.isEmpty then "set()" else body

/-- The form of a container in place of one that lies around it. -/
def Bracket.ellipsis : Bracket → String
  | .list => "[...]"
  | .row => "(...)"
  | .object => "\x7b...\x7d"

/-- The text of an outside object. -/
def Thing.text (t : Thing) : Attempt String :=
  match t.shown with
  | some s => .ok s
  | none => .fault .malformed

namespace Key

mutual

/-- The literal form of a key. -/
def literal : Key → Attempt String
  | .null => .ok "None"
  | .bool b => .ok (if b then "True" else "False")
  | .int n => integerText n
  | .float x => .ok (floatText x)
  | .text s => .ok (quoted s)
  | .bytes bs => .ok (quotedBytes bs)
  | .moment t => .ok t.literal
  | .day d => .ok d.literal
  | .complex re im => .ok (complexText re im)
  | .ellipsis => .ok "Ellipsis"
  | .thing t => t.text
  | .unit => .ok "()"
  | .pair head tail => do
    let first ← literal head
    let others ← literals tail
    pure (rowText (first :: others))
  | .frozen row => (literals row).map (setText true)

/-- The literal forms of the elements of a row. -/
def literals : Key → Attempt (List String)
  | .pair head tail => do
    let first ← literal head
    let others ← literals tail
    pure (first :: others)
  | _ => .ok []

end

/-- The plain form of a key. -/
def plain : Key → Attempt String
  | .text s => .ok s
  | .moment t => .ok (t.isoWith " ")
  | .day d => .ok d.iso
  | k => k.literal

end Key

namespace Value

mutual

/-- The literal form of a value. -/
def literal : Value → Attempt String
  | .null => .ok "None"
  | .bool b => .ok (if b then "True" else "False")
  | .int n _ => integerText n
  | .float x _ => .ok (floatText x)
  | .text s _ => .ok (quoted s)
  | .bytes bs _ => .ok (quotedBytes bs)
  | .moment t _ => .ok t.literal
  | .day d _ => .ok d.literal
  | .complex re im _ => .ok (complexText re im)
  | .ellipsis => .ok "Ellipsis"
  | .thing t _ => t.text
  | .list items _ => (literals items).map fun texts => "[" ++ ", ".intercalate texts ++ "]"
  | .tuple items _ => (literals items).map rowText
  | .set items frozen _ => (items.mapM Key.literal).map (setText frozen)
  | .dict entries _ =>
    (fieldLiterals entries).map fun texts => "\x7b" ++ ", ".intercalate texts ++ "\x7d"
  | .live _ => .ok "\x7b...\x7d"
  | .enclosing bracket _ => .ok bracket.ellipsis

/-- The literal forms of some values. -/
def literals : List Value → Attempt (List String)
  | [] => .ok []
  | v :: vs => do
    let first ← literal v
    let others ← literals vs
    pure (first :: others)

/-- The literal forms of some entries, key and value joined by a colon. -/
def fieldLiterals : Fields → Attempt (List String)
  | [] => .ok []
  | (k, v) :: rest => do
    let name ← k.literal
    let value ← literal v
    let others ← fieldLiterals rest
    pure ((name ++ ": " ++ value) :: others)

end

/-- The plain form of a value. -/
def plain : Value → Attempt String
  | .text s _ => .ok s
  | .moment t _ => .ok (t.isoWith " ")
  | .day d _ => .ok d.iso
  | v => v.literal

/-- The plain form of a value of the settings, where a refusal to be shown shows as nothing. -/
def label (v : Value) : String := v.plain.toOption.getD ""

end Value

end WorkflowEngine
