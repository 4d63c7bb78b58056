import WorkflowEngine.Journal

/-!
# Formats of log lines

A format is a text with conversions such as `%(message)s` or `%(levelname)-8s` in it. A conversion
names a part of the record, and says how it is written: with how many characters at least, to which
side, and as text or as number.
-/

namespace WorkflowEngine.Logging

open Number

/-- What is logged: by whom, how gravely, under which tag, and the message. -/
structure Record where
  logger : String
  level : Level
  tag : Tag
  message : String

/-- The part of a record that a name stands for. -/
def Record.part? (r : Record) : String → Option Value
  | "name" => some (.text r.logger)
  | "levelname" => some (.text r.level.name)
  | "levelno" => some (.int r.level.number)
  | "message" | "msg" => some (.text r.message)
  | "execution_id" => some r.tag.execution
  | "node_id" => some r.tag.node
  | "run_context" => some (.text r.tag.text)
  | _ => none

/-- How a part of a record is written. -/
structure Conversion where
  part : List Char
  flags : List Char
  width : Nat
  precision : Option Nat
  kind : Char

/-- A piece of a format. -/
inductive Piece where
  | literal (c : Char)
  | conversion (c : Conversion)

/-- A format. -/
abbrev Format := List Piece

/-- Whether a character is a digit. -/
def isDigit (c : Char) : Bool := '0' ≤ c && c ≤ '9'

/-- The number that digits write. -/
def numberOf (cs : List Char) : Nat := ofDigits (cs.map fun c => c.toNat - 48)

/-- What stands in the front bracket, and what behind it. -/
def bracketed? : List Char → Option (List Char × List Char)
  | '(' :: cs =>
    match Text.cutFirst ')' cs with
    | (name, some rest) => some (name, rest)
    | (_, none) => none
  | _ => none

/-- The precision in front, if there is one. -/
def takePrecision : List Char → Option Nat × List Char
  | '.' :: cs => (some (numberOf (cs.takeWhile isDigit)), cs.dropWhile isDigit)
  | cs => (none, cs)

/-- The conversion in front, behind its sign. -/
def Conversion.read? (cs : List Char) : Option (Conversion × List Char) := do
  let (part, cs) ← bracketed? cs
  let isFlag := fun c => ['-', '+', ' ', '0', '#'].contains c
  let flags := cs.takeWhile isFlag
  let cs := cs.dropWhile isFlag
  let width := numberOf (cs.takeWhile isDigit)
  let (precision, cs) := takePrecision (cs.dropWhile isDigit)
  match cs with
  | kind :: rest => some (⟨part, flags, width, precision, kind⟩, rest)
  | [] => none

/-- Reads a format in at most so many steps as it has characters. -/
def Format.readFrom : (fuel : Nat) → List Char → Option Format
  | 0, _ | _ + 1, [] => some []
  | fuel + 1, '%' :: '%' :: rest => (readFrom fuel rest).map (.literal '%' :: ·)
  | fuel + 1, '%' :: rest => do
    let (c, rest) ← Conversion.read? rest
    (readFrom fuel rest).map (.conversion c :: ·)
  | fuel + 1, c :: rest => (readFrom fuel rest).map (.literal c :: ·)

/-- The kinds of conversions that a format may hold. -/
def conversionKinds : List Char := "diouxXefFgGEcrsaDUOCRSA%".toList

/-- Whether a conversion is one by which a format is known. -/
def Conversion.isKnown (c : Conversion) : Bool :=
  !c.part.isEmpty && c.part.all (fun d => d.isAlphanum || d == '_') &&
    conversionKinds.contains c.kind

/-- Reads a format. A format holds a conversion at least. -/
def Format.read? (s : String) : Option Format := do
  let format ← readFrom s.length s.toList
  if format.any fun piece => match piece with
    | .conversion c => c.isKnown
    | .literal _ => false
  then some format else none

/-- A text filled up to the width of a conversion; zeros go behind the sign. -/
def Conversion.fill (c : Conversion) (sign body : String) : String :=
  let missing := c.width - (sign ++ body).length
  let pad := fun (ch : Char) => String.ofList (List.replicate missing ch)
  if c.flags.contains '-' then sign ++ body ++ pad ' '
  else if c.flags.contains '0' then sign ++ pad '0' ++ body
  else pad ' ' ++ sign ++ body

/-- A text as a conversion writes it, cut at the precision. -/
def Conversion.ofText (c : Conversion) (s : String) : String :=
  let cut := match c.precision with
    | some n => String.ofList (s.toList.take n)
    | none => s
  Conversion.fill { c with flags := c.flags.filter (· == '-') } "" cut

/-- A number as a conversion writes it, with as many digits as the precision asks for. -/
def Conversion.ofInt (c : Conversion) (n : Int) : String :=
  let sign :=
    if n < 0 then "-" else if c.flags.contains '+' then "+"
    else if c.flags.contains ' ' then " " else ""
  let digits := natText n.natAbs
  let zeros := (c.precision.getD 0) - digits.length
  c.fill sign (String.ofList (List.replicate zeros '0') ++ digits)

/-- What a conversion writes of a record, if the record has the part and it can be written so. -/
def Conversion.write? (c : Conversion) (r : Record) : Option String := do
  let v ← r.part? (String.ofList c.part)
  if c.kind == 's' then (v.plain.toOption).map c.ofText
  else if c.kind == 'r' then (v.literal.toOption).map c.ofText
  else if ['d', 'i', 'u'].contains c.kind then
    match v with
    | .int n _ => some (c.ofInt n)
    | _ => none
  else none

/-- What a piece writes of a record. -/
def Piece.write? (r : Record) : Piece → Option String
  | .literal c => some (String.ofList [c])
  | .conversion c => c.write? r

/-- The line of a record, unless the record lacks something that the format asks for. -/
def Format.line? (format : Format) (r : Record) : Option String :=
  (format.mapM (Piece.write? r)).map String.join

/-- The format of lines unless another one is given: the level, the logger with the tag, and the
message. -/
def standardFormat : String := "[%(levelname)s] %(name)s%(run_context)s: %(message)s"

end WorkflowEngine.Logging
