import WorkflowEngine.Json.Basic
import WorkflowEngine.Number.Written
import WorkflowEngine.Text.Encoding

/-!
# Reading JSON

The value that a text of JSON writes, or the place where the text stops being JSON and why. Beyond
the standard, `NaN` and the infinities are read, and of two entries with one name the later counts.
-/

namespace WorkflowEngine.Json

open Number Text

/-- Why a text is no JSON. -/
inductive Cause where
  | value
  | name
  | colon
  | comma
  | extra
  | unterminated
  | control
  | escape
  | unicodeEscape
  | mark
  /-- An integer has too many digits. -/
  | longInteger
  deriving DecidableEq, Repr

/-- The wording of a cause. -/
def Cause.message : Cause → String
  | .value => "Expecting value"
  | .name => "Expecting property name enclosed in double quotes"
  | .colon => "Expecting ':' delimiter"
  | .comma => "Expecting ',' delimiter"
  | .extra => "Extra data"
  | .unterminated => "Unterminated string starting at"
  | .control => "Invalid control character at"
  | .escape => "Invalid \\escape"
  | .unicodeEscape => "Invalid \\uXXXX escape"
  | .mark => "Unexpected UTF-8 BOM (decode using utf-8-sig)"
  | .longInteger => "Exceeds the limit for integers"

/-- A cause, and the place in the text, counted in characters from its start. -/
structure Complaint where
  cause : Cause
  place : Nat
  deriving DecidableEq, Repr

/-- The wording of a complaint about a text, with line and column. -/
def Complaint.message (c : Complaint) (source : String) : String :=
  let before := source.toList.take c.place
  let line := before.count '\n' + 1
  let column := (before.reverse.takeWhile (· != '\n')).length + 1
  c.cause.message ++ ": line " ++ natText line ++ " column " ++ natText column ++ " (char " ++
    natText c.place ++ ")"

/-- What is left of a text, and how many characters lie before it. -/
structure Cursor where
  place : Nat
  rest : List Char

/-- Complains about the place of the cursor. -/
def Cursor.fail {α : Type} (here : Cursor) (cause : Cause) : Except Complaint α :=
  .error ⟨cause, here.place⟩

/-- The cursor some characters further on. -/
def Cursor.advance (here : Cursor) (n : Nat) : Cursor := ⟨here.place + n, here.rest.drop n⟩

/-- Whether a character may stand between the parts of a JSON text. -/
def isGap (c : Char) : Bool := c == ' ' || c == '\t' || c == '\n' || c == '\r'

/-- The cursor behind the gap. -/
def Cursor.skipGap (here : Cursor) : Cursor :=
  here.advance (here.rest.takeWhile isGap).length

/-- The value of a hexadecimal digit. -/
def hexValue? (c : Char) : Option Nat :=
  if '0' ≤ c ∧ c ≤ '9' then some (c.toNat - 48)
  else if 'a' ≤ c ∧ c ≤ 'f' then some (c.toNat - 87)
  else if 'A' ≤ c ∧ c ≤ 'F' then some (c.toNat - 55)
  else none

/-- The number that hexadecimal digits write. -/
def hexNumber? (cs : List Char) : Option Nat :=
  cs.foldl (fun n c => n.bind fun n => (hexValue? c).map (n * 16 + ·)) (some 0)

/-- The character that a letter stands for behind a backslash. -/
def escaped? : Char → Option Char
  | '"' => some '"'
  | '\\' => some '\\'
  | '/' => some '/'
  | 'b' => some '\x08'
  | 'f' => some '\x0c'
  | 'n' => some '\n'
  | 'r' => some '\r'
  | 't' => some '\t'
  | _ => none

/-- Whether a code unit is the first, the second half of a pair. -/
def isHighHalf (n : Nat) : Bool := 0xD800 ≤ n && n < 0xDC00

@[inherit_doc isHighHalf]
def isLowHalf (n : Nat) : Bool := 0xDC00 ≤ n && n < 0xE000

/-- Puts a character in front of what has been read. -/
def withChar (c : Char) (r : Except Complaint (List Char × Cursor)) :
    Except Complaint (List Char × Cursor) :=
  r.map fun (cs, cursor) => (c :: cs, cursor)

/-- Reads the characters of a text up to its closing quote. -/
def readText (start : Nat) : (place : Nat) → List Char → Except Complaint (List Char × Cursor)
  | _, [] => .error ⟨.unterminated, start⟩
  | p, '"' :: rest => .ok ([], ⟨p + 1, rest⟩)
  | _, ['\\'] => .error ⟨.unterminated, start⟩
  | p, '\\' :: 'u' :: a :: b :: c :: d :: '\\' :: 'u' :: e :: f :: g :: h :: i :: rest =>
    match hexNumber? [a, b, c, d] with
    | none => .error ⟨.unicodeEscape, p + 1⟩
    | some n =>
      if isHighHalf n then
        match hexNumber? [e, f, g, h] with
        | none => .error ⟨.unicodeEscape, p + 7⟩
        | some m =>
          if isLowHalf m then
            withChar (scalar (0x10000 + (n - 0xD800) * 0x400 + (m - 0xDC00)))
              (readText start (p + 12) (i :: rest))
          else
            withChar replacement
              (readText start (p + 6) ('\\' :: 'u' :: e :: f :: g :: h :: i :: rest))
      else
        withChar (scalar n)
          (readText start (p + 6) ('\\' :: 'u' :: e :: f :: g :: h :: i :: rest))
  | p, '\\' :: 'u' :: a :: b :: c :: d :: e :: rest =>
    match hexNumber? [a, b, c, d] with
    | none => .error ⟨.unicodeEscape, p + 1⟩
    | some n => withChar (scalar n) (readText start (p + 6) (e :: rest))
  | p, '\\' :: 'u' :: _ => .error ⟨.unicodeEscape, p + 1⟩
  | p, '\\' :: c :: rest =>
    match escaped? c with
    | none => .error ⟨.escape, p⟩
    | some e => withChar e (readText start (p + 2) rest)
  | p, c :: rest =>
    if c.toNat < 32 then .error ⟨.control, p⟩ else withChar c (readText start (p + 1) rest)

/-- Whether a character is one of the ten ASCII digits. -/
def isDigit (c : Char) : Bool := '0' ≤ c && c ≤ '9'

/-- The numbers that ASCII digits stand for. -/
def digitValues (cs : List Char) : List Nat := cs.map fun c => c.toNat - 48

/-- The whole part of a number: a zero, or digits that do not begin with one. -/
def wholePart : List Char → List Char
  | '0' :: _ => ['0']
  | cs => cs.takeWhile isDigit

/-- The digits behind a point; none unless there are some. -/
def fractionPart : List Char → List Char
  | '.' :: cs => cs.takeWhile isDigit
  | _ => []

/-- The sign of the exponent and its digits, and how many characters they take with the letter. -/
def exponentPart : List Char → Option (Bool × List Char × Nat)
  | c :: cs =>
    if c == 'e' || c == 'E' then
      let (negative, body) := takeSign cs
      let digits := body.takeWhile isDigit
      if digits.isEmpty then none
      else some (negative, digits, 1 + (cs.length - body.length) + digits.length)
    else none
  | [] => none

/-- The most digits that an integer may have. -/
def digitLimit : Nat := 4300

/-- Reads a number. -/
def readNumber (start : Cursor) : Except Complaint (Json × Cursor) :=
  let negative := start.rest.head? == some '-'
  let body := if negative then start.advance 1 else start
  let whole := wholePart body.rest
  if whole.isEmpty then start.fail .value
  else
    let behind := body.advance whole.length
    let fraction := fractionPart behind.rest
    let behind := if fraction.isEmpty then behind else behind.advance (fraction.length + 1)
    match exponentPart behind.rest with
    | some (down, digits, width) =>
      let e := signed down (ofDigits (digitValues digits)) - fraction.length
      .ok (.float (ofDecimal negative (ofDigits (digitValues (whole ++ fraction))) e),
        behind.advance width)
    | none =>
      let m := ofDigits (digitValues (whole ++ fraction))
      if fraction.isEmpty then
        if digitLimit < whole.length then start.fail .longInteger
        else .ok (.int (signed negative m), behind)
      else .ok (.float (ofDecimal negative m (-fraction.length)), behind)

/-- The words that stand for a value. -/
def words : List (String × Json) :=
  [("null", .null), ("true", .bool true), ("false", .bool false), ("NaN", .float notANumber),
   ("Infinity", .float infinity), ("-Infinity", .float negativeInfinity)]

/-- Reads a word, or else a number. -/
def readScalar (start : Cursor) : Except Complaint (Json × Cursor) :=
  match words.find? fun (word, _) => word.toList.isPrefixOf start.rest with
  | some (word, j) => .ok (j, start.advance word.length)
  | none => readNumber start

mutual

/-- Reads a value. -/
def readValue : (fuel : Nat) → Cursor → Except Complaint (Json × Cursor)
  | 0, start => start.fail .value
  | fuel + 1, start =>
    match start.rest with
    | '"' :: rest => do
      let (cs, behind) ← readText start.place (start.place + 1) rest
      pure (.text (String.ofList cs), behind)
    | '[' :: _ =>
      let inside := (start.advance 1).skipGap
      if inside.rest.head? == some ']' then .ok (.list [], inside.advance 1)
      else do
        let (items, behind) ← readItems fuel inside
        pure (.list items, behind)
    | '\x7b' :: _ =>
      let inside := (start.advance 1).skipGap
      if inside.rest.head? == some '\x7d' then .ok (.object [], inside.advance 1)
      else do
        let (entries, behind) ← readEntries fuel inside
        pure (.object (Entries.ofList entries), behind)
    | _ => readScalar start

/-- Reads the items of a list up to its closing bracket. -/
def readItems : (fuel : Nat) → Cursor → Except Complaint (List Json × Cursor)
  | 0, start => start.fail .value
  | fuel + 1, start => do
    let (item, behind) ← readValue fuel start
    let behind := behind.skipGap
    match behind.rest with
    | ']' :: _ => pure ([item], behind.advance 1)
    | ',' :: _ =>
      let (items, last) ← readItems fuel (behind.advance 1).skipGap
      pure (item :: items, last)
    | _ => behind.fail .comma

/-- Reads the entries of an object up to its closing brace. -/
def readEntries : (fuel : Nat) → Cursor → Except Complaint (List (String × Json) × Cursor)
  | 0, start => start.fail .value
  | fuel + 1, start => do
    match start.rest with
    | '"' :: rest =>
      let (cs, behind) ← readText start.place (start.place + 1) rest
      let name := String.ofList cs
      let behind := behind.skipGap
      if behind.rest.head? != some ':' then behind.fail .colon
      else
        let (value, behind) ← readValue fuel (behind.advance 1).skipGap
        let behind := behind.skipGap
        match behind.rest with
        | '\x7d' :: _ => pure ([(name, value)], behind.advance 1)
        | ',' :: _ =>
          let (entries, last) ← readEntries fuel (behind.advance 1).skipGap
          pure ((name, value) :: entries, last)
        | _ => behind.fail .comma
    | _ => start.fail .name

end

/-- Reads the value that a whole text writes. Two steps a character are more than are ever taken. -/
def read (source : String) : Except Complaint Json :=
  let cs := source.toList
  if cs.head? == some (Char.ofNat 0xFEFF) then .error ⟨.mark, 0⟩
  else do
    let (j, behind) ← readValue (2 * cs.length + 2) (Cursor.skipGap ⟨0, cs⟩)
    let behind := behind.skipGap
    if behind.rest.isEmpty then pure j else behind.fail .extra

/-- The value that a whole text writes, if it is JSON. -/
def read? (source : String) : Option Json := (read source).toOption

end WorkflowEngine.Json
