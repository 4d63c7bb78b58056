import WorkflowEngine.Literal.CharacterName
import WorkflowEngine.Json.Reader

/-!
# Tokens of written literals

The words that a written literal consists of: numbers, quoted texts and bytes, names, brackets and
marks. Blanks, comments and, inside brackets, line ends only separate them.
-/

namespace WorkflowEngine.Literal

open Number Text
open Json (hexNumber? hexValue? isDigit digitValues)

/-- A word of a written literal. -/
inductive Token where
  | number (v : Value)
  | text (s : String)
  | bytes (bs : List UInt8)
  | name (s : String)
  /-- A bracket, a sign, a comma, a colon or a dot. -/
  | mark (c : Char)
  | lineEnd
  deriving Inhabited

/-! ## Numbers -/

/-- The digits in front that `isOne` takes, single underscores between them left out, and the
rest. -/
def digitRun (isOne : Char → Bool) : List Char → List Char × List Char
  | c :: '_' :: d :: rest =>
    if !isOne c then ([], c :: '_' :: d :: rest)
    else if isOne d then
      let (ds, tail) := digitRun isOne (d :: rest)
      (c :: ds, tail)
    else ([c], '_' :: d :: rest)
  | c :: rest =>
    if isOne c then
      let (ds, tail) := digitRun isOne rest
      (c :: ds, tail)
    else ([], c :: rest)
  | [] => ([], [])

/-- Whether a character can stand in a name. -/
def isWordChar (c : Char) : Bool := c.isAlphanum || c == '_' || 128 ≤ c.toNat

/-- Refuses a number that runs into a word. -/
def endNumber (v : Value) (rest : List Char) : Option (Token × List Char) :=
  match rest with
  | c :: _ => if isWordChar c then none else some (.number v, rest)
  | [] => some (.number v, [])

/-- The number that digits of some base write. -/
def ofBase (base : Nat) (ds : List Char) : Nat :=
  ds.foldl (fun n c => n * base + (hexValue? c).getD 0) 0

/-- Reads the digits of a number in base 2, 8 or 16, which an underscore may precede. -/
def readBase (base : Nat) (cs : List Char) : Option (Token × List Char) :=
  let body := match cs with
    | '_' :: rest => rest
    | _ => cs
  let isOne := fun c => match hexValue? c with
    | some v => decide (v < base)
    | none => false
  match digitRun isOne body with
  | ([], _) => none
  | (ds, rest) => endNumber (.int (ofBase base ds)) rest

/-- The exponent in front, behind its letter, and the rest. -/
def exponentRun (cs : List Char) : Option (Int × List Char) :=
  match cs with
  | c :: rest =>
    if c == 'e' || c == 'E' then
      let (negative, body) := takeSign rest
      match digitRun isDigit body with
      | ([], _) => none
      | (ds, tail) => some (signed negative (ofDigits (digitValues ds)), tail)
    else none
  | [] => none

/-- Reads a number in base 10: whole, real, or imaginary behind a final `j`. A whole number does
not begin with a zero unless it is zero. -/
def readDecimalToken (cs : List Char) : Option (Token × List Char) :=
  let (whole, rest) := digitRun isDigit cs
  let (hasPoint, fraction, rest) := match rest with
    | '.' :: tail =>
      let (ds, tail) := digitRun isDigit tail
      (true, ds, tail)
    | _ => (false, [], rest)
  if whole.isEmpty && fraction.isEmpty then none
  else
    let (hasExponent, e, rest) := match exponentRun rest with
      | some (e, tail) => (true, e, tail)
      | none => (false, 0, rest)
    let m := ofDigits (digitValues (whole ++ fraction))
    let real := ofDecimal false m (e - fraction.length)
    match rest with
    | 'j' :: tail | 'J' :: tail => endNumber (.complex (nearest false 0 1) real) tail
    | _ =>
      if hasPoint || hasExponent then endNumber (.float real) rest
      else if whole.head? == some '0' && m != 0 then none
      else if Json.digitLimit < whole.length then none
      else endNumber (.int m) rest

/-- Reads a number. -/
def readNumberToken : List Char → Option (Token × List Char)
  | '0' :: b :: rest =>
    if b == 'x' || b == 'X' then readBase 16 rest
    else if b == 'o' || b == 'O' then readBase 8 rest
    else if b == 'b' || b == 'B' then readBase 2 rest
    else readDecimalToken ('0' :: b :: rest)
  | cs => readDecimalToken cs

/-! ## Quoted texts -/

/-- The characters up to the closing quotes, escapes as they are, and the rest. -/
def quotedRun (quote : Char) (triple : Bool) : List Char → Option (List Char × List Char)
  | [] => none
  | ['\\'] => none
  | '\\' :: c :: rest =>
    (quotedRun quote triple rest).map fun (body, tail) => ('\\' :: c :: body, tail)
  | a :: b :: c :: rest =>
    if triple then
      if a == quote && b == quote && c == quote then some ([], rest)
      else (quotedRun quote triple (b :: c :: rest)).map fun (body, tail) => (a :: body, tail)
    else if a == quote then some ([], b :: c :: rest)
    else if a == '\n' then none
    else (quotedRun quote triple (b :: c :: rest)).map fun (body, tail) => (a :: body, tail)
  | c :: rest =>
    if triple then none
    else if c == quote then some ([], rest)
    else if c == '\n' then none
    else (quotedRun quote triple rest).map fun (body, tail) => (c :: body, tail)

/-- The code that a letter stands for behind a backslash, in texts and bytes alike. -/
def plainEscape? : Char → Option Nat
  | '\\' => some 92
  | '\x27' => some 39
  | '"' => some 34
  | 'a' => some 7
  | 'b' => some 8
  | 'f' => some 12
  | 'n' => some 10
  | 'r' => some 13
  | 't' => some 9
  | 'v' => some 11
  | _ => none

/-- The value of an octal digit. -/
def octal? (c : Char) : Option Nat := if '0' ≤ c ∧ c ≤ '7' then some (c.toNat - 48) else none

/-- The number that up to three octal digits in front write, and how many they are. -/
def octalRun (cs : List Char) : Nat × Nat :=
  let ds := (cs.take 3).takeWhile fun c => (octal? c).isSome
  (ds.foldl (fun n c => n * 8 + (octal? c).getD 0) 0, ds.length)

/-- One step of reading what stands behind a backslash: the codes that it stands for, and how many
characters it takes; `none` if it is malformed. -/
def escapeStep (inBytes : Bool) (cs : List Char) : Option (List Nat × Nat) :=
  let fixed := fun width => (hexNumber? ((cs.drop 1).take width)).bind fun n =>
    if (cs.drop 1).length < width ∨ 0x10FFFF < n then none else some ([n], width + 1)
  match cs with
  | [] => none
  | '\n' :: _ => some ([], 1)
  | 'x' :: _ => fixed 2
  | c :: rest =>
    if (octal? c).isSome then
      let (n, width) := octalRun cs
      some ([if inBytes then n % 256 else n], width)
    else if inBytes then
      match plainEscape? c with
      | some n => some ([n], 1)
      | none => some ([92, c.toNat], 1)
    else if c == 'u' then fixed 4
    else if c == 'U' then fixed 8
    else if c == 'N' then
      match rest with
      | '\x7b' :: tail =>
        let name := tail.takeWhile (· != '\x7d')
        if name.length == tail.length then none
        else (named? (String.ofList name)).map fun c => ([c.toNat], name.length + 3)
      | _ => none
    else
      match plainEscape? c with
      | some n => some ([n], 1)
      | none => some ([92, c.toNat], 1)

/-- The codes that quoted characters stand for; `skip` characters of an escape are passed over. -/
def unescape (inBytes : Bool) : (skip : Nat) → List Char → Option (List Nat)
  | _, [] => some []
  | skip + 1, _ :: rest => unescape inBytes skip rest
  | 0, c :: rest =>
    if c == '\\' then
      (escapeStep inBytes rest).bind fun (codes, width) =>
        (unescape inBytes width rest).map (codes ++ ·)
    else (unescape inBytes 0 rest).map (c.toNat :: ·)

/-- What the letters in front of a quote ask for: bytes, and escapes as they stand. -/
def quoteKind? (letters : List Char) : Option (Bool × Bool) :=
  match letters.map asciiLower with
  | [] | ['u'] => some (false, false)
  | ['r'] => some (false, true)
  | ['b'] => some (true, false)
  | ['b', 'r'] | ['r', 'b'] => some (true, true)
  | _ => none

/-- Reads a quoted text or quoted bytes, of which bytes are ASCII. -/
def readQuoted (inBytes raw : Bool) (quote : Char) (cs : List Char) :
    Option (Token × List Char) := do
  let (triple, body) := match cs with
    | a :: b :: rest => if a == quote && b == quote then (true, rest) else (false, cs)
    | _ => (false, cs)
  let (content, rest) ← quotedRun quote triple body
  let codes ← if raw then some (content.map Char.toNat) else unescape inBytes 0 content
  if inBytes then
    if content.all fun c => c.toNat < 128 then some (.bytes (codes.map UInt8.ofNat), rest)
    else none
  else some (.text (String.ofList (codes.map scalar)), rest)

/-! ## Words -/

/-- How deep the brackets may nest. -/
def depthLimit : Nat := 200

/-- The words of a text; `depth` brackets are open. -/
def tokens : (fuel : Nat) → (depth : Nat) → List Char → Option (List Token)
  | _, _, [] => some []
  | 0, _, _ :: _ => none
  | fuel + 1, depth, c :: rest =>
    if c == ' ' || c == '\t' || c == '\x0c' then tokens fuel depth rest
    else if c == '\n' then
      if 0 < depth then tokens fuel depth rest
      else (tokens fuel depth rest).map (Token.lineEnd :: ·)
    else if c == '#' then tokens fuel depth (rest.dropWhile (· != '\n'))
    else if c == '\\' then
      match rest with
      | '\n' :: d :: tail => tokens fuel depth (d :: tail)
      | _ => none
    else if c == '(' || c == '[' || c == '\x7b' then
      if depth < depthLimit then (tokens fuel (depth + 1) rest).map (Token.mark c :: ·) else none
    else if c == ')' || c == ']' || c == '\x7d' then
      if depth = 0 then none else (tokens fuel (depth - 1) rest).map (Token.mark c :: ·)
    else if c == ',' || c == ':' || c == '+' || c == '-' then
      (tokens fuel depth rest).map (Token.mark c :: ·)
    else if isDigit c then
      (readNumberToken (c :: rest)).bind fun (t, tail) => (tokens fuel depth tail).map (t :: ·)
    else if c == '.' then
      match rest with
      | '.' :: '.' :: tail => (tokens fuel depth tail).map (Token.name "..." :: ·)
      | _ =>
        (readNumberToken (c :: rest)).bind fun (t, tail) => (tokens fuel depth tail).map (t :: ·)
    else
      let letters := (c :: rest).takeWhile isWordChar
      let behind := (c :: rest).drop letters.length
      match behind with
      | quote :: tail =>
        if quote == '"' || quote == '\x27' then
          match quoteKind? letters with
          | some (inBytes, raw) =>
            (readQuoted inBytes raw quote tail).bind fun (t, tail) =>
              (tokens fuel depth tail).map (t :: ·)
          | none => none
        else if letters.isEmpty then none
        else (tokens fuel depth behind).map (Token.name (String.ofList letters) :: ·)
      | [] => (tokens fuel depth []).map (Token.name (String.ofList letters) :: ·)

/-- The characters behind the comments and the blank lines in front; `none` if blanks in front
indent them. A form feed takes the indentation back. -/
def contentStart : (inComment : Bool) → (indented : Bool) → List Char → Option (List Char)
  | _, _, [] => some []
  | true, _, c :: rest => contentStart (c != '\n') false rest
  | false, indented, c :: rest =>
    if c == '#' then contentStart true false rest
    else if c == '\n' || c == '\x0c' then contentStart false false rest
    else if c == ' ' || c == '\t' then contentStart false true rest
    else if indented then none
    else some (c :: rest)

/-- The words of a whole text, whose line ends are written in any of the three ways. -/
def tokenize (source : String) : Option (List Token) := do
  let cs := unifyLineEnds source.toList
  if cs.contains '\x00' then none
  else
    let content ← contentStart false false cs
    tokens (content.length + 1) 0 content

end WorkflowEngine.Literal
