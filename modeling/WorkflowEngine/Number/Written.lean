import WorkflowEngine.Number.Binary64
import WorkflowEngine.Text.Blank
import WorkflowEngine.Text.Digit

/-!
# Written numbers

The texts that people write for whole numbers and for binary64 numbers: blanks around, an optional
sign, decimal digits of any script, single underscores between digits.
-/

namespace WorkflowEngine.Number

open Text

/-- Whether a character may stand around a written number. Of the blanks below 127 only the tab,
the line ends and the space may. -/
def isMargin (c : Char) : Bool :=
  let n := c.toNat
  (9 ≤ n && n ≤ 13) || n == 32 || (127 ≤ n && isBlank c)

/-- The characters without the margins at both ends. -/
def trimMargins (cs : List Char) : List Char :=
  ((cs.dropWhile isMargin).reverse.dropWhile isMargin).reverse

/-- A sign in front, and the rest. -/
def takeSign : List Char → Bool × List Char
  | '-' :: rest => (true, rest)
  | '+' :: rest => (false, rest)
  | rest => (false, rest)

/-- The digits in front, single underscores between them left out, and the rest. -/
def takeDigits : List Char → List Nat × List Char
  | [] => ([], [])
  | '_' :: rest => ([], '_' :: rest)
  | c :: '_' :: d :: rest =>
    match digitValue? c with
    | none => ([], c :: '_' :: d :: rest)
    | some v =>
      if (digitValue? d).isSome then
        let (ds, tail) := takeDigits (d :: rest)
        (v :: ds, tail)
      else ([v], '_' :: d :: rest)
  | c :: rest =>
    match digitValue? c with
    | none => ([], c :: rest)
    | some v =>
      let (ds, tail) := takeDigits rest
      (v :: ds, tail)

/-- The number that decimal digits write. -/
def ofDigits (ds : List Nat) : Nat := ds.foldl (fun n d => n * 10 + d) 0

/-- The most digits that a whole number may be written with. -/
def mostDigits : Nat := 4300

/-- The whole number that a text writes, zeros in front counted as digits. -/
def readInt? (s : String) : Option Int :=
  let (negative, body) := takeSign (trimMargins s.toList)
  match takeDigits body with
  | ([], _) => none
  | (ds, []) => if mostDigits < ds.length then none else some (signed negative (ofDigits ds))
  | _ => none

/-- The number nearest to `± m · 10 ^ e`. The bounds on the magnitude keep the powers small. -/
def ofDecimal (negative : Bool) (m : Nat) (e : Int) : Float :=
  if m = 0 then nearest negative 0 1
  else if 400 < e then nearest negative (Nat.pow 2 1024) 1
  else if 0 ≤ e then nearest negative (m * Nat.pow 10 e.toNat) 1
  else if (Nat.log2 m : Int) + 1 + 3 * e < -1100 then
    nearest negative 0 1
  else nearest negative m (Nat.pow 10 (-e).toNat)

/-- The exponent in front, behind its letter, and the rest; no exponent counts as zero. -/
def takeExponent : List Char → Option (Int × List Char)
  | c :: rest =>
    if c = 'e' ∨ c = 'E' then
      let (negative, body) := takeSign rest
      match takeDigits body with
      | ([], _) => none
      | (ds, tail) => some (signed negative (ofDigits ds), tail)
    else some (0, c :: rest)
  | [] => some (0, [])

/-- The digits behind a point in front, and the rest. -/
def takeFraction : List Char → List Nat × List Char
  | '.' :: rest => takeDigits rest
  | rest => ([], rest)

/-- The binary64 number that a text writes in digits, a sign apart. -/
def readDecimal? (negative : Bool) (body : List Char) : Option Float :=
  let (whole, rest) := takeDigits body
  let (fraction, rest) := takeFraction rest
  if whole.isEmpty ∧ fraction.isEmpty then none
  else
    match takeExponent rest with
    | some (e, []) => some (ofDecimal negative (ofDigits (whole ++ fraction)) (e - fraction.length))
    | _ => none

/-- The lower-case form of an ASCII letter. -/
def asciiLower (c : Char) : Char := if 'A' ≤ c ∧ c ≤ 'Z' then Char.ofNat (c.toNat + 32) else c

/-- The binary64 number that a text writes; a magnitude too large is an infinity. -/
def readFloat? (s : String) : Option Float :=
  let (negative, body) := takeSign (trimMargins s.toList)
  let word := String.ofList (body.map asciiLower)
  if word = "inf" ∨ word = "infinity" then
    some (if negative then negativeInfinity else infinity)
  else if word = "nan" then some notANumber
  else readDecimal? negative body

end WorkflowEngine.Number
