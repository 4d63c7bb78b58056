import WorkflowEngine.Literal.Token

/-!
# Reading written literals

The value that a text writes as a literal: numbers with at most one sign, sums of a real and an
imaginary number, quoted texts and bytes, rows, lists, sets and objects of literals.
-/

namespace WorkflowEngine.Literal

open Number

/-- Which part a value may still play in a sum. -/
inductive Form where
  /-- A number without a sign. -/
  | unsigned
  /-- A number behind its sign. -/
  | signed
  /-- Anything else. -/
  | other
  deriving DecidableEq

/-- Puts a sign in front of a number. -/
def withSign (minus : Bool) : Value → Value
  | .int n _ => .int (if minus then -n else n)
  | .float x _ => .float (if minus then -x else x)
  | .complex re im _ => if minus then .complex (-re) (-im) else .complex re im
  | v => v

/-- The real number that a number stands for, unless it is imaginary or too large. -/
def real? : Value → Option Float
  | .int n _ => ofInt? n
  | .float x _ => some x
  | _ => none

/-- The sum or the difference of a real number and an imaginary one. -/
def sum? (minus : Bool) (a b : Value) : Option Value :=
  match b with
  | .complex re im _ => (real? a).map fun x =>
    let zero := nearest false 0 1
    if minus then .complex (x - re) (zero - im) else .complex (x + re) (zero + im)
  | _ => none

/-- Joins a text or bytes to the texts or bytes behind. -/
def joinQuoted : Token → List Token → Option (Value × List Token)
  | .text s, rest =>
    match rest with
    | .text s' :: rest' =>
      match joinQuoted (.text s') rest' with
      | some (.text tail _, behind) => some (.text (s ++ tail), behind)
      | _ => none
    | .bytes _ :: _ => none
    | _ => some (.text s, rest)
  | .bytes bs, rest =>
    match rest with
    | .bytes bs' :: rest' =>
      match joinQuoted (.bytes bs') rest' with
      | some (.bytes tail _, behind) => some (.bytes (bs ++ tail), behind)
      | _ => none
    | .text _ :: _ => none
    | _ => some (.bytes bs, rest)
  | _, _ => none

/-- The name of a value that is written as a word. -/
def word? : String → Option Value
  | "None" => some .null
  | "True" => some (.bool true)
  | "False" => some (.bool false)
  | "..." => some .ellipsis
  | _ => none

mutual

/-- Reads a literal that is no sum and has no sign. -/
def readAtom : (fuel : Nat) → List Token → Option ((Value × Form) × List Token)
  | 0, _ => none
  | fuel + 1, ts =>
    match ts with
    | .number v :: rest => some ((v, .unsigned), rest)
    | .text s :: rest => (joinQuoted (.text s) rest).map fun (v, tail) => ((v, .other), tail)
    | .bytes bs :: rest => (joinQuoted (.bytes bs) rest).map fun (v, tail) => ((v, .other), tail)
    | .name "set" :: .mark '(' :: .mark ')' :: rest => some ((.set [] false, .other), rest)
    | .name s :: rest => (word? s).map fun v => ((v, .other), rest)
    | .mark '(' :: .mark ')' :: rest => some ((.tuple [], .other), rest)
    | .mark '(' :: rest => do
      let ((v, form), behind) ← readLiteral fuel rest
      match behind with
      | .mark ')' :: tail => some ((v, form), tail)
      | .mark ',' :: tail =>
        let (vs, tail) ← readItems fuel ')' tail
        some ((.tuple (v :: vs), .other), tail)
      | _ => none
    | .mark '[' :: rest => do
      let (vs, tail) ← readItems fuel ']' rest
      some ((.list vs, .other), tail)
    | .mark '\x7b' :: .mark '\x7d' :: rest => some ((.dict [], .other), rest)
    | .mark '\x7b' :: rest => do
      let ((v, _), behind) ← readLiteral fuel rest
      match behind with
      | .mark ':' :: _ =>
        let (pairs, tail) ← readPairs fuel rest
        some ((.dict (Value.objectOf pairs), .other), tail)
      | .mark '\x7d' :: tail =>
        let set ← Value.setOf? [v]
        some ((set, .other), tail)
      | .mark ',' :: tail =>
        let (vs, tail) ← readItems fuel '\x7d' tail
        let set ← Value.setOf? (v :: vs)
        some ((set, .other), tail)
      | _ => none
    | _ => none

/-- Reads a literal. -/
def readLiteral : (fuel : Nat) → List Token → Option ((Value × Form) × List Token)
  | 0, _ => none
  | fuel + 1, ts => do
    let ((v, form), behind) ← match ts with
      | .mark '-' :: rest => readSigned fuel true rest
      | .mark '+' :: rest => readSigned fuel false rest
      | _ => readAtom fuel ts
    match behind with
    | .mark '+' :: rest => readSummand fuel false v form rest
    | .mark '-' :: rest => readSummand fuel true v form rest
    | _ => some ((v, form), behind)

/-- Reads a number behind its sign. -/
def readSigned : (fuel : Nat) → (minus : Bool) → List Token → Option ((Value × Form) × List Token)
  | 0, _, _ => none
  | fuel + 1, minus, ts => do
    let ((v, form), behind) ← readAtom fuel ts
    if form = .unsigned then some ((withSign minus v, .signed), behind) else none

/-- Reads the imaginary part behind the real part `a` and the sign. -/
def readSummand : (fuel : Nat) → (minus : Bool) → Value → Form → List Token →
    Option ((Value × Form) × List Token)
  | 0, _, _, _, _ => none
  | fuel + 1, minus, a, form, ts => do
    let ((b, form'), behind) ← readAtom fuel ts
    if form = .other ∨ form' ≠ .unsigned then none
    else
      let v ← sum? minus a b
      match behind with
      | .mark '+' :: _ | .mark '-' :: _ => none
      | _ => some ((v, .other), behind)

/-- Reads literals with commas between them up to a closing bracket; a comma may stand last. -/
def readItems : (fuel : Nat) → (closing : Char) → List Token → Option (List Value × List Token)
  | 0, _, _ => none
  | fuel + 1, closing, ts =>
    match ts with
    | .mark c :: rest =>
      if c == closing then some ([], rest) else readMore fuel closing ts
    | _ => readMore fuel closing ts

/-- Reads a literal and those behind it up to a closing bracket. -/
def readMore : (fuel : Nat) → (closing : Char) → List Token → Option (List Value × List Token)
  | 0, _, _ => none
  | fuel + 1, closing, ts => do
    let ((v, _), behind) ← readLiteral fuel ts
    match behind with
    | .mark ',' :: rest =>
      let (vs, tail) ← readItems fuel closing rest
      some (v :: vs, tail)
    | .mark c :: rest => if c == closing then some ([v], rest) else none
    | _ => none

/-- Reads the entries of an object up to its closing brace. -/
def readPairs : (fuel : Nat) → List Token → Option (List (Key × Value) × List Token)
  | 0, _ => none
  | fuel + 1, ts =>
    match ts with
    | .mark '\x7d' :: rest => some ([], rest)
    | _ => do
      let ((k, _), behind) ← readLiteral fuel ts
      match behind with
      | .mark ':' :: rest =>
        let ((v, _), behind) ← readLiteral fuel rest
        let key ← k.key?
        match behind with
        | .mark ',' :: rest =>
          let (pairs, tail) ← readPairs fuel rest
          some ((key, v) :: pairs, tail)
        | .mark '\x7d' :: rest => some ([(key, v)], rest)
        | _ => none
      | _ => none

end

/-- Reads the literals of a row without brackets, of which the first stands in front. -/
def readOpenRow : (fuel : Nat) → List Token → Option (List Value)
  | 0, _ => none
  | _ + 1, [] => some []
  | fuel + 1, ts => do
    let ((v, _), behind) ← readLiteral (4 * ts.length + 4) ts
    match behind with
    | [] => some [v]
    | .mark ',' :: rest => (readOpenRow fuel rest).map (v :: ·)
    | _ => none

/-- The value that a text writes as a literal, if it does. Literals with commas between them are a
row. -/
def read? (source : String) : Option Value := do
  let ts ← tokenize source
  let ts := (ts.reverse.dropWhile fun t => match t with
    | .lineEnd => true
    | _ => false).reverse
  let ((v, _), behind) ← readLiteral (4 * ts.length + 4) ts
  match behind with
  | [] => some v
  | .mark ',' :: rest => (readOpenRow (rest.length + 1) rest).map fun vs => .tuple (v :: vs)
  | _ => none

end WorkflowEngine.Literal
